import Mathlib.Data.List.Basic
import Mathlib.Data.List.Nodup
import Mathlib.Logic.Function.Basic

namespace ThreadPool.Foundation

/-! # Buffers

A buffer of bytes or characters has a fixed size, and a store outside of it
fails. A sequence of stores is summed up by two facts: it succeeds when every
store is inside, and when no two of its stores disagree about a cell, every
stored value is in the buffer afterwards. A loop over the cells, and one that
moves the items it keeps to the front, come with their invariant rules.
-/

structure Buffer (α : Type) where
  size : Nat
  cell : Nat → α

namespace Buffer

variable {α : Type} {buffer after : Buffer α} {stores first second : List (Nat × α)} {offset : Nat}
  {value : α}

/-- What `calloc` returns. -/
def zeroed (size : Nat) : Buffer UInt8 := ⟨size, fun _ => 0⟩

def put (buffer : Buffer α) (offset : Nat) (value : α) : Buffer α :=
  { buffer with cell := Function.update buffer.cell offset value }

@[simp] theorem put_size (buffer : Buffer α) (offset : Nat) (value : α) :
    (buffer.put offset value).size = buffer.size := rfl

@[simp] theorem put_cell_self (buffer : Buffer α) (offset : Nat) (value : α) :
    (buffer.put offset value).cell offset = value :=
  Function.update_self ..

theorem put_cell_of_ne {other : Nat} (different : other ≠ offset) :
    (buffer.put offset value).cell other = buffer.cell other :=
  Function.update_of_ne different ..

def store (buffer : Buffer α) (offset : Nat) (value : α) : Option (Buffer α) :=
  if offset < buffer.size then some (buffer.put offset value) else none

theorem store_eq_some :
    buffer.store offset value = some after ↔
      offset < buffer.size ∧ buffer.put offset value = after := by
  simp [store]

def load (buffer : Buffer α) (offset : Nat) : Option α :=
  if offset < buffer.size then some (buffer.cell offset) else none

/-- Stores at the given offsets, in order. -/
def storeAll : Buffer α → List (Nat × α) → Option (Buffer α)
  | buffer, [] => some buffer
  | buffer, (offset, value) :: rest => (buffer.store offset value).bind (storeAll · rest)

theorem storeAll_append (buffer : Buffer α) (first second : List (Nat × α)) :
    buffer.storeAll (first ++ second) = (buffer.storeAll first).bind (storeAll · second) := by
  induction first generalizing buffer with
  | nil => rfl
  | cons head rest ih =>
      cases stored : buffer.store head.1 head.2 with
      | none => simp [storeAll, stored]
      | some next => simp [storeAll, stored, ih]

theorem storeAll_cons {entry : Nat × α} :
    buffer.storeAll (entry :: stores) = some after ↔
      entry.1 < buffer.size ∧ (buffer.put entry.1 entry.2).storeAll stores = some after := by
  simp only [storeAll, Option.bind_eq_some_iff, store_eq_some]
  constructor
  · rintro ⟨_, ⟨within, rfl⟩, rest⟩
    exact ⟨within, rest⟩
  · rintro ⟨within, rest⟩
    exact ⟨_, ⟨within, rfl⟩, rest⟩

theorem storeAll_inside (inside : ∀ entry ∈ stores, entry.1 < buffer.size) :
    ∃ after, buffer.storeAll stores = some after := by
  induction stores generalizing buffer with
  | nil => exact ⟨buffer, rfl⟩
  | cons head rest ih =>
      obtain ⟨after, stored⟩ := @ih (buffer.put head.1 head.2)
        fun entry member => inside entry (by simp [member])
      exact ⟨after, storeAll_cons.mpr ⟨inside head (by simp), stored⟩⟩

/-- What a sequence of stores leaves alone. -/
theorem storeAll_frame (stored : buffer.storeAll stores = some after) :
    after.size = buffer.size ∧
      ∀ offset ∉ stores.map Prod.fst, after.cell offset = buffer.cell offset := by
  induction stores generalizing buffer with
  | nil =>
      cases stored
      exact ⟨rfl, fun _ _ => rfl⟩
  | cons head rest ih =>
      obtain ⟨size, frame⟩ := ih (storeAll_cons.mp stored).2
      refine ⟨size, fun offset outside => ?_⟩
      rw [List.map_cons, List.mem_cons, not_or] at outside
      rw [frame offset outside.2, put_cell_of_ne outside.1]

/-- A store outside the buffer fails, whatever precedes it. -/
theorem storeAll_outside {entry : Nat × α} (member : entry ∈ stores)
    (outside : buffer.size ≤ entry.1) : buffer.storeAll stores = none := by
  refine Option.eq_none_iff_forall_ne_some.mpr fun after stored => ?_
  induction stores generalizing buffer with
  | nil => cases member
  | cons head rest ih =>
      obtain ⟨within, remaining⟩ := storeAll_cons.mp stored
      rcases List.mem_cons.mp member with same | later
      · exact absurd (same ▸ within) (Nat.not_lt.mpr outside)
      · exact ih later (show (buffer.put head.1 head.2).size ≤ entry.1 from outside) remaining

/-- No two stores disagree about a cell. -/
def Consistent (stores : List (Nat × α)) : Prop :=
  ∀ entry ∈ stores, ∀ other ∈ stores, entry.1 = other.1 → entry.2 = other.2

theorem consistent_of_nodup (nodup : (stores.map Prod.fst).Nodup) : Consistent stores := by
  intro entry member other also same
  exact congrArg Prod.snd (List.inj_on_of_nodup_map nodup member also same)

theorem Consistent.append (left : Consistent first) (right : Consistent second)
    (apart : ∀ entry ∈ first, ∀ other ∈ second, entry.1 ≠ other.1) :
    Consistent (first ++ second) := by
  intro entry member other also same
  rcases List.mem_append.mp member with inFirst | inSecond
  · rcases List.mem_append.mp also with alsoFirst | alsoSecond
    · exact left entry inFirst other alsoFirst same
    · exact absurd same (apart entry inFirst other alsoSecond)
  · rcases List.mem_append.mp also with alsoFirst | alsoSecond
    · exact absurd same.symm (apart other alsoFirst entry inSecond)
    · exact right entry inSecond other alsoSecond same

theorem storeAll_cell (consistent : Consistent stores)
    (stored : buffer.storeAll stores = some after) :
    ∀ entry ∈ stores, after.cell entry.1 = entry.2 := by
  induction stores generalizing buffer with
  | nil => intro entry member; cases member
  | cons head rest ih =>
      have tail : Consistent rest := fun entry member other also =>
        consistent entry (by simp [member]) other (by simp [also])
      have remaining := (storeAll_cons.mp stored).2
      intro entry member
      by_cases again : entry.1 ∈ rest.map Prod.fst
      · obtain ⟨later, inRest, same⟩ := List.mem_map.mp again
        rw [← same, ih tail remaining later inRest]
        exact consistent later (by simp [inRest]) entry member same
      · -- nothing after the head writes this cell, so the entry is the head
        have here : entry = head := (List.mem_cons.mp member).resolve_right fun inRest =>
          again (List.mem_map_of_mem inRest)
        subst here
        rw [(storeAll_frame remaining).2 entry.1 again, put_cell_self]

/-- The stores of consecutive values from `offset` on. -/
def entries : Nat → List α → List (Nat × α)
  | _, [] => []
  | offset, value :: rest => (offset, value) :: entries (offset + 1) rest

/-- The cells from `offset` on hold `values`. -/
def Holds (buffer : Buffer α) (offset : Nat) (values : List α) : Prop :=
  ∀ i value, values[i]? = some value → buffer.cell (offset + i) = value

theorem holds_append {left right : List α} :
    buffer.Holds offset (left ++ right) ↔
      buffer.Holds offset left ∧ buffer.Holds (offset + left.length) right := by
  constructor
  · intro held
    refine ⟨fun i value found => held i value ?_, fun i value found => ?_⟩
    · obtain ⟨inside, _⟩ := List.getElem?_eq_some_iff.mp found
      rwa [List.getElem?_append_left inside]
    · rw [Nat.add_assoc]
      refine held (left.length + i) value ?_
      rwa [List.getElem?_append_right (Nat.le_add_right ..), Nat.add_sub_cancel_left]
  · rintro ⟨before, behind⟩ i value found
    by_cases inside : i < left.length
    · rw [List.getElem?_append_left inside] at found
      exact before i value found
    · rw [List.getElem?_append_right (Nat.not_lt.mp inside)] at found
      have shifted := behind (i - left.length) value found
      rwa [show offset + left.length + (i - left.length) = offset + i by omega] at shifted

theorem mem_entries {entry : Nat × α} {values : List α} :
    entry ∈ entries offset values ↔ ∃ i, values[i]? = some entry.2 ∧ entry.1 = offset + i := by
  induction values generalizing offset with
  | nil => simp [entries]
  | cons value rest ih =>
      rw [entries, List.mem_cons, ih]
      constructor
      · rintro (rfl | ⟨i, found, place⟩)
        · exact ⟨0, rfl, rfl⟩
        · exact ⟨i + 1, found, by omega⟩
      · rintro ⟨i, found, place⟩
        cases i with
        | zero =>
            left
            exact Prod.ext place (Option.some.inj found).symm
        | succ i => exact .inr ⟨i, found, by omega⟩

/-- A text written inside the buffer is there afterwards, and nothing else has changed. -/
theorem storeAll_entries {values : List α} (fits : offset + values.length ≤ buffer.size) :
    ∃ after, buffer.storeAll (entries offset values) = some after ∧ after.size = buffer.size ∧
      after.Holds offset values ∧
      ∀ i, i < offset ∨ offset + values.length ≤ i → after.cell i = buffer.cell i := by
  have inside : ∀ entry ∈ entries offset values, entry.1 < offset + values.length ∧
      offset ≤ entry.1 := by
    intro entry member
    obtain ⟨i, found, place⟩ := mem_entries.mp member
    obtain ⟨bound, _⟩ := List.getElem?_eq_some_iff.mp found
    omega
  have consistent : Consistent (entries offset values) := by
    intro entry member other also same
    obtain ⟨i, found, place⟩ := mem_entries.mp member
    obtain ⟨j, found', place'⟩ := mem_entries.mp also
    obtain rfl : i = j := by omega
    exact Option.some.inj (found.symm.trans found')
  obtain ⟨after, stored⟩ := storeAll_inside fun entry member =>
    Nat.lt_of_lt_of_le (inside entry member).1 fits
  obtain ⟨size, frame⟩ := storeAll_frame stored
  refine ⟨after, stored, size, ?_, ?_⟩
  · intro i value found
    exact storeAll_cell consistent stored (offset + i, value) (mem_entries.mpr ⟨i, found, rfl⟩)
  · intro i outside
    refine frame i fun written => ?_
    obtain ⟨entry, member, place⟩ := List.mem_map.mp written
    have bounds := inside entry member
    omega

theorem Holds.congr {values : List α} (held : buffer.Holds offset values)
    (same : ∀ i < offset + values.length, after.cell i = buffer.cell i) :
    after.Holds offset values := by
  intro i value found
  obtain ⟨inside, _⟩ := List.getElem?_eq_some_iff.mp found
  rw [same (offset + i) (by omega)]
  exact held i value found

section Loops

variable {σ : Type}

/-- A loop over the cells from `i` on, with a state that the visits change. -/
def visitAll (visit : σ → α → Option σ) (buffer : Buffer α) : (remaining i : Nat) → σ → Option σ
  | 0, _, state => some state
  | remaining + 1, i, state => do
      let item ← buffer.load i
      let state ← visit state item
      visitAll visit buffer remaining (i + 1) state

/-- The same loop, where an item that is kept moves to the front: `cells[n++] = cells[i]`. -/
def compact (visit : σ → α → Option (Bool × σ)) :
    (remaining i n : Nat) → σ → Buffer α → Option (Nat × σ × Buffer α)
  | 0, _, n, state, buffer => some (n, state, buffer)
  | remaining + 1, i, n, state, buffer => do
      let item ← buffer.load i
      let (keep, state) ← visit state item
      if keep then
        let buffer ← buffer.store n item
        compact visit remaining (i + 1) (n + 1) state buffer
      else compact visit remaining (i + 1) n state buffer

theorem holds_cons {values : List α} :
    buffer.Holds offset (value :: values) ↔
      buffer.cell offset = value ∧ buffer.Holds (offset + 1) values := by
  rw [← List.singleton_append, holds_append]
  refine and_congr ⟨fun held => held 0 value rfl, fun here i other found => ?_⟩ Iff.rfl
  cases i with
  | zero => exact here.trans (Option.some.inj found)
  | succ i => cases found

theorem Holds.push {values : List α} (held : buffer.Holds 0 values) (item : α) :
    (buffer.put values.length item).Holds 0 (values ++ [item]) := by
  refine holds_append.mpr ⟨held.congr fun k inside => put_cell_of_ne (by omega), ?_⟩
  rw [Nat.zero_add]
  exact holds_cons.mpr ⟨put_cell_self .., nofun⟩

theorem visitAll_spec {visit : σ → α → Option σ} (Inv : List α → σ → Prop)
    (step : ∀ {item rest state}, Inv (item :: rest) state →
      ∃ next, visit state item = some next ∧ Inv rest next)
    {rest : List α} {i : Nat} {state : σ} (start : Inv rest state) (held : buffer.Holds i rest)
    (fits : i + rest.length ≤ buffer.size) :
    ∃ final, buffer.visitAll visit rest.length i state = some final ∧ Inv [] final := by
  induction rest generalizing i state with
  | nil => exact ⟨state, rfl, start⟩
  | cons item rest ih =>
      rw [List.length_cons] at fits
      obtain ⟨here, behind⟩ := holds_cons.mp held
      obtain ⟨next, visited, inv⟩ := step start
      obtain ⟨final, looped, done⟩ := ih inv behind (by omega)
      have loaded : buffer.load i = some item := by
        rw [load, if_pos (by omega), here]
      exact ⟨final, by simp [visitAll, loaded, visited, looped], done⟩

/-- The kept items are in front, the others still where they were; a store never reaches
an item that has not been visited. -/
theorem compact_spec {visit : σ → α → Option (Bool × σ)} (Inv : List α → List α → σ → Prop)
    (step : ∀ {kept item rest state}, Inv kept (item :: rest) state →
      ∃ keep next, visit state item = some (keep, next) ∧
        Inv (if keep then kept ++ [item] else kept) rest next)
    {kept rest : List α} {i : Nat} {state : σ} (start : Inv kept rest state)
    (front : buffer.Holds 0 kept) (behind : buffer.Holds i rest) (passed : kept.length ≤ i)
    (fits : i + rest.length ≤ buffer.size) :
    ∃ final state' after, compact visit rest.length i kept.length state buffer =
        some (final.length, state', after) ∧
      after.size = buffer.size ∧ after.Holds 0 final ∧ Inv final [] state' := by
  induction rest generalizing kept i state buffer with
  | nil => exact ⟨kept, state, buffer, rfl, rfl, front, start⟩
  | cons item rest ih =>
      rw [List.length_cons] at fits
      obtain ⟨here, later⟩ := holds_cons.mp behind
      obtain ⟨keep, next, visited, inv⟩ := step start
      have loaded : buffer.load i = some item := by
        rw [load, if_pos (by omega), here]
      cases keep with
      | false =>
          rw [if_neg Bool.false_ne_true] at inv
          obtain ⟨final, state', after, looped, rest⟩ := ih inv front later (by omega) (by omega)
          exact ⟨final, state', after, by simp [compact, loaded, visited, looped], rest⟩
      | true =>
          rw [if_pos rfl] at inv
          have stored : buffer.store kept.length item = some (buffer.put kept.length item) :=
            store_eq_some.mpr ⟨by omega, rfl⟩
          have later' : (buffer.put kept.length item).Holds (i + 1) rest := by
            intro k value found
            rw [put_cell_of_ne (by omega)]
            exact later k value found
          obtain ⟨final, state', after, looped, rest⟩ :=
            ih inv (front.push item) later' (by simpa using passed) (by rw [put_size]; omega)
          refine ⟨final, state', after, ?_, rest⟩
          rw [List.length_append, List.length_singleton] at looped
          simp [compact, loaded, visited, stored, looped]

end Loops

/-- The little-endian readings of two and of four bytes. -/
def readU16 (buffer : Buffer UInt8) (offset : Nat) : Nat :=
  (buffer.cell offset).toNat + 256 * (buffer.cell (offset + 1)).toNat

def readU32 (buffer : Buffer UInt8) (offset : Nat) : Nat :=
  buffer.readU16 offset + 65536 * buffer.readU16 (offset + 2)

end Buffer

/-- The byte that a C expression `(uint8_t)(v & 0xff)` denotes. -/
def lowByte (value : Nat) : UInt8 := UInt8.ofNat (value &&& 0xff)

theorem lowByte_toNat (value : Nat) : (lowByte value).toNat = value % 256 := by
  rw [lowByte, show (0xff : Nat) = 2 ^ 8 - 1 by rfl, Nat.and_two_pow_sub_one_eq_mod]
  simp

end ThreadPool.Foundation
