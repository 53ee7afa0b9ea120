import Mathlib.Data.Multiset.AddSub
import Mathlib.Data.Multiset.Range

namespace ThreadPool.Foundation

/-! # Handles

A store whose slots are acquired, read through a handle, and released for reuse, such as a
table of descriptors or a heap. A handle remembers its origin, the number of the
acquisition that returned it: a later acquisition may return the same slot, never the same
origin. As long as every handle has one holder, each release finds its own acquisition in
the slot, and every acquisition is released once.
-/

variable {β : Type*}

/-- A slot as the program sees it, and the acquisition that it was returned by. -/
structure Handle where
  slot : Nat
  origin : Nat
deriving DecidableEq

structure Store (β : Type*) where
  /-- The slots in use: origin and content. -/
  slots : Nat → Option (Nat × β) := fun _ => none
  /-- The number of acquisitions so far. -/
  acquired : Nat := 0
  /-- The origins of the handles that were released, one entry for each release. -/
  released : List Nat := []

namespace Store

/-- Any slot that is not in use can be acquired. -/
def acquire (store : Store β) (slot : Nat) (content : β) : Option (Handle × Store β) :=
  if (store.slots slot).isNone then
    some (⟨slot, store.acquired⟩,
      { store with
        slots := Function.update store.slots slot (some (store.acquired, content))
        acquired := store.acquired + 1 })
  else none

def release (store : Store β) (handle : Handle) : Store β :=
  { store with
    slots := Function.update store.slots handle.slot none
    released := handle.origin :: store.released }

def read (store : Store β) (handle : Handle) : Option β := (store.slots handle.slot).map Prod.snd

/-- The holders have every handle that is not released, each once. -/
structure Balanced (store : Store β) (held : Multiset Handle) : Prop where
  valid : ∀ handle ∈ held, ∃ content, store.slots handle.slot = some (handle.origin, content)
  apart : (held.map Handle.slot).Nodup
  books : Multiset.range store.acquired = held.map Handle.origin + (store.released : Multiset Nat)

variable {store after : Store β} {held rest : Multiset Handle} {handle other : Handle} {slot : Nat}
  {content : β}

theorem acquire_some (acquired : store.acquire slot content = some (handle, after)) :
    store.slots slot = none ∧ handle = ⟨slot, store.acquired⟩ ∧
      after = { store with
        slots := Function.update store.slots slot (some (store.acquired, content))
        acquired := store.acquired + 1 } := by
  rw [acquire] at acquired
  split at acquired
  case isTrue free =>
    cases acquired
    exact ⟨Option.isNone_iff_eq_none.mp free, rfl, rfl⟩
  case isFalse => cases acquired

theorem acquire_free (free : store.slots slot = none) (content : β) :
    ∃ handle after, store.acquire slot content = some (handle, after) :=
  ⟨_, _, if_pos (Option.isNone_iff_eq_none.mpr free)⟩

/-- An acquisition leaves the other slots as they are. -/
theorem slots_acquire (acquired : store.acquire slot content = some (handle, after)) {n : Nat}
    (different : n ≠ slot) : after.slots n = store.slots n := by
  obtain ⟨_, _, rfl⟩ := acquire_some acquired
  exact Function.update_of_ne different ..

theorem slots_release {n : Nat} (different : n ≠ handle.slot) :
    (store.release handle).slots n = store.slots n :=
  Function.update_of_ne different ..

theorem read_acquired (acquired : store.acquire slot content = some (handle, after)) :
    after.read handle = some content := by
  obtain ⟨_, rfl, rfl⟩ := acquire_some acquired
  simp [read]

namespace Balanced

theorem empty : (({} : Store β)).Balanced 0 where
  valid := nofun
  apart := Multiset.nodup_zero
  books := rfl

theorem read_defined (balanced : store.Balanced held) (member : handle ∈ held) :
    ∃ content, store.read handle = some content := by
  obtain ⟨content, used⟩ := balanced.valid handle member
  exact ⟨content, by rw [read, used]; rfl⟩

/-- A slot that is free is in nobody's hands. -/
theorem slot_ne (balanced : store.Balanced held) (free : store.slots slot = none)
    (member : handle ∈ held) : handle.slot ≠ slot := by
  rintro rfl
  obtain ⟨content, used⟩ := balanced.valid handle member
  rw [free] at used
  cases used

theorem acquire (balanced : store.Balanced held)
    (acquired : store.acquire slot content = some (handle, after)) :
    after.Balanced (handle ::ₘ held) := by
  have kept := fun n => @slots_acquire _ _ _ _ _ _ acquired n
  obtain ⟨free, rfl, rfl⟩ := acquire_some acquired
  constructor
  case valid =>
    intro other member
    rcases Multiset.mem_cons.mp member with rfl | member
    · exact ⟨content, Function.update_self ..⟩
    · rw [kept _ (balanced.slot_ne free member)]
      exact balanced.valid other member
  case apart =>
    rw [Multiset.map_cons]
    refine Multiset.nodup_cons.mpr ⟨fun member => ?_, balanced.apart⟩
    obtain ⟨other, among, same⟩ := Multiset.mem_map.mp member
    exact balanced.slot_ne free among same
  case books => rw [Multiset.range_succ, Multiset.map_cons, Multiset.cons_add, balanced.books]

/-- What is read through the handles of others does not depend on an acquisition. -/
theorem read_acquire (balanced : store.Balanced held)
    (acquired : store.acquire slot content = some (handle, after)) (member : other ∈ held) :
    after.read other = store.read other := by
  have free := (acquire_some acquired).1
  rw [read, read, slots_acquire acquired (balanced.slot_ne free member)]

theorem slot_ne_of_cons (balanced : store.Balanced (handle ::ₘ rest)) (member : other ∈ rest) :
    other.slot ≠ handle.slot := by
  have apart := balanced.apart
  rw [Multiset.map_cons, Multiset.nodup_cons] at apart
  intro same
  exact apart.1 (Multiset.mem_map.mpr ⟨other, member, same⟩)

theorem release (balanced : store.Balanced (handle ::ₘ rest)) :
    (store.release handle).Balanced rest := by
  constructor
  case valid =>
    intro other member
    obtain ⟨content, used⟩ := balanced.valid other (Multiset.mem_cons_of_mem member)
    refine ⟨content, ?_⟩
    rw [slots_release (balanced.slot_ne_of_cons member), used]
  case apart =>
    have apart := balanced.apart
    rw [Multiset.map_cons, Multiset.nodup_cons] at apart
    exact apart.2
  case books =>
    change Multiset.range store.acquired = _
    rw [balanced.books, Multiset.map_cons, Store.release, ← Multiset.cons_coe, Multiset.add_cons,
      Multiset.cons_add]

theorem read_release (balanced : store.Balanced (handle ::ₘ rest)) (member : other ∈ rest) :
    (store.release handle).read other = store.read other := by
  rw [read, read, slots_release (balanced.slot_ne_of_cons member)]

/-- Every acquisition is in somebody's hands or was released, and never both. -/
theorem released_once (balanced : store.Balanced held) {origin : Nat} (below : origin < store.acquired) :
    store.released.count origin + (held.map Handle.origin).count origin = 1 := by
  have once := congrArg (Multiset.count origin) balanced.books
  rw [Multiset.count_add, Multiset.coe_count, Multiset.count_eq_one_of_mem
    (Multiset.nodup_range _) (Multiset.mem_range.mpr below)] at once
  omega

theorem released_le (balanced : store.Balanced held) (origin : Nat) :
    store.released.count origin ≤ 1 := by
  have once := congrArg (Multiset.count origin) balanced.books
  have most := Multiset.nodup_iff_count_le_one.mp (Multiset.nodup_range store.acquired) origin
  rw [Multiset.count_add, Multiset.coe_count] at once
  omega

end Balanced

/-- The acquisition that returned the handle has not been released. -/
def Owns (store : Store β) (handle : Handle) : Prop :=
  (store.slots handle.slot).map Prod.fst = some handle.origin

instance (store : Store β) (handle : Handle) : Decidable (store.Owns handle) :=
  inferInstanceAs (Decidable (_ = _))

def modify (store : Store β) (handle : Handle) (change : β → β) : Store β :=
  { store with
    slots := Function.update store.slots handle.slot
      ((store.slots handle.slot).map (Prod.map id change)) }

/-- The handles in use are exactly those of the holders. -/
structure Exact (store : Store β) (held : Multiset Handle) : Prop extends store.Balanced held where
  all : ∀ {slot origin content}, store.slots slot = some (origin, content) → ⟨slot, origin⟩ ∈ held

namespace Exact

theorem empty : (({} : Store β)).Exact 0 where
  toBalanced := .empty
  all := nofun

theorem owns_iff (exact : store.Exact held) : store.Owns handle ↔ handle ∈ held := by
  rw [Owns, Option.map_eq_some_iff]
  constructor
  · rintro ⟨⟨origin, content⟩, used, rfl⟩
    exact exact.all used
  · intro member
    obtain ⟨content, used⟩ := exact.valid handle member
    exact ⟨_, used, rfl⟩

theorem acquire (exact : store.Exact held)
    (acquired : store.acquire slot content = some (handle, after)) :
    after.Exact (handle ::ₘ held) where
  toBalanced := exact.toBalanced.acquire acquired
  all {n origin other} used := by
    by_cases here : n = slot
    · obtain ⟨_, rfl, rfl⟩ := acquire_some acquired
      subst here
      simp only [Function.update_self, Option.some.injEq, Prod.mk.injEq] at used
      simp [used.1]
    · rw [slots_acquire acquired here] at used
      exact Multiset.mem_cons_of_mem (exact.all used)

theorem release (exact : store.Exact (handle ::ₘ rest)) : (store.release handle).Exact rest where
  toBalanced := exact.toBalanced.release
  all {n origin content} used := by
    by_cases here : n = handle.slot
    · subst here
      simp [Store.release] at used
    · rw [slots_release here] at used
      rcases Multiset.mem_cons.mp (exact.all used) with rfl | member
      · exact absurd rfl here
      · exact member

theorem modify (exact : store.Exact held) (handle : Handle) (change : β → β) :
    (store.modify handle change).Exact held := by
  have origins : ∀ n, ((store.modify handle change).slots n).map Prod.fst =
      (store.slots n).map Prod.fst := by
    intro n
    by_cases here : n = handle.slot
    · subst here
      simp [Store.modify, Function.comp_def]
    · simp [Store.modify, here]
  constructor
  case toBalanced =>
    refine ⟨fun other member => ?_, exact.apart, exact.books⟩
    have owns := exact.owns_iff.mpr member
    rw [Owns, ← origins, Option.map_eq_some_iff] at owns
    obtain ⟨⟨_, content⟩, used, rfl⟩ := owns
    exact ⟨content, used⟩
  case all =>
    intro n origin content used
    apply exact.owns_iff.mp
    rw [Owns, ← origins, used]
    rfl

theorem released_of_owns (exact : store.Exact held) (owns : store.Owns handle) :
    store.released.count handle.origin = 0 := by
  have member := Multiset.mem_map_of_mem Handle.origin (exact.owns_iff.mp owns)
  have below : handle.origin ∈ Multiset.range store.acquired := by
    rw [exact.books]
    exact Multiset.mem_add.mpr (.inl member)
  have once := exact.released_once (Multiset.mem_range.mp below)
  have positive := Multiset.count_pos.mpr member
  omega

/-- What is no longer held was released in between, each once. -/
theorem released_eq (before : store.Exact (held + rest)) (later : after.Exact held)
    (same : after.acquired = store.acquired) :
    (after.released : Multiset Nat) = rest.map Handle.origin + (store.released : Multiset Nat) := by
  have books := later.books
  rw [same, before.books, Multiset.map_add, Multiset.add_assoc,
    Multiset.add_right_inj] at books
  exact books.symm

end Exact

end Store

end ThreadPool.Foundation
