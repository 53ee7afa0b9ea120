import Mathlib.Data.List.DropRight
import Mathlib.Data.Int.ModEq
import Mathlib.Logic.Function.Basic

namespace ThreadPool.Foundation

/-! # Ring buffers

A ring keeps its items in a fixed number of slots, oldest first from `start` on.
A push into a full ring overwrites the oldest item, so that the contents after
any number of pushes are the most recent items.
-/

structure Ring (α : Type) (capacity : Nat) where
  slots : Nat → α
  start : Nat
  count : Nat
  start_lt : start < capacity
  count_le : count ≤ capacity

namespace Ring

variable {α : Type} {capacity : Nat} (ring : Ring α capacity) (item : α)

/-- The slot of the item of age `i`, counted from the oldest one. -/
def place (i : Nat) : Nat := (ring.start + i) % capacity

def contents : List α := (List.range ring.count).map fun i => ring.slots (ring.place i)

def empty (slots : Nat → α) (positive : 0 < capacity) : Ring α capacity :=
  ⟨slots, 0, 0, positive, Nat.zero_le _⟩

def push : Ring α capacity :=
  have positive : 0 < capacity := Nat.zero_lt_of_lt ring.start_lt
  if full : ring.count = capacity then
    { slots := Function.update ring.slots ring.start item
      start := (ring.start + 1) % capacity
      count := ring.count
      start_lt := Nat.mod_lt _ positive
      count_le := ring.count_le }
  else
    { ring with
      slots := Function.update ring.slots (ring.place ring.count) item
      count := ring.count + 1
      count_le := Nat.lt_of_le_of_ne ring.count_le full }

@[simp] theorem contents_empty (slots : Nat → α) (positive : 0 < capacity) :
    (empty slots positive : Ring α capacity).contents = [] := rfl

theorem length_contents : ring.contents.length = ring.count := by simp [contents]

theorem place_zero : ring.place 0 = ring.start := Nat.mod_eq_of_lt ring.start_lt

theorem place_ne {i j : Nat} (before : i < j) (near : j < i + capacity) :
    ring.place i ≠ ring.place j := by
  intro same
  have aligned : capacity ∣ ring.start + j - (ring.start + i) :=
    (Nat.modEq_iff_dvd' (by omega)).mp same
  have far := Nat.le_of_dvd (by omega) aligned
  omega

theorem contents_push_room (room : ring.count ≠ capacity) :
    (ring.push item).contents = ring.contents ++ [item] := by
  have bound := ring.count_le
  rw [push, dif_neg room]
  simp only [contents, List.range_succ, List.map_append, List.map_singleton]
  congr 1
  · refine List.map_congr_left fun i old => ?_
    have young := List.mem_range.mp old
    exact Function.update_of_ne (ring.place_ne young (by omega)) ..
  · exact congrArg (fun value => [value]) (Function.update_self ..)

/-- In a full ring every item moves up by one age; the place of the oldest one
becomes that of the newest. -/
theorem contents_push_full (full : ring.count = capacity) :
    (ring.push item).contents = ring.contents.tail ++ [item] := by
  obtain ⟨rest, size⟩ : ∃ rest, ring.count = rest + 1 :=
    Nat.exists_eq_succ_of_ne_zero (by have occupied := ring.start_lt; omega)
  have shift : ∀ i, ((ring.start + 1) % capacity + i) % capacity = ring.place (i + 1) := by
    intro i
    rw [Nat.mod_add_mod, place, Nat.add_assoc, Nat.add_comm 1 i]
  have around : ring.place (rest + 1) = ring.start := by
    rw [place, ← size, full, Nat.add_mod_right, Nat.mod_eq_of_lt ring.start_lt]
  have older : ring.contents.tail = (List.range rest).map fun i => ring.slots (ring.place (i + 1)) := by
    rw [contents, size, List.range_succ_eq_map, List.map_cons, List.tail_cons, List.map_map]
    rfl
  have pushed : (ring.push item).contents = (List.range (rest + 1)).map fun i =>
      Function.update ring.slots ring.start item (ring.place (i + 1)) := by
    rw [push, dif_pos full, contents]
    simp only [place, size] at shift ⊢
    simp only [shift]
  rw [pushed, older, List.range_succ, List.map_append, List.map_singleton, around,
    Function.update_self]
  congr 1
  refine List.map_congr_left fun i old => ?_
  have young := List.mem_range.mp old
  have apart := ring.place_ne (Nat.succ_pos i) (by omega)
  rw [place_zero] at apart
  exact Function.update_of_ne apart.symm ..

theorem contents_push : (ring.push item).contents = (ring.contents ++ [item]).rtake capacity := by
  have length := ring.length_contents
  have bound := ring.count_le
  rw [List.rtake, List.length_append, length, List.length_singleton]
  by_cases full : ring.count = capacity
  · rw [contents_push_full ring item full, full, Nat.add_sub_cancel_left, List.drop_one]
    rw [List.tail_append_of_ne_nil]
    rw [← List.length_pos_iff]
    have occupied := ring.start_lt
    omega
  · rw [contents_push_room ring item full, Nat.sub_eq_zero_of_le (by omega), List.drop_zero]

/-- Pushing a sequence of items leaves the most recent ones. -/
theorem contents_pushAll (items : List α) :
    (items.foldl push ring).contents = (ring.contents ++ items).rtake capacity := by
  induction items using List.reverseRecOn with
  | nil =>
      rw [List.foldl_nil, List.append_nil, List.rtake, length_contents,
        Nat.sub_eq_zero_of_le ring.count_le, List.drop_zero]
  | append_singleton items item ih =>
      rw [List.foldl_append, List.foldl_cons, List.foldl_nil, contents_push, ih]
      simp only [List.rtake_eq_reverse_take_reverse, List.reverse_append, List.reverse_reverse,
        List.reverse_singleton, List.singleton_append]
      -- cutting what is behind the first item does not change a cut from the front
      cases capacity with
      | zero => rfl
      | succ n => simp [List.take_take]

end Ring

end ThreadPool.Foundation
