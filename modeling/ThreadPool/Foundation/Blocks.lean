import Mathlib.Data.Multiset.AddSub
import Mathlib.Data.Multiset.UnionInter
import ThreadPool.Foundation.Census

namespace ThreadPool.Foundation

/-! # Blocks of a heap

The blocks of a heap against the parties that hold them. `Tenanted` says that what is
allocated is held and what is held is held once: nothing leaks and nothing dangles.
-/

variable {α β : Type*} {heap after : α → Option β} {held rest blocks : Multiset α} {a : α}

structure Tenanted (heap : α → Option β) (held : Multiset α) : Prop where
  once : held.Nodup
  allocated : ∀ a, (heap a).isSome = true ↔ a ∈ held

namespace Tenanted

theorem empty : Tenanted (fun _ => none : α → Option β) 0 where
  once := Multiset.nodup_zero
  allocated _ := by simp

/-- Writing to blocks neither allocates nor frees. -/
theorem rewrite (tenanted : Tenanted heap held) (same : ∀ a, (after a).isSome = (heap a).isSome) :
    Tenanted after held where
  once := tenanted.once
  allocated a := by rw [same a, tenanted.allocated a]

theorem alloc [DecidableEq α] (tenanted : Tenanted heap held) (free : heap a = none) (content : β) :
    Tenanted (Function.update heap a (some content)) (a ::ₘ held) where
  once := by
    refine Multiset.nodup_cons.mpr ⟨fun member => ?_, tenanted.once⟩
    have some := (tenanted.allocated a).mpr member
    rw [free] at some
    cases some
  allocated b := by
    by_cases same : b = a
    · subst same
      simp
    · simp [same, tenanted.allocated b]

/-- Freeing the blocks of one party leaves the others theirs. -/
theorem freeAll (tenanted : Tenanted heap (blocks + rest)) (gone : ∀ a ∈ blocks, after a = none)
    (kept : ∀ a ∉ blocks, after a = heap a) : Tenanted after rest where
  once := (Multiset.nodup_add.mp tenanted.once).2.1
  allocated a := by
    by_cases mine : a ∈ blocks
    · have apart := (Multiset.nodup_add.mp tenanted.once).2.2
      simp [gone a mine, Multiset.disjoint_left.mp apart mine]
    · rw [kept a mine, tenanted.allocated a]
      simp [mine]

theorem free [DecidableEq α] (tenanted : Tenanted heap (a ::ₘ rest)) :
    Tenanted (Function.update heap a none) rest := by
  rw [← Multiset.singleton_add] at tenanted
  apply tenanted.freeAll
  · intro b mine
    rw [Multiset.mem_singleton.mp mine, Function.update_self]
  · intro b other
    exact Function.update_of_ne (fun same => other (Multiset.mem_singleton.mpr same)) ..

end Tenanted

/-- Of the threads that hold every block once, two share none. -/
theorem apart_of_sum_nodup {ι γ : Type*} [Fintype ι] [DecidableEq ι] (share : γ → Multiset α)
    (family : ι → γ) {i j : ι} (once : (∑ i, share (family i)).Nodup) (different : i ≠ j)
    (mine : a ∈ share (family i)) : a ∉ share (family j) := by
  intro other
  rw [sum_split share family i] at once
  refine Multiset.disjoint_left.mp (Multiset.nodup_add.mp once).2.2 mine ?_
  exact Multiset.mem_sum.mpr ⟨j, Finset.mem_erase.mpr ⟨different.symm, Finset.mem_univ j⟩, other⟩

end ThreadPool.Foundation
