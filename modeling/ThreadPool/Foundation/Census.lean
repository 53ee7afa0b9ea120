import Mathlib.Algebra.BigOperators.Group.Finset.Basic
import Mathlib.Algebra.BigOperators.Group.Finset.Piecewise
import Mathlib.Algebra.Order.BigOperators.Group.Finset
import Mathlib.Data.Fintype.BigOperators

namespace ThreadPool.Foundation

/-! # Counting over a family of threads

A quantity spread over finitely many threads is the sum of what each thread
contributes in its current phase. When one thread moves, only its own
contribution changes; the lemmas below are the whole calculus of such moves.
-/

variable {ι β M : Type*} [Fintype ι] [DecidableEq ι] [AddCommMonoid M]

/-- What all threads but `i` contribute. -/
def others (share : β → M) (family : ι → β) (i : ι) : M :=
  ∑ j ∈ Finset.univ.erase i, share (family j)

theorem sum_split (share : β → M) (family : ι → β) (i : ι) :
    ∑ j, share (family j) = share (family i) + others share family i :=
  (Finset.add_sum_erase Finset.univ (fun j => share (family j)) (Finset.mem_univ i)).symm

theorem sum_update (share : β → M) (family : ι → β) (i : ι) (phase : β) :
    ∑ j, share (Function.update family i phase j) = share phase + others share family i := by
  rw [sum_split share _ i, Function.update_self]
  congr 1
  refine Finset.sum_congr rfl fun j member => ?_
  rw [Function.update_of_ne (Finset.ne_of_mem_erase member)]

/-- A move between two phases with the same contribution leaves the sum alone. -/
theorem sum_update_same {share : β → M} {family : ι → β} {i : ι} {phase : β}
    (same : share phase = share (family i)) :
    ∑ j, share (Function.update family i phase j) = ∑ j, share (family j) := by
  rw [sum_update, sum_split share family i, same]

end ThreadPool.Foundation
