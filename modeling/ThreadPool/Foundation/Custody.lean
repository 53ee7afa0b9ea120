import Mathlib.Algebra.Order.Group.Multiset
import Mathlib.Data.Multiset.UnionInter

namespace ThreadPool.Foundation

/-! # Custody of work items

What a pool of workers does with its items, without threads or memory: an item is created,
accepted into a queue, taken out, called and completed, and the one who brought it is told
so. The journal fields only grow; the other fields say in whose hands an item is.
-/

structure Custody (α : Type*) where
  /-- Created and not accepted yet. -/
  pending : Multiset α
  queued : Multiset α
  taken : Multiset α
  running : Multiset α
  /-- Completed and not disposed of yet. -/
  finished : Multiset α
  /-- Accepted, but its owner has not been told yet. -/
  returning : Multiset α
  accepted : Multiset α
  returned : Multiset α
  called : Multiset α
  completed : Multiset α

namespace Custody

variable {α : Type*}

inductive Step (custody : Custody α) : Custody α → Prop
  | create (item : α) : item ∉ custody.pending + custody.accepted →
      Step custody { custody with pending := item ::ₘ custody.pending }
  | accept (item : α) (rest : Multiset α) : custody.pending = item ::ₘ rest →
      Step custody { custody with
        pending := rest
        queued := item ::ₘ custody.queued
        returning := item ::ₘ custody.returning
        accepted := item ::ₘ custody.accepted }
  | answer (item : α) (rest : Multiset α) : custody.returning = item ::ₘ rest →
      Step custody { custody with returning := rest, returned := item ::ₘ custody.returned }
  | take (item : α) (rest : Multiset α) : custody.queued = item ::ₘ rest →
      Step custody { custody with queued := rest, taken := item ::ₘ custody.taken }
  | call (item : α) (rest : Multiset α) : custody.taken = item ::ₘ rest →
      Step custody { custody with
        taken := rest
        running := item ::ₘ custody.running
        called := item ::ₘ custody.called }
  | complete (item : α) (rest : Multiset α) : custody.running = item ::ₘ rest →
      Step custody { custody with
        running := rest
        finished := item ::ₘ custody.finished
        completed := item ::ₘ custody.completed }
  | discard (item : α) (rest : Multiset α) : custody.finished = item ::ₘ rest →
      Step custody { custody with finished := rest }

/-- Every accepted item is in one place, and every item was brought once. -/
structure Balanced (custody : Custody α) : Prop where
  distinct : (custody.pending + custody.accepted).Nodup
  accepted : custody.accepted = custody.queued + custody.taken + custody.called
  called : custody.called = custody.running + custody.completed
  returned : custody.accepted = custody.returned + custody.returning
  finished : custody.finished ≤ custody.completed

theorem Step.balanced {custody after : Custody α} (step : custody.Step after)
    (balanced : custody.Balanced) : after.Balanced := by
  cases step with
  | create item fresh =>
      refine { balanced with distinct := ?_ }
      rw [Multiset.cons_add]
      exact Multiset.nodup_cons.mpr ⟨fresh, balanced.distinct⟩
  | accept item rest held =>
      refine { balanced with distinct := ?_, accepted := ?_, returned := ?_ }
      · have distinct := balanced.distinct
        rwa [held, Multiset.cons_add, ← Multiset.add_cons] at distinct
      · change item ::ₘ custody.accepted = item ::ₘ custody.queued + custody.taken + custody.called
        rw [balanced.accepted, Multiset.cons_add, Multiset.cons_add]
      · change item ::ₘ custody.accepted = custody.returned + item ::ₘ custody.returning
        rw [balanced.returned, Multiset.add_cons]
  | answer item rest held =>
      refine { balanced with returned := ?_ }
      change custody.accepted = item ::ₘ custody.returned + rest
      rw [balanced.returned, held, Multiset.add_cons, Multiset.cons_add]
  | take item rest held =>
      refine { balanced with accepted := ?_ }
      change custody.accepted = rest + item ::ₘ custody.taken + custody.called
      rw [balanced.accepted, held, Multiset.add_cons, Multiset.cons_add]
  | call item rest held =>
      refine { balanced with accepted := ?_, called := ?_ }
      · change custody.accepted = custody.queued + rest + item ::ₘ custody.called
        rw [balanced.accepted, held, Multiset.add_cons, Multiset.add_cons, Multiset.cons_add]
      · change item ::ₘ custody.called = item ::ₘ custody.running + custody.completed
        rw [balanced.called, Multiset.cons_add]
  | complete item rest held =>
      refine { balanced with called := ?_, finished := ?_ }
      · change custody.called = rest + item ::ₘ custody.completed
        rw [balanced.called, held, Multiset.add_cons, Multiset.cons_add]
      · exact Multiset.cons_le_cons item balanced.finished
  | discard item rest held =>
      refine { balanced with finished := ?_ }
      have finished := balanced.finished
      rw [held] at finished
      exact (Multiset.le_cons_self rest item).trans finished

namespace Balanced

variable {custody : Custody α} {item : α}

theorem accepted_nodup (balanced : custody.Balanced) : custody.accepted.Nodup :=
  (Multiset.nodup_add.mp balanced.distinct).2.1

theorem pending_not_accepted (balanced : custody.Balanced) (pending : item ∈ custody.pending) :
    item ∉ custody.accepted :=
  Multiset.disjoint_left.mp (Multiset.nodup_add.mp balanced.distinct).2.2 pending

theorem queued_accepted (balanced : custody.Balanced) (queued : item ∈ custody.queued) :
    item ∈ custody.accepted := by
  rw [balanced.accepted]
  simp [queued]

/-- A finished item is nowhere else. -/
theorem finished_apart (balanced : custody.Balanced) (finished : item ∈ custody.finished) :
    item ∉ custody.pending ∧ item ∉ custody.queued := by
  have called : item ∈ custody.called := by
    rw [balanced.called]
    exact Multiset.mem_add.mpr (.inr (Multiset.mem_of_le balanced.finished finished))
  have nodup := balanced.accepted_nodup
  rw [balanced.accepted] at nodup
  have apart := (Multiset.nodup_add.mp nodup).2.2
  constructor
  · intro pending
    apply balanced.pending_not_accepted pending
    rw [balanced.accepted]
    simp [called]
  · intro queued
    exact Multiset.disjoint_left.mp apart (Multiset.mem_add.mpr (.inl queued)) called

/-- With nothing queued, taken or running, every item was called and completed once. -/
theorem settled [DecidableEq α] (balanced : custody.Balanced) (queued : custody.queued = 0)
    (taken : custody.taken = 0) (running : custody.running = 0) (returned : item ∈ custody.returned) :
    custody.called.count item = 1 ∧ custody.completed.count item = 1 := by
  have called : custody.accepted = custody.called := by
    rw [balanced.accepted, queued, taken, zero_add, zero_add]
  have completed : custody.called = custody.completed := by
    rw [balanced.called, running, zero_add]
  have accepted : custody.accepted.count item = 1 := by
    apply Multiset.count_eq_one_of_mem balanced.accepted_nodup
    rw [balanced.returned]
    simp [returned]
  rw [← completed, ← called]
  exact ⟨accepted, accepted⟩

end Balanced

end Custody

end ThreadPool.Foundation
