import ThreadPool.Pool.Transitions

namespace ThreadPool.Pool

open Foundation

/-! # The end of the workers

`thread_pool_destroy` joins the workers before it frees the pool, so none of them uses the
pool behind the `free`. The calls of the application threads it does not await.
-/

section Transitions

variable {ι : Type} [DecidableEq ι] {me : ι} {memory after : Memory ι} {pc next : Pc}

/-- `thread_pool_destroy` behind its join of the workers. -/
def Pc.joined : Pc → Bool
  | .destroy .lockQueue => true
  | .destroy .destroyQueue => true
  | .destroy .unlockQueue => true
  | .destroy .free => true
  | .destroy .done => true
  | _ => false

theorem goes_liveWorker (goes : Goes me memory pc after next) (live : next.liveWorker = true) :
    pc.liveWorker = true := by
  have before : ∀ {pc next}, Syncs pc next → next.liveWorker = true → pc.liveWorker = true := by
    intro pc next syncs live
    cases syncs <;> first | rfl | cases live
  cases goes with
  | sync syncs => exact before syncs live
  | read behind reads =>
      refine behind.reflects before ?_
      cases reads with
      | call last next entry => cases entry <;> cases live
      | _ => first | rfl | cases live
  | write behind writes =>
      refine behind.reflects before ?_
      cases writes <;> first | rfl | cases live
  | create | createFails | created => cases live

end Transitions

section Reachable

variable {ι : Type} [DecidableEq ι] [Fintype ι] {config after : PoolConfig ι} {label : Label ι Input}
  {allowed : PoolConfig ι → Label ι Input → Prop} {roles : ι → Role} {idCount : Nat}

/-- Workers that have exited do not come back. -/
theorem moves_left (moves : Moves pool config label after)
    (left : ∀ i, (config.point i).liveWorker = false) (i : ι) : (after.point i).liveWorker = false := by
  refine Bool.eq_false_of_not_eq_true fun live => ?_
  rcases moves_goes moves i with same | goes
  · simp [same, left i] at live
  · have alive := goes_liveWorker goes live
    simp [left i] at alive

end Reachable

end ThreadPool.Pool
