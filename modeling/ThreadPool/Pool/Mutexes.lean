import ThreadPool.Foundation.Locks
import ThreadPool.Pool.Transitions

namespace ThreadPool.Pool

open Foundation

/-! # Mutexes of the pool

The mutexes that a thread holds at each program point.
-/

variable {ι : Type} [DecidableEq ι] {me : ι} {memory after : Memory ι} {next : Pc} {input : Input}

/-- The mutexes held at a program point. -/
def Pc.mutexes : Pc → List Mutex
  | .submit (.loadCap _) => [.pqMutex]
  | .submit (.insert ..) => [.pqMutex]
  | .submit (.unlockFull _) => [.pqMutex]
  | .submit (.unlockInserted _) => [.pqMutex]
  | .worker .pauseTest => [.pauseMutex]
  | .worker .pauseWait => [.pauseMutex]
  | .worker .pauseUnlock => [.pauseMutex]
  | .worker .popTest => [.pqMutex]
  | .worker .popShutdown => [.pqMutex]
  | .worker .popWait => [.pqMutex]
  | .worker .unlockNull => [.pqMutex]
  | .worker (.unlockPopped _) => [.pqMutex]
  | .worker .drainSignal => [.drainMutex]
  | .worker .drainUnlock => [.drainMutex]
  | .drain _ .test => [.drainMutex]
  | .drain _ .wait => [.drainMutex]
  | .drain _ .unlock => [.drainMutex]
  | .wakeAll _ .broadcast => [.pqMutex]
  | .wakeAll _ .unlock => [.pqMutex]
  | .wakePause _ .broadcast => [.pauseMutex]
  | .wakePause _ .unlock => [.pauseMutex]
  | .enable (.test ..) => [.agingMutex]
  | .enable (.set ..) => [.agingMutex]
  | .enable .store => [.agingMutex]
  | .enable .unlock => [.agingMutex]
  | .enable .unlockEnabled => [.agingMutex]
  | .disable _ .signal => [.agingMutex]
  | .disable _ .unlock => [.agingMutex]
  | .aging .start => []
  | .aging .pauseLock => []
  | .aging .pauseTest => [.pauseMutex]
  | .aging .pauseShutdown => [.pauseMutex]
  | .aging .pauseEnable => [.pauseMutex]
  | .aging .pauseWait => [.pauseMutex]
  | .aging .pauseUnlock => [.pauseMutex]
  | .aging .relock => []
  | .aging (.promote ..) => [.agingMutex, .pqMutex]
  | .aging (.unlockQueue ..) => [.agingMutex, .pqMutex]
  | .aging .exited => []
  | .aging _ => [.agingMutex]
  | .destroy .destroyQueue => [.pqMutex]
  | .destroy .unlockQueue => [.pqMutex]
  | _ => []

def Pc.holds (pc : Pc) (mutex : Mutex) : Bool := decide (mutex ∈ pc.mutexes)

theorem writes_holds {pc : Pc} (writes : Writes me memory pc after next) : next.holds = pc.holds := by
  cases writes <;> rfl

omit [DecidableEq ι] in
theorem reads_holds {pc : Pc} (reads : Reads memory pc next) : next.holds = pc.holds := by
  cases reads with
  | call last next entry => cases entry <;> rfl
  | _ => rfl

theorem lock_holds {pc : Pc} {mutex : Mutex} (lock : code me pc = .lock mutex next) :
    pc.holds mutex = false ∧ next.holds = Function.update pc.holds mutex true := by
  cases pc <;> (try (rename_i pc; cases pc)) <;> cases lock <;>
    exact ⟨rfl, by funext other; cases other <;> rfl⟩

theorem enter_holds {pc : Pc} {mutex : Mutex} (enter : code me pc = .enter mutex next) :
    pc.holds mutex = false ∧ next.holds = Function.update pc.holds mutex true := by
  cases pc <;> (try (rename_i pc; cases pc)) <;> cases enter <;>
    exact ⟨rfl, by funext other; cases other <;> rfl⟩

theorem unlock_holds {pc : Pc} {mutex : Mutex} (unlock : code me pc = .unlock mutex next) :
    pc.holds mutex = true ∧ next.holds = Function.update pc.holds mutex false := by
  cases pc with
  | drain caller pc | wakeAll caller pc =>
      cases pc <;> cases unlock
      cases caller <;> exact ⟨rfl, by funext other; cases other <;> rfl⟩
  | wakePause caller pc =>
      cases pc <;> cases unlock
      rcases caller with ⟨_ | _⟩ | _ | _ <;> exact ⟨rfl, by funext other; cases other <;> rfl⟩
  | aging pc =>
      cases pc with
      | unlockQueue scan promoteMs promoted =>
          cases unlock
          cases scan <;> cases promoted <;> exact ⟨rfl, by funext other; cases other <;> rfl⟩
      | _ => cases unlock <;> exact ⟨rfl, by funext other; cases other <;> rfl⟩
  | submit pc | worker pc | enable pc | disable _ pc | destroy pc =>
      cases pc <;> cases unlock <;> exact ⟨rfl, by funext other; cases other <;> rfl⟩
  | _ => cases unlock

theorem wait_holds {pc : Pc} {cond : Cond} {mutex : Mutex} (wait : code me pc = .wait cond mutex next) :
    pc.holds mutex = true ∧ next.holds = pc.holds := by
  cases pc <;> (try (rename_i pc; cases pc)) <;> cases wait <;> exact ⟨rfl, rfl⟩

theorem signal_holds {pc : Pc} {cond : Cond} (signal : code me pc = .signal cond next) :
    next.holds = pc.holds := by
  cases pc <;> (try (rename_i pc; cases pc)) <;> cases signal <;> rfl

theorem broadcast_holds {pc : Pc} {cond : Cond} (broadcast : code me pc = .broadcast cond next) :
    next.holds = pc.holds := by
  cases pc with
  | aging pc =>
      cases pc <;> cases broadcast
      rename_i scan _
      cases scan <;> rfl
  | wakeAll caller pc | wakePause caller pc =>
      cases pc <;> cases broadcast
      rfl
  | submit pc | worker pc | enable pc | disable _ pc | destroy pc | drain _ pc =>
      cases pc <;> cases broadcast
  | _ => cases broadcast

theorem join_holds {pc : Pc} {awaits : Memory ι → ι → Pc → Bool}
    (join : code me pc = .join awaits next) : next.holds = pc.holds := by
  cases pc with
  | disable caller pc =>
      cases pc <;> cases join
      cases caller <;> rfl
  | destroy pc =>
      cases pc <;> cases join
      rfl
  | submit pc | worker pc | enable pc | aging pc | drain _ pc | wakeAll _ pc | wakePause _ pc =>
      cases pc <;> cases join
  | _ => cases join

theorem pool_disciplined : Disciplined (pool : Program ι Mutex Cond (Memory ι) Pc Input) Pc.holds where
  read read result := reads_holds (code_reads read result)
  act act result := writes_holds (code_writes act result)
  lock := lock_holds
  enter := enter_holds
  unlock := unlock_holds
  wait := wait_holds
  signal := signal_holds
  broadcast := broadcast_holds
  join := join_holds
  fork fork := by
    obtain ⟨rfl, rfl, rfl⟩ := code_fork fork
    refine ⟨rfl, fun memory target => ?_⟩
    cases target <;> rfl
  dormant idle := by
    rw [of_decide_eq_true idle]
    rfl

omit [DecidableEq ι] in
theorem init_owned (roles : ι → Role) (idCount : Nat) :
    Owned Pc.holds (threadPoolInit roles idCount) where
  owner i mutex := by
    have free : (roles i).start.holds mutex = false := by cases roles i <;> rfl
    simp [threadPoolInit, free]
  parked waiting := by cases waiting

end ThreadPool.Pool
