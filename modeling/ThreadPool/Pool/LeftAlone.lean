import ThreadPool.Foundation.Potential
import ThreadPool.Pool.AtRest

namespace ThreadPool.Pool

open Foundation

/-! # A pool left alone

Without further calls and without wake-ups out of nothing, a pool takes a bounded number of
steps. The bound weighs every program point by the steps that may still follow it, up to
the next sleep; who wakes others has their steps on its account, and a queued task has
those of the worker that will run it.
-/

/-- The steps for a task, from its removal to the next look at the queue. -/
def taskWeight : Nat := 26

def SubmitPc.weight : SubmitPc → Nat
  | .announce _ => 17 + taskWeight
  | .checkShutdown _ => 16 + taskWeight
  | .loadMax _ => 15 + taskWeight
  | .loadDepth .. => 14 + taskWeight
  | .create _ => 13 + taskWeight
  | .count _ => 12 + taskWeight
  | .checkAging _ => 11 + taskWeight
  | .stamp _ => 10 + taskWeight
  | .lockQueue _ => 9 + taskWeight
  | .loadCap _ => 8 + taskWeight
  | .insert .. => 7 + taskWeight
  | .unlockInserted _ => 6
  | .signal _ => 5
  | .leave _ => 1
  | .unlockFull _ => 4
  | .uncount _ => 3
  | .discard _ => 2
  | .fail _ => 1

def WorkerPc.weight : WorkerPc → Nat
  | .unlockPopped _ => 26
  | .setBusy _ => 25
  | .call _ => 24
  | .running _ => 23
  | .destroy _ => 22
  | .clearBusy => 21
  | .decrement => 20
  | .drainLock => 19
  | .drainSignal => 18
  | .drainUnlock => 9
  | .top => 8
  | .pauseLock => 7
  | .pauseTest => 6
  | .pauseUnlock => 5
  | .pauseWait => 1
  | .popLock => 4
  | .popTest => 3
  | .popShutdown => 2
  | .popWait => 1
  | .unlockNull => 1
  | .exited => 0

def DrainPc.weight : DrainPc → Nat
  | .lock => 9
  | .test => 8
  | .unlock => 7
  | .wait => 1

/-- A pass of the aging thread may wake the workers twice. -/
def AgingPc.weight (n : Nat) : AgingPc → Nat
  | .passStart => 25 + 6 * n
  | .readClock .first _ => 24 + 6 * n
  | .checkFlag .first .. => 23 + 6 * n
  | .lockQueue .first .. => 22 + 6 * n
  | .promote .first .. => 21 + 6 * n
  | .unlockQueue .first .. => 20 + 6 * n
  | .broadcast .first _ => 19 + 6 * n
  | .between _ => 18 + 3 * n
  | .readClock .second _ => 17 + 3 * n
  | .checkFlag .second .. => 16 + 3 * n
  | .lockQueue .second .. => 15 + 3 * n
  | .promote .second .. => 14 + 3 * n
  | .unlockQueue .second .. => 13 + 3 * n
  | .broadcast .second _ => 12 + 3 * n
  | .start => 12
  | .loopTop => 11
  | .pauseRelease => 10
  | .pauseLock => 9
  | .pauseTest => 8
  | .pauseShutdown => 7
  | .pauseEnable => 6
  | .pauseWait => 1
  | .pauseUnlock => 5
  | .relock => 4
  | .checkShutdown => 3
  | .checkEnable => 2
  | .timedWait => 1
  | .unlock => 1
  | .exited => 0

def EnablePc.weight : EnablePc → Nat
  | .lock .. => 19
  | .test .. => 18
  | .set .. => 17
  | .store => 16
  | .unlock => 15
  | .create => 14
  | .undo => 1
  | .unlockEnabled => 1

def DisablePc.weight (n : Nat) : DisablePc → Nat
  | .load => 43 + 14 * n
  | .store => 42 + 14 * n
  | .lock => 41 + 14 * n
  | .signal => 40 + 14 * n
  | .unlock => 14 + 8 * n
  | .join => 10

def WakePauseCaller.weight (n : Nat) : WakePauseCaller → WakePc → Nat
  | .resume _, .lock => 12 + 8 * n
  | .resume _, .broadcast => 11 + 8 * n
  | .resume _, .unlock => 10
  | .disable _, .lock => 13 + 8 * n
  | .disable _, .broadcast => 12 + 8 * n
  | .disable _, .unlock => 11
  | .destroy, .lock => 46 + 22 * n
  | .destroy, .broadcast => 45 + 22 * n
  | .destroy, .unlock => 44 + 14 * n

def WakeAllCaller.weight (n : Nat) : WakeAllCaller → WakePc → Nat
  | .pause, .lock => 3 + 3 * n
  | .pause, .broadcast => 2 + 3 * n
  | .pause, .unlock => 1
  | .destroy, .lock => 49 + 25 * n
  | .destroy, .broadcast => 48 + 25 * n
  | .destroy, .unlock => 47 + 22 * n

def DestroyPc.weight (n : Nat) : DestroyPc → Nat
  | .storeShutdown => 52 + 25 * n
  | .storePaused => 51 + 25 * n
  | .spin => 50 + 25 * n
  | .monitorStop => 6
  | .joinWorkers => 5
  | .lockQueue => 4
  | .destroyQueue => 3
  | .unlockQueue => 2
  | .free => 1
  | .done => 0

/-- The steps that may follow a program point in a pool of `n` threads, with those of the
threads that it wakes. -/
def Pc.weight (n : Nat) : Pc → Nat
  | .dormant => 0
  | .client _ => 0
  | .submit pc => pc.weight
  | .worker pc => pc.weight
  | .wait => 14 + 8 * n
  | .drain _ pc => pc.weight
  | .pause => 4 + 3 * n
  | .wakeAll caller pc => caller.weight n pc
  | .resume _ => 13 + 8 * n
  | .wakePause caller pc => caller.weight n pc
  | .setMaxTasks _ => 1
  | .enable pc => pc.weight
  | .disable _ pc => pc.weight n
  | .aging pc => pc.weight n
  | .destroy pc => pc.weight n

/-- The weight of a thread that is woken. -/
def Cond.wakeup (n : Nat) : Cond → Nat
  | .notEmpty => 3
  | .drainCond => 8
  | .pauseCond => 8
  | .agingCond => 25 + 6 * n

/-- The weight of the queue. -/
def Memory.weight {ι : Type} (memory : Memory ι) : Nat := taskWeight * memory.pq.size

section Weights

variable {ι : Type} [DecidableEq ι] {me : ι} {memory after : Memory ι} {pc next : Pc} {n : Nat}

attribute [local simp] Pc.weight SubmitPc.weight WorkerPc.weight DrainPc.weight AgingPc.weight
  EnablePc.weight DisablePc.weight WakePauseCaller.weight WakeAllCaller.weight DestroyPc.weight
  Cond.wakeup Memory.weight taskWeight

omit [DecidableEq ι] in
theorem reads_weight (reads : Reads memory pc next) (inside : ∀ last, pc ≠ .client last)
    (moves : next ≠ pc) : next.weight n < pc.weight n := by
  cases reads with
  | call last => exact absurd rfl (inside last)
  | spin => exact absurd rfl moves
  | readClock scan | scan scan => cases scan <;> simp
  | _ => simp <;> omega

theorem writes_weight {lanes : Lanes Priority Addr} (writes : Writes me memory pc after next)
    (represents : memory.pq.Represents lanes) :
    next.weight n + after.weight < pc.weight n + memory.weight := by
  cases writes with
  | insert ticket max pq room inserted =>
      have size := (insert_counts inserted).1
      simp
      omega
  | pop task pq ready popped =>
      have size := (pop_counts represents ready popped).1
      simp
      omega
  | promote scan promoteMs now promoted pq result =>
      have size := (promote_counts represents (by cases scan <;> decide) result).1
      cases scan <;> simp [size]
  | destroyQueue tasks pq result =>
      have size := (destroy_size represents result).1
      simp
      omega
  | _ =>
      simp [Memory.announceSubmit, Memory.createTask, Memory.addTotal, Memory.retireSubmit,
        Memory.taskDestroy, Memory.setBusy, Memory.completeTask, PriorityQueue.store,
        PriorityQueue.pqSetMaxTasks]

theorem syncs_weight (syncs : Syncs pc next)
    (awake : ∀ cond mutex, ¬ SleepsAt pc cond mutex next) : next.weight n < pc.weight n := by
  cases syncs with
  | pauseWait => exact absurd .workerPaused (awake _ _)
  | popWait => exact absurd .workerIdle (awake _ _)
  | waiterSleep caller => exact absurd (.drain caller) (awake _ _)
  | agingPauseWait => exact absurd .agingPaused (awake _ _)
  | timedWait => exact absurd .agingIdle (awake _ _)
  | scanLock scan | scanUnlock scan => cases scan <;> simp
  | wakeAllLock caller | wakeAllBroadcast caller => cases caller <;> simp <;> omega
  | wakePauseLock caller | wakePauseBroadcast caller => cases caller <;> simp <;> omega
  | _ => simp <;> omega

theorem sleeps_weight {cond : Cond} {mutex : Mutex} (sleeps : SleepsAt pc cond mutex next) :
    0 < pc.weight n ∧ next.weight n ≤ cond.wakeup n := by
  cases sleeps <;> simp

theorem signal_weight {cond : Cond} (signal : code me pc = .signal cond next) :
    next.weight n + cond.wakeup n < pc.weight n := by
  cases pc <;> (try (rename_i pc; cases pc)) <;> cases signal <;> simp
  omega

theorem broadcast_weight {cond : Cond} (broadcast : code me pc = .broadcast cond next) :
    next.weight n + n * cond.wakeup n < pc.weight n := by
  cases pc with
  | aging pc =>
      cases pc <;> cases broadcast
      rename_i scan _
      cases scan <;> simp [Scan.return] <;> omega
  | wakeAll caller pc =>
      cases pc <;> cases broadcast
      cases caller <;> simp <;> omega
  | wakePause caller pc =>
      cases pc <;> cases broadcast
      cases caller <;> simp <;> omega
  | submit pc | worker pc | enable pc | disable _ pc | destroy pc | drain _ pc =>
      cases pc <;> cases broadcast
  | _ => cases broadcast

theorem pool_costs [Fintype ι] : Costs (pool : Program ι Mutex Cond (Memory ι) Pc Input)
    (Pc.weight (Fintype.card ι)) (Cond.wakeup (Fintype.card ι)) Memory.weight where
  sync {i pc next} sync awake := by
    refine syncs_weight (code_syncs sync) fun cond mutex sleeps => awake cond mutex ?_
    cases sleeps <;> rfl
  sleep wait := sleeps_weight (code_sleeps wait)
  signal := signal_weight
  broadcast := broadcast_weight
  fork fork result := by
    obtain ⟨rfl, rfl, ⟨_, _, rfl, rfl⟩ | ⟨_, rfl, rfl⟩⟩ := fork_result fork result <;> simp

end Weights

section Runs

variable {ι : Type} [DecidableEq ι] [Fintype ι] {allowed : PoolConfig ι → Label ι Input → Prop}
  {roles : ι → Role} {idCount n : Nat} {start config after : PoolConfig ι} {label : Label ι Input}

/-- A step that changes something and is neither a call of the application nor a wake-up
without a signal, such as the timeout of the aging thread. -/
def LeftAlone (config : PoolConfig ι) (label : Label ι Input) : Prop :=
  Foundation.LeftAlone pool Pc.outside config label

/-- What the threads of the pool can still do without further calls. -/
def work (config : PoolConfig ι) : Nat :=
  config.potential (Pc.weight (Fintype.card ι)) Memory.weight

theorem moves_work (reaches : Reaches pool allowed (threadPoolInit roles idCount) config)
    (alone : LeftAlone config label) (moves : Moves pool config label after) :
    work after < work config := by
  have waits := reachable_waits reaches
  obtain ⟨lanes, tidy⟩ := reachable_tidied reaches
  refine moves.spends pool_costs waits alone.own ?_
  intro i pc middle input written next here arrives body
  subst here
  cases code : pool.code i pc with
  | read choose =>
      rw [code, Instr.body, Option.map_eq_some_iff] at body
      obtain ⟨_, result, same⟩ := body
      cases same
      have reads := code_reads code result
      refine Nat.add_lt_add_right (reads_weight reads ?_ ?_) _
      · rintro last rfl
        obtain ⟨ready, _⟩ := arrives.resting pool_orderly (waits i) rfl
        exact alone.inside ⟨last, point_ready ready⟩
      · rintro rfl
        refine alone.changes (arrives.loops pool_orderly (waits i) (reads_loop reads) ?_)
        rw [code, Instr.body, result]
        rfl
  | act run =>
      rw [code] at body
      exact writes_weight (code_writes code body) tidy.represents
  | _ =>
      rw [code] at body
      cases body

/-- Left alone, a pool takes no more steps than its `work`, whatever the order of the threads,
and every run can be continued until nothing changes any more. -/
theorem left_alone_stops (reaches : Reaches pool allowed (threadPoolInit roles idCount) start)
    (takes : Takes pool LeftAlone start n config) :
    n + work config ≤ work start ∧ ∃ rest, Reaches pool LeftAlone config rest ∧ Quiet rest :=
  takes.stops work fun goes alone moves => moves_work (reaches.extend goes) alone moves

/-- A submitted task is work for the worker. -/
theorem left_alone_stops_oneTask : ∃ start rest : PoolConfig (Fin 3),
    Reaches pool (fun _ _ => True) (threadPoolInit oneWorker 0) start ∧ work start = 34 ∧
      Reaches pool LeftAlone start rest ∧ Quiet rest := by
  obtain ⟨start, reaches, weighs⟩ := Reaches.of_schedule pool (fun _ _ => True)
    (threadPoolInit oneWorker 0) (submitSteps 1 ⟨1, 0, .low⟩) (fun config => work config = 34)
    (by decide +kernel)
  obtain ⟨_, rest, goes, quiet⟩ := left_alone_stops reaches .none
  exact ⟨start, rest, reaches, weighs, goes, quiet⟩

end Runs

end ThreadPool.Pool
