import ThreadPool.Pool.Accesses
import ThreadPool.Pool.AgingControl
import ThreadPool.Pool.Drain
import ThreadPool.Pool.Shutdown
import ThreadPool.Pool.Stopping
import ThreadPool.Pool.Stranding

namespace ThreadPool.Pool

open Foundation

/-! # The pool at rest

When no thread of an unpaused pool can do anything any more, the work is done: the queue
is empty, every accepted task was executed, and every call has returned. This needs the
conditions under which the single wake-ups reach their sleepers.
-/

/-- A use of the pool in which no wake-up is lost: calls that enable or disable aging do not
overlap, the last worker leaves behind the submit calls, one thread at a time waits for
the tasks, and a refused task does not end its wait. -/
structure WellUsed {ι : Type} [DecidableEq ι] [Fintype ι] (config : PoolConfig ι)
    (label : Label ι Input) : Prop where
  oneAging : OneAgingThread config label
  serial : ControlSerial config label
  lastWorker : LastWorkerStays config label
  oneWaiter : OneWaiter config
  rollback : RollbackAttended config label
  few : outstandingTasks config < 2 ^ 31

instance {ι : Type} [DecidableEq ι] [Fintype ι] (config : PoolConfig ι) (label : Label ι Input) :
    Decidable (WellUsed config label) :=
  decidable_of_iff (OneAgingThread config label ∧ ControlSerial config label ∧
      LastWorkerStays config label ∧ OneWaiter config ∧ RollbackAttended config label ∧
      outstandingTasks config < 2 ^ 31)
    ⟨fun ⟨oneAging, serial, lastWorker, oneWaiter, rollback, few⟩ =>
      ⟨oneAging, serial, lastWorker, oneWaiter, rollback, few⟩,
    fun ⟨oneAging, serial, lastWorker, oneWaiter, rollback, few⟩ =>
      ⟨oneAging, serial, lastWorker, oneWaiter, rollback, few⟩⟩

/-- A thread of the application between two calls. -/
def Pc.outside (pc : Pc) : Prop := ∃ last, pc = .client last

/-- Nothing changes any more, unless the application makes another call or a thread wakes
without a signal. -/
def Quiet {ι : Type} [DecidableEq ι] [Fintype ι] (config : PoolConfig ι) : Prop :=
  Foundation.Quiet pool Pc.outside config

/-- Where a thread of a pool whose work is done can be. -/
inductive Done {ι : Type} (config : PoolConfig ι) (i : ι) : Prop
  | dormant : config.threads i = .ready .dormant → Done config i
  | outside (last) : config.threads i = .ready (.client last) → Done config i
  | idle : config.threads i = .asleep .notEmpty .pqMutex (.worker .popTest) →
      config.memory.shutdown = false → Done config i
  | exited : config.threads i = .ready (.worker .exited) → Done config i
  | aging : config.threads i = .asleep .agingCond .agingMutex (.aging .passStart) →
      config.memory.agingEnable = true → Done config i
  | agingExited : config.threads i = .ready (.aging .exited) → Done config i
  | destroyed : config.threads i = .ready (.destroy .done) → Done config i

section Loops

variable {ι : Type} [DecidableEq ι] [Fintype ι] {config after : PoolConfig ι} {label : Label ι Input}

omit [DecidableEq ι] [Fintype ι] in
theorem reads_loop {memory : Memory ι} {pc : Pc} (reads : Reads memory pc pc) : pc.resting = true := by
  cases reads <;> rfl

theorem syncs_ne {pc : Pc} : ¬ Syncs pc pc := by
  intro syncs
  cases syncs

omit [Fintype ι] in
theorem writes_ne {me : ι} {memory written : Memory ι} {pc : Pc} :
    ¬ Writes me memory pc written pc := by
  intro writes
  cases writes

omit [Fintype ι] in
/-- A step that changes nothing is a turn of the spin loop, or a call that returns at once. -/
theorem loops_rest (moves : Moves pool config label after) (own : label.own = true)
    (same : after = config) : (config.point label.thread).resting = true := by
  obtain ⟨pc, ready, sync | ⟨input, body⟩ | ⟨start, next, target, fork, result⟩⟩ := moves.unchanged own same
  · exact absurd (code_syncs sync) syncs_ne
  · rw [point_ready ready]
    cases here : pool.code label.thread pc with
    | read choose =>
        rw [here, Instr.body, Option.map_eq_some_iff] at body
        obtain ⟨_, result, loop⟩ := body
        cases loop
        exact reads_loop (code_reads here result)
    | act run =>
        rw [here] at body
        exact absurd (code_writes here body) writes_ne
    | _ =>
        rw [here] at body
        cases body
  · obtain ⟨rfl, _, ⟨_, _, _, loop⟩ | ⟨_, _, loop⟩⟩ := fork_result fork result <;> cases loop

theorem Quiet.settled (quiet : Quiet config) : Settled pool Pc.resting config := by
  refine Foundation.Quiet.settled quiet ?_ loops_rest
  rintro pc ⟨last, rfl⟩
  rfl

end Loops

section Resting

variable {ι : Type} [DecidableEq ι] [Fintype ι] {config : PoolConfig ι} {i : ι} {roles : ι → Role}
  {idCount : Nat} {allowed : PoolConfig ι → Label ι Input → Prop}

/-- The ways in which a thread of the pool rests. -/
inductive PoolRests (config : PoolConfig ι) (i : ι) : Prop
  | asleep {before cond mutex pc} : config.threads i = .asleep cond mutex pc →
      SleepsAt before cond mutex pc → PoolRests config i
  | joinsAging (caller tid) : config.threads i = .ready (.disable caller .join) →
      config.memory.agingTid = some tid → config.point tid ≠ .aging .exited → PoolRests config i
  | joinsWorker (worker) : config.threads i = .ready (.destroy .joinWorkers) →
      (config.point worker).liveWorker = true → PoolRests config i
  | dormant : config.threads i = .ready .dormant → PoolRests config i
  | exited : config.threads i = .ready (.worker .exited) → PoolRests config i
  | agingExited : config.threads i = .ready (.aging .exited) → PoolRests config i
  | destroyed : config.threads i = .ready (.destroy .done) → PoolRests config i
  | outside (last) : config.threads i = .ready (.client last) → PoolRests config i
  | spins : config.threads i = .ready (.destroy .spin) → PoolRests config i

omit [Fintype ι] in
theorem rests_pool (waits : (config.threads i).Waits pool i) (rests : Rests pool Pc.resting config i) :
    PoolRests config i := by
  cases rests with
  | asleep sleeper =>
      rw [sleeper] at waits
      obtain ⟨before, wait⟩ := waits
      exact .asleep sleeper (code_sleeps wait)
  | @joining pc awaits next j ready join awaited =>
      cases pc <;> (try (rename_i pc; cases pc)) <;> cases join
      · obtain ⟨tid, alive⟩ := Bool.and_eq_true_iff.mp awaited
        exact .joinsAging _ j ready (of_decide_eq_true tid) (of_decide_eq_true alive)
      · exact .joinsWorker j ready awaited
  | @halted pc ready halt =>
      cases pc <;> (try (rename_i pc; cases pc)) <;> cases halt
      · exact .dormant ready
      · exact .exited ready
      · exact .agingExited ready
      · exact .destroyed ready
  | @idle pc ready resting =>
      cases pc with
      | client last => exact .outside last ready
      | destroy pc =>
          cases pc <;> cases resting
          exact .spins ready
      | _ => cases resting

/-- What is known of the point of a resting thread. -/
structure AtRest (pc : Pc) : Prop where
  phase : pc.phase = .idle
  pause : pc.owesPause = true → pc = .destroy .spin
  exit : pc.owesExit = true → pc = .destroy .spin
  aging : pc.owesAging = false
  drain : pc.signalsDrain = false

omit [DecidableEq ι] [Fintype ι] in
theorem PoolRests.atRest (rests : PoolRests config i) : AtRest (config.point i) := by
  have at_point : ∀ {pc}, config.threads i = .ready pc → AtRest pc → AtRest (config.point i) := by
    intro pc ready facts
    rwa [point_ready ready]
  cases rests with
  | asleep sleeper sleeps =>
      rw [Config.point, sleeper]
      cases sleeps <;> refine ⟨rfl, ?_, ?_, rfl, rfl⟩ <;> intro owed <;> cases owed
  | spins ready => exact at_point ready ⟨rfl, fun _ => rfl, fun _ => rfl, rfl, rfl⟩
  | joinsAging _ _ ready | joinsWorker _ ready | dormant ready | exited ready | agingExited ready
  | destroyed ready | outside _ ready =>
      refine at_point ready ⟨rfl, ?_, ?_, rfl, rfl⟩ <;> intro owed <;> cases owed

theorem Quiet.rests (quiet : Quiet config)
    (reaches : Reaches pool allowed (threadPoolInit roles idCount) config) (i : ι) : PoolRests config i :=
  rests_pool (reachable_waits reaches i)
    (quiet.settled.at_rest pool_orderly (reachable_owned reaches) (reachable_waits reaches)
      (reachable_defined reaches) i)

omit [DecidableEq ι] in
theorem holding_rest {M : Type} [AddCommMonoid M] (share : Phase → M) (idle : share .idle = 0)
    (rests : ∀ i, PoolRests config i) : holding config share = 0 := by
  rw [holding, Config.total]
  refine Finset.sum_eq_zero fun i _ => ?_
  change share (config.point i).phase = 0
  rw [(rests i).atRest.phase, idle]

/-- Nobody is left in the spin loop of `thread_pool_destroy`. -/
theorem Quiet.not_spinning (quiet : Quiet config)
    (reaches : Reaches pool allowed (threadPoolInit roles idCount) config) (i : ι) :
    config.point i ≠ .destroy .spin := by
  intro here
  have rests := quiet.rests reaches
  have zero : config.memory.inFlightSubmits = 0#32 := by
    rw [reachable_inFlight reaches, submitsInFlight, holding_rest Phase.inFlight rfl rests]
  have ready := (reachable_waits reaches i).ready
    (by rw [here]; intro _ _ _ wait; cases code_sleeps wait)
  rw [here] at ready
  have moves : Moves pool config (.run i .none) (config.set i (.ready (.wakeAll .destroy .lock))) := by
    refine .read (.here ready) rfl ?_
    simp [zero]
  rcases quiet _ _ rfl moves.step with ⟨last, outside⟩ | same
  · rw [show config.point (Label.run i Input.none).thread = .destroy .spin from here] at outside
    cases outside
  · have stays := congrArg (fun config => config.threads i) same
    rw [Config.set_threads_self, ready] at stays
    cases stays

end Resting

section Work

variable {ι : Type} [DecidableEq ι] [Fintype ι] {config : PoolConfig ι} {i : ι} {roles : ι → Role}
  {idCount : Nat}

omit [Fintype ι] in
theorem writes_destroyed {me : ι} {memory after : Memory ι} {pc next : Pc}
    (writes : Writes me memory pc after next) :
    after.journal.destroyed = memory.journal.destroyed ∨ (pc = .destroy .destroyQueue ∧
      ∃ tasks pq, memory.pq.pqDestroy = some (tasks, pq) ∧
        after.journal.destroyed = tasks ++ memory.journal.destroyed) := by
  cases writes with
  | destroyQueue tasks pq result => exact .inr ⟨rfl, tasks, pq, result, rfl⟩
  | _ => exact .inl rfl

/-- `pq_destroy` finds the queue empty. -/
theorem reachable_destroyed
    (reaches : Reaches pool (fun config _ => outstandingTasks config < 2 ^ 31)
      (threadPoolInit roles idCount) config) : config.memory.journal.destroyed = [] := by
  apply reaches.invariant fun config => config.memory.journal.destroyed = []
  · rfl
  · intro config label after reached none _ moves
    cases moves_step moves with
    | still memory | sync _ memory | read _ _ _ memory | create _ _ _ memory | createFails _ memory =>
        rw [memory]
        exact none
    | @write i access middle next _ _ arrives writes points =>
        rcases writes_destroyed writes with same | ⟨rfl, tasks, pq, result, destroyed⟩
        · rw [same, none]
        · have stage : (config.point i).destroyStage = 3 :=
            ((arrives_behind arrives).same syncs_stage).symm
          have drained := (reachable_quiescing reached).drained i stage.ge
          obtain ⟨lanes, books⟩ := reachable_balanced reached
          have length := (destroy_size books.represents result).2
          rw [tasksInSystem, Memory.countedTasks] at drained
          rw [destroyed, none, List.append_nil]
          exact List.eq_nil_of_length_eq_zero (by omega)

variable (reaches : Reaches pool WellUsed (threadPoolInit roles idCount) config) (quiet : Quiet config)

include reaches quiet

/-- No worker and no aging thread is left behind on `pause_cond`. -/
theorem Quiet.none_paused (unpaused : config.memory.paused = false) (i : ι) :
    (config.threads i).sleepsOn Cond.pauseCond = false := by
  refine Bool.eq_false_of_not_eq_true fun asleep => ?_
  have stale : pauseStale (config.threads i) config.memory := by
    rcases pause_sleeper (reachable_waits reaches i) asleep with ⟨_, point⟩ | ⟨_, point⟩ <;>
      simp [pauseStale, point, Pc.pauseOver, unpaused]
  obtain ⟨j, owed⟩ := reachable_pauseAttended (reaches.mono WellUsed.oneAging) ⟨i, stale⟩
  exact quiet.not_spinning reaches j ((quiet.rests reaches j).atRest.pause owed)

/-- A worker sleeps on `not_empty` only in a pool that goes on. -/
theorem Quiet.idle_running (i : ι) (asleep : (config.threads i).sleepsOn Cond.notEmpty = true) :
    config.memory.shutdown = false := by
  refine Bool.eq_false_of_not_eq_true fun stopped => ?_
  obtain ⟨k, owed⟩ := reachable_exitAttended reaches stopped ⟨i, dozes_of_sleepsOn asleep⟩
  exact quiet.not_spinning reaches k ((quiet.rests reaches k).atRest.exit owed)

/-- The aging thread sleeps on `aging_cond` only while aging is enabled. -/
theorem Quiet.aging_enabled (i : ι) (asleep : (config.threads i).sleepsOn Cond.agingCond = true) :
    config.memory.agingEnable = true := by
  by_contra disabled
  obtain ⟨k, owed⟩ := reachable_agingAttended (reaches.mono WellUsed.oneAging)
    (Bool.eq_false_of_not_eq_true disabled) ⟨i, dozes_of_sleepsOn asleep⟩
  rw [(quiet.rests reaches k).atRest.aging] at owed
  cases owed

/-- The queue is empty: a sleeping worker would be on its way, and the last worker has left
it so. -/
theorem Quiet.queue_empty (unpaused : config.memory.paused = false) (worker : ι)
    (isWorker : roles worker = .worker) : config.memory.pq.size = 0 := by
  by_cases asleep : Asleep config
  · have covered := reachable_covered reaches asleep
    have calm : config.census wakes = 0 := by
      refine Finset.sum_eq_zero fun i _ => ?_
      cases quiet.rests reaches i with
      | asleep sleeper =>
          rw [sleeper]
          rfl
      | joinsAging _ _ ready | joinsWorker _ ready | dormant ready | exited ready | agingExited ready
      | destroyed ready | outside _ ready | spins ready =>
          rw [ready]
          rfl
    omega
  · refine (reachable_abandoned isWorker (reaches.mono WellUsed.lastWorker) fun i => ?_).empty
    cases quiet.rests reaches i with
    | asleep sleeper sleeps =>
        have awake := quiet.none_paused reaches unpaused i
        rw [sleeper] at awake
        cases sleeps with
        | workerPaused => cases awake
        | workerIdle => exact absurd ⟨i, by rw [sleeper]; rfl⟩ asleep
        | drain | agingPaused | agingIdle =>
            rw [Config.point, sleeper]
            rfl
    | joinsAging _ _ ready | joinsWorker _ ready | dormant ready | exited ready | agingExited ready
    | destroyed ready | outside _ ready | spins ready =>
        rw [point_ready ready]
        rfl

theorem Quiet.no_tasks (unpaused : config.memory.paused = false) (worker : ι)
    (isWorker : roles worker = .worker) : tasksInSystem config = 0 := by
  have held := holding_rest Phase.counts rfl (quiet.rests reaches)
  have destroyed := reachable_destroyed (reaches.mono WellUsed.few)
  have size := quiet.queue_empty reaches unpaused worker isWorker
  rw [tasksInSystem, Memory.countedTasks, held, destroyed, size]
  rfl

/-- Nobody waits for the tasks any more. -/
theorem Quiet.none_draining (unpaused : config.memory.paused = false) (worker : ι)
    (isWorker : roles worker = .worker) (i : ι) :
    (config.threads i).sleepsOn Cond.drainCond = false := by
  refine Bool.eq_false_of_not_eq_true fun asleep => ?_
  have none := quiet.no_tasks reaches unpaused worker isWorker
  have total : config.memory.totalTaskInSystem = 0 := by
    rw [reachable_total_eq reaches (by omega), none]
    rfl
  have attended : Attended config := reachable_attended reaches fun reached used =>
    ⟨used.rollback, oneWaiter_reachesAll (reachable_waits reached) used.oneWaiter _⟩
  have waiting : drainWaits (config.threads i) = true := by
    obtain ⟨mutex, sleeper⟩ := sleepsOn_asleep asleep
    rw [sleeper]
    rfl
  rcases attended ⟨i, waiting⟩ with busy | ⟨j, signals⟩
  · exact busy total
  · rw [(quiet.rests reaches j).atRest.drain] at signals
    cases signals

/-- `thread_pool_disable_aging` has joined the thread that it has stopped. -/
theorem Quiet.none_joining (unpaused : config.memory.paused = false) (caller : DisableCaller) (tid : ι)
    (here : config.point i = .disable caller .join) (current : config.memory.agingTid = some tid) :
    config.point tid = .aging .exited := by
  obtain ⟨watch, observed⟩ := (reaches.mono WellUsed.serial).observed watchAging {}
  have safe := observed_safe observed
  have stage : (control config watch).stage i = some .stopping := by
    change (config.point i).stage = _
    rw [here]
    rfl
  have fact := safe.fact i (safe.alone i (by rw [stage]; exact Option.some_ne_none _))
  rw [stage] at fact
  obtain ⟨disabled, ⟨joined, same, created, _⟩, _⟩ := fact
  obtain rfl : joined = tid := Option.some.inj (same.symm.trans current)
  change (config.point joined).isAging = true at created
  cases quiet.rests reaches joined with
  | asleep sleeper sleeps =>
      have awake := quiet.none_paused reaches unpaused joined
      rw [Config.point, sleeper] at created
      rw [sleeper] at awake
      cases sleeps with
      | agingPaused => cases awake
      | agingIdle =>
          have enabled := quiet.aging_enabled reaches joined (by rw [sleeper]; rfl)
          exact absurd (disabled.symm.trans enabled) Bool.false_ne_true
      | workerPaused | workerIdle | drain => cases created
  | agingExited ready => exact point_ready ready
  | joinsAging _ _ ready | joinsWorker _ ready | dormant ready | exited ready | destroyed ready
  | outside _ ready | spins ready =>
      rw [point_ready ready] at created
      cases created

/-- `thread_pool_destroy` has joined the workers. -/
theorem Quiet.none_alive (unpaused : config.memory.paused = false)
    (here : config.point i = .destroy .joinWorkers) (worker : ι) :
    (config.point worker).liveWorker = false := by
  have stopped : config.memory.shutdown = true := by
    refine (reachable_quiescing (reaches.mono WellUsed.few)).flagged i ?_
    rw [here]
    decide
  cases quiet.rests reaches worker with
  | asleep sleeper sleeps =>
      have awake := quiet.none_paused reaches unpaused worker
      rw [sleeper] at awake
      cases sleeps with
      | workerPaused => cases awake
      | workerIdle =>
          have running := quiet.idle_running reaches worker (by rw [sleeper]; rfl)
          exact absurd (running.symm.trans stopped) Bool.false_ne_true
      | drain | agingPaused | agingIdle =>
          rw [Config.point, sleeper]
          rfl
  | joinsAging _ _ ready | joinsWorker _ ready | dormant ready | exited ready | agingExited ready
  | destroyed ready | outside _ ready | spins ready =>
      rw [point_ready ready]
      rfl

end Work

section Rest

variable {ι : Type} [DecidableEq ι] [Fintype ι] {config : PoolConfig ι} {roles : ι → Role} {idCount : Nat}

/-- A pool that is well used and not paused comes to rest only when its work is done: the
queue is empty, every accepted task was called and completed, no call is under way, and
the workers and the aging thread sleep or have exited as the flags say. -/
theorem rests_when_done (reaches : Reaches pool WellUsed (threadPoolInit roles idCount) config)
    (worker : ι) (isWorker : roles worker = .worker) (unpaused : config.memory.paused = false)
    (quiet : Quiet config) :
    config.memory.pq.lanes = Lanes.empty ∧
      (config.memory.journal.completed : Multiset Addr) = config.memory.journal.accepted ∧
      ∀ i, Done config i := by
  have none := quiet.no_tasks reaches unpaused worker isWorker
  obtain ⟨empty, _, completed⟩ := settled reaches none
  refine ⟨empty, completed, fun i => ?_⟩
  cases quiet.rests reaches i with
  | asleep sleeper sleeps =>
      have awake := quiet.none_paused reaches unpaused i
      have drained := quiet.none_draining reaches unpaused worker isWorker i
      rw [sleeper] at awake drained
      cases sleeps with
      | workerPaused | agingPaused => cases awake
      | drain => cases drained
      | workerIdle => exact .idle sleeper (quiet.idle_running reaches i (by rw [sleeper]; rfl))
      | agingIdle => exact .aging sleeper (quiet.aging_enabled reaches i (by rw [sleeper]; rfl))
  | joinsAging caller tid ready current alive =>
      exact absurd (quiet.none_joining reaches unpaused caller tid (point_ready ready) current) alive
  | joinsWorker worker ready alive =>
      rw [quiet.none_alive reaches unpaused (point_ready ready) worker] at alive
      cases alive
  | dormant ready => exact .dormant ready
  | exited ready => exact .exited ready
  | agingExited ready => exact .agingExited ready
  | destroyed ready => exact .destroyed ready
  | outside last ready => exact .outside last ready
  | spins ready => exact absurd (point_ready ready) (quiet.not_spinning reaches i)

end Rest

/-- A worker that pops a task, runs it, and finds the queue empty afterwards. -/
def workerSteps {ι : Type} (i : ι) : List (Label ι Input) :=
  List.replicate 10 (go i) ++ [.pick i none] ++ List.replicate 5 (go i)

/-- The worker has run the only task and sleeps. -/
theorem rests_when_done_oneTask : ∃ config : PoolConfig (Fin 3),
    Reaches pool WellUsed (threadPoolInit oneWorker 0) config ∧ Quiet config ∧
      config.memory.journal.accepted = [0] ∧
      (config.memory.journal.completed : Multiset Addr) = config.memory.journal.accepted := by
  obtain ⟨config, reaches, unpaused, accepted, sleeper, first, second⟩ :=
    Reaches.of_schedule pool WellUsed (threadPoolInit oneWorker 0)
    (submitSteps 1 ⟨1, 0, .low⟩ ++ workerSteps 0)
    (fun config => config.memory.paused = false ∧ config.memory.journal.accepted = [0] ∧
      config.threads 0 = .asleep .notEmpty .pqMutex (.worker .popTest) ∧
      config.point 1 = .client (some (.id 0)) ∧ config.point 2 = .client none) (by decide +kernel)
  have quiet : Quiet config := by
    intro label after own stepped
    have awake : label.thread ≠ 0 := by
      intro here
      cases label with
      | run i input =>
          obtain rfl : i = 0 := here
          simp [Program.step, sleeper] at stepped
      | pick i target =>
          obtain rfl : i = 0 := here
          simp [Program.step, sleeper] at stepped
      | wake => cases own
    have others : label.thread = 1 ∨ label.thread = 2 := by omega
    rcases others with here | here <;> rw [here]
    · exact .inl ⟨_, first⟩
    · exact .inl ⟨_, second⟩
  exact ⟨config, reaches, quiet, accepted, (rests_when_done reaches 0 rfl unpaused quiet).2.1⟩

end ThreadPool.Pool
