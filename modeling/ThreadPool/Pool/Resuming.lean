import ThreadPool.Foundation.Wakeups
import ThreadPool.Pool.AgingScan
import ThreadPool.Pool.NotEmpty
import ThreadPool.Pool.Pausing

namespace ThreadPool.Pool

open Foundation

/-! # Wake-ups of `pause_cond`

The workers sleep on `pause_cond` while the pool is paused, the aging thread while it is
paused, open and aging is enabled. Each store that ends one of these reasons is followed
by `thread_pool_wake_pause` in the same call.
-/

/-- The thread has found a reason to sleep that is no longer one. -/
def Pc.pauseOver {ι : Type} : Pc → Memory ι → Bool
  | .worker .pauseWait, memory => !memory.paused
  | .aging .pauseShutdown, memory => !memory.paused
  | .aging .pauseEnable, memory => !memory.paused || memory.shutdown
  | .aging .pauseWait, memory => !memory.paused || memory.shutdown || !memory.agingEnable
  | _, _ => false

/-- The point of a thread, and of a sleeper on `pause_cond` the point of its wait. -/
def pausePoint : Status Mutex Cond Pc → Pc
  | .ready pc => pc
  | .asleep .pauseCond _ (.worker .pauseTest) => .worker .pauseWait
  | .asleep .pauseCond _ (.aging .pauseTest) => .aging .pauseWait
  | _ => .dormant

/-- A thread that sleeps on `pause_cond`, or is about to, without a reason. -/
def pauseStale {ι : Type} (status : Status Mutex Cond Pc) (memory : Memory ι) : Prop :=
  (pausePoint status).pauseOver memory = true

/-- A thread that has yet to broadcast `pause_cond` under `pause_mutex`. -/
def Pc.owesPause : Pc → Bool
  | .wakePause _ .lock => true
  | .wakePause _ .broadcast => true
  | .disable _ .lock => true
  | .disable _ .signal => true
  | .disable _ .unlock => true
  | .destroy .storePaused => true
  | .destroy .spin => true
  | .wakeAll .destroy _ => true
  | _ => false

def Pc.enabling : Pc → Bool
  | .enable _ => true
  | _ => false

/-- An aging thread that has not left `aging_worker`. -/
def Pc.agingAlive : Pc → Bool
  | .aging .exited => false
  | .aging _ => true
  | _ => false

section Protocol

variable {ι : Type} [DecidableEq ι] {me : ι} {memory after : Memory ι} {pc next : Pc}
  {cond : Cond} {mutex : Mutex}

theorem code_wait_pause (wait : code me pc = .wait cond mutex next) :
    (pc = .worker .pauseWait ∧ next = .worker .pauseTest) ∨
      (pc = .aging .pauseWait ∧ next = .aging .pauseTest) ∨ cond ≠ .pauseCond := by
  cases pc with
  | worker pc =>
      cases pc <;> cases wait
      · exact .inl ⟨rfl, rfl⟩
      · exact .inr (.inr nofun)
  | aging pc =>
      cases pc <;> cases wait
      · exact .inr (.inl ⟨rfl, rfl⟩)
      · exact .inr (.inr nofun)
  | drain caller pc =>
      cases pc <;> cases wait
      exact .inr (.inr nofun)
  | submit pc | enable pc | destroy pc | wakeAll _ pc | wakePause _ pc | disable _ pc =>
      cases pc <;> cases wait
  | _ => cases wait

theorem sleep_stale (wait : code me pc = .wait cond mutex next)
    (late : pauseStale (.asleep cond mutex next) memory) : pauseStale (.ready pc) memory := by
  rcases code_wait_pause wait with ⟨rfl, rfl⟩ | ⟨rfl, rfl⟩ | other
  · cases wait
    exact late
  · cases wait
    exact late
  · cases cond with
    | pauseCond => exact absurd rfl other
    | _ => cases late

omit [DecidableEq ι] in
theorem reads_pause (reads : Reads memory pc next) :
    (next.pauseOver memory = true → pc.pauseOver memory = true) ∧
      (pc.owesPause = true → next.owesPause = true) := by
  cases reads with
  | call _ _ entry => cases entry <;> exact ⟨nofun, nofun⟩
  | stillPaused paused | pauseLasts paused => exact ⟨by simp [Pc.pauseOver, paused], nofun⟩
  | pauseOpen running => exact ⟨by simp [Pc.pauseOver, running], nofun⟩
  | pauseEnabled enabled => exact ⟨by simp [Pc.pauseOver, enabled], nofun⟩
  | spin | quiet => exact ⟨nofun, fun _ => rfl⟩
  | _ => exact ⟨nofun, nofun⟩

theorem writes_pause (writes : Writes me memory pc after next) :
    next.pauseOver after = false ∧ (pc.owesPause = true → next.owesPause = true) := by
  cases writes with
  | storePaused => exact ⟨rfl, fun _ => rfl⟩
  | _ => exact ⟨rfl, nofun⟩

omit [DecidableEq ι] in
theorem syncs_pauseOver (syncs : Syncs pc next) : next.pauseOver memory = false := by
  cases syncs <;> rfl

/-- A debt is passed on until the broadcast. -/
theorem sync_owes (sync : (code me pc).sync = some next) (owed : pc.owesPause = true) :
    next.owesPause = true ∨ code me pc = .broadcast .pauseCond next := by
  cases pc with
  | wakePause caller pc =>
      cases pc with
      | lock =>
          cases sync
          exact .inl rfl
      | broadcast =>
          cases sync
          exact .inr rfl
      | unlock => cases owed
  | wakeAll caller pc =>
      cases caller with
      | pause => cases owed
      | destroy =>
          cases pc <;> cases sync <;> exact .inl rfl
  | disable caller pc =>
      cases pc with
      | lock | signal | unlock =>
          cases sync
          exact .inl rfl
      | _ => cases owed
  | destroy pc =>
      cases pc with
      | storePaused | spin => cases sync
      | _ => cases owed
  | _ => cases owed

theorem broadcast_pause (broadcast : code me pc = .broadcast .pauseCond next) :
    pc.holds .pauseMutex = true := by
  cases pc with
  | wakePause caller pc =>
      cases pc <;> cases broadcast
      rfl
  | wakeAll caller pc | disable caller pc | drain caller pc => cases pc <;> cases broadcast
  | submit pc | worker pc | enable pc | aging pc | destroy pc => cases pc <;> cases broadcast
  | _ => cases broadcast

omit [DecidableEq ι] in
theorem pauseOver_holds (ended : pc.pauseOver memory = true) : pc.holds .pauseMutex = true := by
  cases pc with
  | worker pc | aging pc => cases pc <;> first | rfl | cases ended
  | _ => cases ended

omit [DecidableEq ι] in
/-- A write that gives no new reason to wake up makes nobody stale. -/
theorem pauseOver_of_flags (late : pc.pauseOver after = true)
    (paused : after.paused = false → memory.paused = false)
    (shutdown : after.shutdown = true → memory.shutdown = true)
    (enabled : after.agingEnable = false → memory.agingEnable = false) :
    pc.pauseOver memory = true := by
  cases pc with
  | worker pc | aging pc =>
      cases pc <;> first
        | cases late
        | simp only [Pc.pauseOver, Bool.or_eq_true, Bool.not_eq_true'] at late ⊢
          tauto
  | _ => cases late

omit [DecidableEq ι] in
theorem pausePoint_alive {status : Status Mutex Cond Pc} (alive : (pausePoint status).agingAlive = true) :
    status.point.agingAlive = true := by
  unfold pausePoint at alive
  split at alive <;> first | exact alive | cases alive

/-- Whoever gives a new reason to wake up owes a broadcast, the failed creation of an
aging thread apart. -/
theorem writes_stale {waiting : Pc} (writes : Writes me memory pc after next)
    (late : waiting.pauseOver after = true) :
    waiting.pauseOver memory = true ∨ next.owesPause = true ∨
      (pc = .enable .undo ∧ waiting.agingAlive = true) := by
  cases writes with
  | pause => exact .inl (pauseOver_of_flags late nofun id id)
  | enableStore => exact .inl (pauseOver_of_flags late id id nofun)
  | resume | disableStore | storeShutdown | storePaused => exact .inr (.inl rfl)
  | enableUndo =>
      -- The flag of aging concerns aging threads only.
      cases waiting with
      | worker waiting => cases waiting <;> exact .inl late
      | aging waiting => cases waiting <;> first | exact .inr (.inr ⟨rfl, rfl⟩) | cases late
      | _ => cases late
  | _ => exact .inl (pauseOver_of_flags late id id id)

theorem pause_protocol : WakeProtocol (pool : Program ι Mutex Cond (Memory ι) Pc Input) Pc.holds
    .pauseCond .pauseMutex pauseStale Pc.owesPause where
  woken := nofun
  elsewhere {cond _ _ _} other late := by
    cases cond with
    | pauseCond => exact other rfl
    | _ => cases late
  sync sync late := by
    rw [pauseStale, pausePoint, syncs_pauseOver (code_syncs sync)] at late
    cases late
  sleep := sleep_stale
  read read result := reads_pause (code_reads read result)
  act act result := by
    obtain ⟨fresh, debt⟩ := writes_pause (code_writes act result)
    exact ⟨by rw [pauseStale, pausePoint, fresh]; nofun, debt⟩
  fork fork result := by
    obtain ⟨rfl, rfl, ⟨tid, _, rfl, rfl⟩ | ⟨_, rfl, rfl⟩⟩ := fork_result fork result
    · exact ⟨nofun, nofun, rfl, fun _ late => pauseOver_of_flags late id id id⟩
    · exact ⟨nofun, nofun, rfl, fun _ => id⟩
  dormant dormant := by
    rw [of_decide_eq_true dormant]
    rfl
  debt := sync_owes
  pays := broadcast_pause
  guarded := pauseOver_holds

end Protocol

section Enabling

variable {ι : Type} [DecidableEq ι] [Fintype ι] {config after : PoolConfig ι} {label : Label ι Input}
  {roles : ι → Role} {idCount : Nat}

theorem enable_region : Region Pc.enabling where
  sync syncs there := by cases syncs <;> first | rfl | cases there
  read reads := by
    cases reads with
    | call last => exact .inl ⟨last, rfl⟩
    | alreadyEnabled | notEnabled => exact .inr fun _ => rfl
    | _ => exact .inr nofun
  write writes there := by cases writes <;> first | rfl | cases there
  undo _ := rfl
  client := rfl
  aging := rfl

theorem syncs_agingAlive {pc next : Pc} (syncs : Syncs pc next) (alive : next.agingAlive = true) :
    pc.agingAlive = true := by
  cases syncs <;> first | rfl | cases alive

/-- An aging thread is born by the last step of `thread_pool_enable_aging`. -/
theorem aging_born {j : ι} (moves : Moves pool config label after)
    (unborn : (config.point j).agingAlive = false) (alive : (after.point j).agingAlive = true) :
    ∃ i, config.point i = .enable .create ∧ (after.point i).enabling = false := by
  have mover : ∀ {k next}, after.point = Function.update config.point k next →
      (k = j → Pc.agingAlive next = true → (config.point j).agingAlive = true) → False := by
    intro k next points back
    rw [points, Function.update_apply] at alive
    split at alive
    case isTrue here => simp [back here.symm alive] at unborn
    case isFalse => simp [unborn] at alive
  cases moves_step moves with
  | still _ points => simp [points, unborn] at alive
  | sync syncs _ points =>
      refine (mover points fun here => ?_).elim
      subst here
      exact syncs_agingAlive syncs
  | read arrives reads _ _ points =>
      refine (mover points fun here alive => ?_).elim
      subst here
      apply (arrives_behind arrives).reflects syncs_agingAlive
      cases reads with
      | call _ _ entry => cases entry <;> cases alive
      | _ => first | rfl | cases alive
  | write arrives writes points =>
      refine (mover points fun here alive => ?_).elim
      subst here
      apply (arrives_behind arrives).reflects syncs_agingAlive
      generalize after.memory = memory at writes
      cases writes <;> first | rfl | cases alive
  | @create i _ _ here _ _ _ points => exact ⟨i, here, by simp [points, Pc.enabling]⟩
  | createFails _ _ points => exact (mover points fun _ alive => by cases alive).elim

def beginsEnable : Label ι Input → Bool
  | .run _ (.call (.enableAging ..)) => true
  | _ => false

/-- `thread_pool_enable_aging` is called only while no other call of it is under way and
no aging thread is running. -/
def OneAgingThread (config : PoolConfig ι) (label : Label ι Input) : Prop :=
  beginsEnable label = true →
    ∀ j, (config.point j).enabling = false ∧ (config.point j).agingAlive = false

instance (label : Label ι Input) : Decidable (OneAgingThread config label) :=
  inferInstanceAs (Decidable (beginsEnable label = true →
    ∀ j, (config.point j).enabling = false ∧ (config.point j).agingAlive = false))

theorem enable_begins (moves : Moves pool config label after) {i : ι}
    (outside : (config.point i).enabling = false) (begins : (after.point i).enabling = true) :
    beginsEnable label = true ∧ ∃ input, label = .run i input := by
  obtain ⟨call, rfl, entry⟩ := enable_region.entered moves outside begins
  refine ⟨?_, _, rfl⟩
  rw [entry] at begins
  cases call with
  | enableAging => rfl
  | submit args =>
      simp only [Call.entry] at begins
      split at begins <;> cases begins
  | _ => cases begins

/-- A thread inside `thread_pool_enable_aging` is alone there, and no aging thread runs. -/
def EnablesAlone (config : PoolConfig ι) : Prop :=
  ∀ i, (config.point i).enabling = true →
    ∀ j, ((config.point j).enabling = true → j = i) ∧ (config.point j).agingAlive = false

theorem enablesAlone_step (alone : EnablesAlone config) (permitted : OneAgingThread config label)
    (moves : Moves pool config label after) : EnablesAlone after := by
  intro i enabling j
  cases before : (config.point i).enabling with
  | true =>
      have here := alone i before
      constructor
      · intro other
        cases old : (config.point j).enabling with
        | true => exact (here j).1 old
        | false =>
            have idle := permitted (enable_begins moves old other).1 i
            simp [before] at idle
      · refine Bool.eq_false_of_not_eq_true fun alive => ?_
        obtain ⟨k, creating, left⟩ := aging_born moves (here j).2 alive
        have same : k = i := (here k).1 (by rw [creating]; rfl)
        rw [same, enabling] at left
        cases left
  | false =>
      obtain ⟨begins, input, rfl⟩ := enable_begins moves before enabling
      have idle := permitted begins
      constructor
      · intro other
        obtain ⟨_, _, same⟩ := enable_begins moves (idle j).1 other
        cases same
        rfl
      · refine Bool.eq_false_of_not_eq_true fun alive => ?_
        obtain ⟨k, creating, _⟩ := aging_born moves (idle j).2 alive
        have there := (idle k).1
        rw [creating] at there
        cases there

theorem reachable_enablesAlone
    (reaches : Reaches pool OneAgingThread (threadPoolInit roles idCount) config) :
    EnablesAlone config := by
  refine reaches.invariant EnablesAlone ?_ fun _ alone permitted moves =>
    enablesAlone_step alone permitted moves
  intro i enabling
  change (roles i).start.enabling = true at enabling
  cases role : roles i <;> rw [role] at enabling <;> cases enabling

/-- Whenever a thread sleeps on `pause_cond` without a reason, or is about to, some thread
has yet to broadcast. -/
theorem reachable_pauseAttended
    (reaches : Reaches pool OneAgingThread (threadPoolInit roles idCount) config) :
    NoneLost pauseStale Pc.owesPause config := by
  apply reaches.invariant (NoneLost pauseStale Pc.owesPause)
  · rintro ⟨i, late⟩
    change (roles i).start.pauseOver _ = true at late
    cases role : roles i <;> rw [role] at late <;> cases late
  · intro config label after reached noneLost _ moves
    refine moves.noneLost pause_protocol (reachable_owned reached) (reachable_waits reached) ?_ noneLost
    intro i access middle run input written next arrives act result j different late
    rcases writes_stale (code_writes act result) late with old | owed | ⟨rfl, alive⟩
    · exact .inl old
    · exact .inr owed
    · -- The store that undoes a failed enabling meets no aging thread.
      have undoing : (config.point i).enabling = true :=
        (arrives_behind arrives).reflects enable_region.sync rfl
      have dead := (reachable_enablesAlone reached i undoing j).2
      rw [Config.point, pausePoint_alive alive] at dead
      cases dead

omit [Fintype ι] in
/-- Only the workers and the aging thread sleep on `pause_cond`. -/
theorem pause_sleeper {i : ι} (waits : (config.threads i).Waits pool i)
    (asleep : (config.threads i).sleepsOn Cond.pauseCond = true) :
    ((config.point i).isWorker = true ∧ pausePoint (config.threads i) = .worker .pauseWait) ∨
      ((config.point i).agingAlive = true ∧ pausePoint (config.threads i) = .aging .pauseWait) := by
  rw [Config.point]
  cases status : config.threads i with
  | asleep cond mutex pc =>
      rw [status] at asleep waits
      obtain rfl : cond = .pauseCond := of_decide_eq_true asleep
      obtain ⟨before, wait⟩ := waits
      rcases code_wait_pause wait with ⟨_, rfl⟩ | ⟨_, rfl⟩ | other
      · exact .inl ⟨rfl, rfl⟩
      · exact .inr ⟨rfl, rfl⟩
      · exact absurd rfl other
  | ready | woken =>
      rw [status] at asleep
      cases asleep

theorem worker_not_aging {pc : Pc} (worker : pc.isWorker = true) : pc.agingAlive = false := by
  cases pc <;> first | rfl | cases worker

/-- A worker asleep on `pause_cond` while the pool is not paused, or an aging thread asleep
there although it has a reason to go on, is owed a broadcast. -/
theorem no_wakeup_lost_on_resume
    (reaches : Reaches pool OneAgingThread (threadPoolInit roles idCount) config) (i : ι)
    (asleep : (config.threads i).sleepsOn Cond.pauseCond = true)
    (reason : ((config.point i).isWorker = true ∧ config.memory.paused = false) ∨
      ((config.point i).agingAlive = true ∧ (config.memory.paused = false ∨
        config.memory.shutdown = true ∨ config.memory.agingEnable = false))) :
    ∃ j, (config.point j).owesPause = true := by
  refine reachable_pauseAttended reaches ⟨i, ?_⟩
  rw [pauseStale]
  rcases pause_sleeper (reachable_waits reaches i) asleep with ⟨worker, waiting⟩ | ⟨alive, waiting⟩
  · rcases reason with ⟨_, resumed⟩ | ⟨alive, _⟩
    · simp [waiting, Pc.pauseOver, resumed]
    · simp [worker_not_aging worker] at alive
  · rcases reason with ⟨worker, _⟩ | ⟨_, ended⟩
    · simp [worker_not_aging worker] at alive
    · simpa [waiting, Pc.pauseOver, or_assoc] using ended

end Enabling

/-- The worker and the aging thread sleep through a pause that thread 2 has ended but not yet
broadcast. -/
theorem no_wakeup_lost_on_resume_bothAsleep : ∃ config : PoolConfig (Fin 4),
    Reaches pool OneAgingThread (threadPoolInit withSpare 0) config ∧
      config.memory.paused = false ∧
      ∀ i ∈ [0, 3], (config.threads i).sleepsOn Cond.pauseCond = true ∧
        ∃ j, (config.point j).owesPause = true := by
  obtain ⟨config, reaches, resumed, worker, workerAsleep, aging, agingAsleep⟩ :=
    Reaches.of_schedule pool OneAgingThread (threadPoolInit withSpare 0)
      (enableSteps 2 ++ [.pick 2 (some 3)] ++ pauseSteps 1 ++ [go 0, go 0, go 0] ++
        List.replicate 6 (go 3) ++ [.run 2 (.call .resume), go 2])
      (fun config => config.memory.paused = false ∧
        (config.point 0).isWorker = true ∧ (config.threads 0).sleepsOn Cond.pauseCond = true ∧
        (config.point 3).agingAlive = true ∧ (config.threads 3).sleepsOn Cond.pauseCond = true)
      (by decide)
  refine ⟨config, reaches, resumed, ?_⟩
  rw [List.forall_mem_cons, List.forall_mem_singleton]
  exact ⟨⟨workerAsleep, no_wakeup_lost_on_resume reaches 0 workerAsleep (.inl ⟨worker, resumed⟩)⟩,
    agingAsleep, no_wakeup_lost_on_resume reaches 3 agingAsleep (.inr ⟨aging, .inl resumed⟩)⟩

end ThreadPool.Pool
