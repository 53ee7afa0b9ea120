import ThreadPool.Monitor.Refinement
import ThreadPool.Pool.Freeing
import ThreadPool.Pool.NotEmpty
import ThreadPool.Pool.Shutdown

namespace ThreadPool.Pool

open Foundation

/-! # Shutdown and the pause key

`thread_pool_destroy` clears `paused` before it wakes the workers, but stops the monitor
only behind its drain loop, and the pause loop of a worker does not look at `shutdown`. A
key press in between pauses workers that nobody resumes.
-/

/-- A call of `thread_pool_destroy` behind its store to `paused`. -/
def Pc.unpaused : Pc → Bool
  | .destroy .storePaused => false
  | .destroy .spin => true
  | pc => decide (2 ≤ pc.destroyStage)

/-- A call of `thread_pool_destroy` behind its broadcast of `pause_cond`. -/
def Pc.wokePaused : Pc → Bool
  | .destroy .spin => false
  | .wakeAll .destroy _ => false
  | .wakePause .destroy .lock => false
  | .wakePause .destroy .broadcast => false
  | pc => pc.unpaused

/-- A pause takes effect before a destroy call has cleared the flag, or when all workers
have exited. -/
def PausesInTime {ι : Type} (points : ι → Pc) (i : ι) : Prop :=
  points i = .pause → (∀ j, (points j).unpaused = false) ∨ ∀ j, (points j).liveWorker = false

section Transitions

variable {ι : Type} [DecidableEq ι] {me : ι} {memory after : Memory ι} {pc next : Pc}

theorem unpaused_of_wokePaused (woke : pc.wokePaused = true) : pc.unpaused = true := by
  unfold Pc.wokePaused at woke
  split at woke <;> first | cases woke | exact woke

theorem syncs_unpaused (syncs : Syncs pc next) : next.unpaused = pc.unpaused := by
  have stage := syncs_stage syncs
  cases syncs <;> first | rfl | (simp only [Pc.unpaused]; rw [stage])

omit [DecidableEq ι] in
theorem reads_unpaused (reads : Reads memory pc next) (unpaused : next.unpaused = true) :
    pc.unpaused = true := by
  cases reads with
  | call last next entry => cases entry <;> cases unpaused
  | drained caller | undrained caller | enabled caller => cases caller <;> first | rfl | cases unpaused
  | _ => first | rfl | cases unpaused

theorem writes_unpaused (writes : Writes me memory pc after next) (unpaused : next.unpaused = true) :
    pc.unpaused = true ∨ after.paused = false := by
  cases writes with
  | storePaused => exact .inr rfl
  | disableStore caller => cases caller <;> first | exact .inl rfl | cases unpaused
  | destroyQueue | free => exact .inl rfl
  | _ => cases unpaused

theorem writes_paused (writes : Writes me memory pc after next) (paused : after.paused = true) :
    memory.paused = true ∨ pc = .pause := by
  cases writes with
  | pause => exact .inr rfl
  | resume | storePaused => cases paused
  | _ => exact .inl paused

theorem behind_pause (behind : Behind pc .pause) : pc = .pause := by
  rcases behind with here | syncs
  · exact here
  · cases syncs

theorem goes_unpaused (goes : Goes me memory pc after next) (unpaused : next.unpaused = true) :
    pc.unpaused = true ∨ after.paused = false := by
  cases goes with
  | sync syncs =>
      rw [syncs_unpaused syncs] at unpaused
      exact .inl unpaused
  | read behind reads =>
      rw [← behind.same syncs_unpaused]
      exact .inl (reads_unpaused reads unpaused)
  | write behind writes =>
      rw [← behind.same syncs_unpaused]
      exact writes_unpaused writes unpaused
  | create | createFails | created => cases unpaused

theorem liveWorker_of_wait {worker : WorkerPc} {cond : Cond} {mutex : Mutex}
    (wait : code me pc = .wait cond mutex (.worker worker)) : (Pc.worker worker).liveWorker = true := by
  obtain ⟨held, same⟩ := wait_holds wait
  rw [← same] at held
  cases worker <;> first | rfl | cases held

end Transitions

section Reachable

variable {ι : Type} [DecidableEq ι] [Fintype ι] {config after : PoolConfig ι} {label : Label ι Input}
  {roles : ι → Role} {idCount : Nat}

def PauseBeforeDestroy (config : PoolConfig ι) : Label ι Input → Prop
  | .run i _ => PausesInTime config.point i
  | _ => True

/-- Once a destroy call has cleared the flag, it is set only when no worker is left. -/
def StaysUnpaused (config : PoolConfig ι) : Prop :=
  ∀ j, (config.point j).unpaused = true → config.memory.paused = true →
    ∀ i, (config.point i).liveWorker = false

theorem moves_paused (moves : Moves pool config label after) (paused : after.memory.paused = true) :
    config.memory.paused = true ∨ ∃ k input, label = .run k input ∧ config.point k = .pause := by
  cases moves_step moves with
  | still memory | sync _ memory | read _ _ _ memory | createFails _ memory =>
      rw [memory] at paused
      exact .inl paused
  | create _ _ _ memory =>
      rw [memory] at paused
      exact .inl paused
  | write arrives writes =>
      rcases writes_paused writes paused with before | pausing
      · exact .inl before
      · subst pausing
        exact .inr ⟨_, _, rfl, behind_pause (arrives_behind arrives)⟩

theorem staysUnpaused_step (moves : Moves pool config label after) (stays : StaysUnpaused config)
    (allowed : PauseBeforeDestroy config label) : StaysUnpaused after := by
  intro j unpaused paused i
  have before : (config.point j).unpaused = true := by
    rcases moves_goes moves j with same | goes
    · rwa [← same]
    · rcases goes_unpaused goes unpaused with before | clear
      · exact before
      · simp [clear] at paused
  rcases moves_paused moves paused with already | ⟨k, input, rfl, pausing⟩
  · exact moves_left moves (stays j before already) i
  · rcases allowed pausing with early | left
    · simp [early j] at before
    · exact moves_left moves left i

theorem reachable_staysUnpaused
    (reaches : Reaches pool PauseBeforeDestroy (threadPoolInit roles idCount) config) :
    StaysUnpaused config := by
  refine reaches.invariant StaysUnpaused ?_ fun _ stays allowed moves =>
    staysUnpaused_step moves stays allowed
  intro j unpaused paused
  cases paused

end Reachable

end ThreadPool.Pool

namespace ThreadPool.Monitor

open Foundation Pool

/-- The pause of the monitor or of an application thread takes effect in time. -/
def PauseBeforeDestroy {ι : Type} (config : MonitoredConfig ι) : Label ι (MonitorInput ι) → Prop
  | .run i _ => PausesInTime (fun j => (config.point j).pc) i
  | _ => True

variable {ι : Type} [DecidableEq ι] [Fintype ι] {roles : ι → MonitoredRole} {idCount : Nat}
  {config : MonitoredConfig ι}

/-- Behind the broadcast of a destroy call no worker sleeps through a pause. -/
theorem shutdown_overrides_pause
    (reaches : Reaches monitored PauseBeforeDestroy (monitoredInit roles idCount) config) {j : ι}
    (destroys : (config.point j).pc.wokePaused = true) :
    ¬ ∃ i pc, config.point i = .pool (.worker pc) ∧ (config.threads i).sleepsOn .pauseCond = true ∧
      config.memory.pool.paused = true := by
  rintro ⟨i, pc, worker, sleeps, paused⟩
  have run : Reaches pool Pool.PauseBeforeDestroy (threadPoolInit (fun i => (roles i).role) idCount)
      (poolView config) := by
    refine reachable_pool reaches fun {config label choice} allowed agrees => ?_
    cases label <;> cases choice <;> cases agrees <;> try trivial
    change PausesInTime (poolView config).point _
    rw [poolView_point]
    exact allowed
  have unpaused : ((poolView config).point j).unpaused = true := by
    rw [poolView_point]
    exact unpaused_of_wokePaused destroys
  have left := reachable_staysUnpaused run j unpaused paused i
  -- a sleeper has executed a wait, so it has not exited
  have live : ((poolView config).point i).liveWorker = true := by
    have waits := reachable_waits run i
    obtain ⟨mutex, asleep⟩ := sleepsOn_asleep sleeps
    change config.threads i = .asleep .pauseCond mutex (config.point i) at asleep
    rw [worker] at asleep
    have viewed : (poolView config).threads i = .asleep .pauseCond mutex (.worker pc) := map_asleep asleep
    rw [viewed] at waits
    obtain ⟨before, code⟩ := waits
    rw [Config.point, viewed]
    exact liveWorker_of_wait code
  simp [live] at left

def monitorGo {ι : Type} (i : ι) : Label ι (MonitorInput ι) := .run i (.pool .none)

/-- Thread 0 is a worker, thread 1 an application thread, thread 2 can become the monitor. -/
def withMonitor (i : Fin 3) : MonitoredRole :=
  if i.val = 0 then .pool .worker else if i.val = 1 then .pool .client else .monitor

/-- Thread `i` starts the monitor, which comes to its first key. -/
def startSteps {ι : Type} (i monitor : ι) : List (Label ι (MonitorInput ι)) :=
  [.run i (.control .start), monitorGo i, monitorGo i, .run i (.thread (some monitor)), monitorGo i,
    monitorGo i] ++ List.replicate 4 (monitorGo monitor)

/-- The monitor sees the key and sets the flag. -/
def pauseKey {ι : Type} (monitor : ι) : List (Label ι (MonitorInput ι)) :=
  [.run monitor (.key .pause), monitorGo monitor, monitorGo monitor]

/-- Thread `i` destroys the pool, up to the point behind `thread_pool_wake_pause`. -/
def destroySteps {ι : Type} (i : ι) : List (Label ι (MonitorInput ι)) :=
  .run i (.pool (.call .destroy)) :: List.replicate 9 (monitorGo i)

instance {ι : Type} [Fintype ι] (points : ι → Pc) (i : ι) : Decidable (PausesInTime points i) :=
  inferInstanceAs (Decidable (_ → _))

instance {config : MonitoredConfig ι} : ∀ label, Decidable (PauseBeforeDestroy config label)
  | .run i _ => inferInstanceAs (Decidable (PausesInTime (fun j => (config.point j).pc) i))
  | .pick _ _ => isTrue trivial
  | .wake _ => isTrue trivial

/-- The worker sleeps through a pause until the pool is destroyed. -/
theorem shutdown_overrides_pause_early : ∃ config : MonitoredConfig (Fin 3),
    Reaches monitored PauseBeforeDestroy (monitoredInit withMonitor 0) config ∧
      (config.point 1).pc.wokePaused = true ∧
      ¬ ∃ i pc, config.point i = .pool (.worker pc) ∧ (config.threads i).sleepsOn .pauseCond = true ∧
        config.memory.pool.paused = true := by
  obtain ⟨config, reaches, destroys⟩ := Reaches.of_schedule monitored PauseBeforeDestroy
    (monitoredInit withMonitor 0)
    (startSteps 1 2 ++ pauseKey 2 ++ List.replicate 3 (monitorGo 0) ++
      List.replicate 3 (monitorGo 2) ++ destroySteps 1)
    (fun config => (config.point 1).pc.wokePaused = true) (by decide)
  exact ⟨config, reaches, destroys, shutdown_overrides_pause reaches destroys⟩

/-- The key comes behind the broadcast: the worker sleeps, and nobody will resume it. -/
theorem late_key_pauses_worker : ∃ config : MonitoredConfig (Fin 3),
    Reaches monitored (fun _ _ => True) (monitoredInit withMonitor 0) config ∧
      (config.point 1).pc.wokePaused = true ∧ config.point 0 = .pool (.worker .pauseTest) ∧
      (config.threads 0).sleepsOn .pauseCond = true ∧ config.memory.pool.paused = true :=
  Reaches.of_schedule monitored (fun _ _ => True) (monitoredInit withMonitor 0)
    (startSteps 1 2 ++ destroySteps 1 ++ pauseKey 2 ++ List.replicate 3 (monitorGo 0))
    (fun config => (config.point 1).pc.wokePaused = true ∧ config.point 0 = .pool (.worker .pauseTest) ∧
      (config.threads 0).sleepsOn .pauseCond = true ∧ config.memory.pool.paused = true) (by decide)

end ThreadPool.Monitor
