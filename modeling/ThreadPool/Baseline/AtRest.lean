import Mathlib.Order.BooleanAlgebra.Basic
import ThreadPool.Baseline.Blocks
import ThreadPool.Baseline.Wakeups
import ThreadPool.Foundation.Potential

namespace ThreadPool.Baseline

open Foundation

/-! # The baseline pool at rest

Without further calls the baseline pool stops, and when it has stopped its work is done:
the queue is empty, every accepted task was executed, and every call has returned.
-/

instance : Inhabited Input := ⟨.none⟩

/-- A thread of the application between two calls. -/
def Pc.outside (pc : Pc) : Prop := ∃ last, pc = .client last

/-- The points at which a thread has no work of its own: it awaits the next call of the
application, or spins until the submit calls have left. -/
def Pc.resting : Pc → Bool
  | .client _ => true
  | .shutdown .spin => true
  | _ => false

/-- No mutex is acquired under another one. -/
theorem baseline_orderly {ι : Type} : Foundation.Orderly (baseline : Program ι Mutex Cond Memory Pc Input)
    Pc.holds (fun _ => false) Pc.resting where
  disciplined := baseline_disciplined
  lock {i pc mutex next} lock held holds := by
    cases pc <;> (try (rename_i pc; cases pc)) <;> cases lock <;> cases held <;> cases holds
  enter enter := absurd enter ((code_flat _).1 _ _)
  wait wait := by
    rcases code_wait wait with ⟨_, rfl, rfl, rfl⟩ | ⟨caller, _, rfl, rfl, rfl⟩ <;>
      refine ⟨fun held holds => ?_, rfl⟩ <;> cases held <;> first | rfl | cases holds
  join {i pc awaits next} join := by
    cases pc <;> (try (rename_i pc; cases pc)) <;> cases join
    rfl
  halt {i pc} halt := by
    cases pc <;> (try (rename_i pc; cases pc)) <;> first | rfl | cases halt
  rests {i pc} resting := by
    cases pc with
    | client last => exact ⟨rfl, rfl⟩
    | shutdown pc => cases pc <;> first | exact ⟨rfl, rfl⟩ | cases resting
    | _ => cases resting

/-- Only a refused call and the spinning shutdown come back to the point they left. -/
theorem Steps.loop_rests {memory after : Memory} {pc next : Pc} (steps : Steps memory pc after next)
    (same : next = pc) : pc.resting = true ∧ after = memory := by
  cases steps <;> first | exact ⟨rfl, rfl⟩ | cases same

section Resting

variable {ι : Type} [DecidableEq ι] [Fintype ι] {config after : BaselineConfig ι} {label : Label ι Input}
  {i : ι} {roles : ι → Role} {allowed : BaselineConfig ι → Label ι Input → Prop}

/-- Nothing changes any more, unless the application makes another call or a thread wakes
without a signal. -/
def Quiet (config : BaselineConfig ι) : Prop := Foundation.Quiet baseline Pc.outside config

omit [Fintype ι] in
theorem loops_rest (moves : Moves baseline config label after) (own : label.own = true)
    (same : after = config) : (config.point label.thread).resting = true := by
  obtain ⟨pc, ready, sync | ⟨input, body⟩ | ⟨start, next, target, fork, _⟩⟩ := moves.unchanged own same
  · rw [point_ready ready]
    have steps : Steps config.memory pc config.memory pc := code_sync sync
    exact (steps.loop_rests rfl).1
  · rw [point_ready ready]
    exact ((code_access body).loop_rests rfl).1
  · exact absurd fork ((code_flat _).2 _ _)

theorem Quiet.settled (quiet : Quiet config) : Settled baseline Pc.resting config := by
  refine Foundation.Quiet.settled quiet ?_ loops_rest
  rintro pc ⟨last, rfl⟩
  rfl

/-- The ways in which a thread rests. -/
inductive BaselineRests (config : BaselineConfig ι) (i : ι) : Prop
  | idle : config.threads i = .asleep .qCond .qMutex (.worker .popTest) → BaselineRests config i
  | waits (caller) : config.threads i = .asleep .drainCond .drainMutex (.drain caller .test) →
      BaselineRests config i
  | joins (worker) : config.threads i = .ready (.shutdown .join) →
      (config.point worker).liveWorker = true → BaselineRests config i
  | exited : config.threads i = .ready (.worker .exited) → BaselineRests config i
  | freed : config.threads i = .ready (.shutdown .freed) → BaselineRests config i
  | outside (last) : config.threads i = .ready (.client last) → BaselineRests config i
  | spins : config.threads i = .ready (.shutdown .spin) → BaselineRests config i

omit [DecidableEq ι] [Fintype ι] in
theorem rests_baseline (waits : (config.threads i).Waits baseline i)
    (rests : Rests baseline Pc.resting config i) : BaselineRests config i := by
  cases rests with
  | asleep sleeper =>
      rw [sleeper] at waits
      obtain ⟨before, wait⟩ := waits
      rcases code_wait wait with ⟨rfl, rfl, _, rfl⟩ | ⟨caller, rfl, rfl, _, rfl⟩
      · exact .idle sleeper
      · exact .waits caller sleeper
  | @joining pc awaits next j ready join awaited =>
      cases pc <;> (try (rename_i pc; cases pc)) <;> cases join
      exact .joins j ready awaited
  | @halted pc ready halt =>
      cases pc <;> (try (rename_i pc; cases pc)) <;> cases halt
      · exact .exited ready
      · exact .freed ready
  | @idle pc ready resting =>
      cases pc with
      | client last => exact .outside last ready
      | shutdown pc =>
          cases pc <;> cases resting
          exact .spins ready
      | _ => cases resting

theorem Quiet.rests (quiet : Quiet config)
    (reaches : Reaches baseline allowed (baselinePoolInit roles) config) (i : ι) :
    BaselineRests config i :=
  rests_baseline (reachable_waits reaches i)
    (quiet.settled.at_rest baseline_orderly (reachable_owned reaches) (reachable_waits reaches)
      (reachable_defined reaches) i)

omit [DecidableEq ι] [Fintype ι] in
/-- A thread at rest holds no task, is in no submit call and owes nobody a wake-up. -/
theorem BaselineRests.idle_hands (rests : BaselineRests config i) :
    (config.point i).share = 0 ∧ (config.point i).counted = 0 ∧ (config.point i).inFlight = 0 ∧
      (config.point i).owesDrain = false ∧ (config.point i).owesExit = false ∧
      wakes (config.threads i) = 0 := by
  cases rests with
  | idle status | waits _ status | joins _ status | exited status | freed status | outside _ status
  | spins status =>
      rw [Config.point, status]
      refine ⟨?_, rfl, rfl, rfl, rfl, rfl⟩
      funext account
      cases account <;> rfl

theorem Quiet.not_spinning (quiet : Quiet config)
    (reaches : Reaches baseline allowed (baselinePoolInit roles) config) (i : ι) :
    config.threads i ≠ .ready (.shutdown .spin) := by
  intro ready
  have rests := quiet.rests reaches
  have none : submitsInFlight config = 0 :=
    Finset.sum_eq_zero fun j _ => (rests j).idle_hands.2.2.1
  have zero : config.memory.inFlightSubmits = 0 := by
    rw [reachable_inFlight reaches, none]
    rfl
  have moves : Moves baseline config (.run i .none) (config.set i (.ready (.drain .shutdown .lock))) := by
    refine .read (.here ready) rfl ?_
    simp [zero]
  rcases quiet _ _ rfl moves.step with ⟨last, outside⟩ | same
  · rw [show config.point (Label.run i Input.none).thread = .shutdown .spin from point_ready ready]
      at outside
    cases outside
  · have stays := congrArg (fun config => config.threads i) same
    rw [Config.set_threads_self, ready] at stays
    cases stays

/-- What a thread of a pool at rest does: a worker sleeps in a pool that goes on, or has exited;
`baseline_pool_shutdown` has returned; every other thread is outside the pool. -/
inductive Done (config : BaselineConfig ι) (i : ι) : Prop
  | idle : config.threads i = .asleep .qCond .qMutex (.worker .popTest) →
      config.memory.shutdown = false → Done config i
  | exited : config.threads i = .ready (.worker .exited) → Done config i
  | freed : config.threads i = .ready (.shutdown .freed) → Done config i
  | outside (last) : config.threads i = .ready (.client last) → Done config i

section Finished

variable (quiet : Quiet config) (reaches : Reaches baseline Orderly (baselinePoolInit roles) config)
include quiet reaches

/-- A worker sleeps on `q_cond` only in a pool that goes on. -/
theorem Quiet.idle_running (asleep : (config.threads i).sleepsOn Cond.qCond = true) :
    config.memory.shutdown = false := by
  refine Bool.eq_false_of_not_eq_true fun stopped => ?_
  obtain ⟨k, owed⟩ := reachable_exitAttended reaches ⟨i, dozes_of_sleepsOn asleep, stopped⟩
  rw [(quiet.rests reaches k).idle_hands.2.2.2.2.1] at owed
  cases owed

/-- The queue is empty: a signal to a sleeping worker would be on its way, and the last worker
has left it so. -/
theorem Quiet.queue_empty (worker : ι) (isWorker : roles worker = .worker) :
    config.memory.tasks = [] := by
  have rests := quiet.rests reaches
  by_cases asleep : ∃ i, (config.threads i).sleepsOn Cond.qCond = true
  · have covered := reachable_covered reaches asleep
    have calm : config.census wakes = 0 := Finset.sum_eq_zero fun i _ => (rests i).idle_hands.2.2.2.2.2
    rw [calm] at covered
    exact List.eq_nil_of_length_eq_zero (Nat.le_zero.mp covered)
  · obtain ⟨tasks, sound⟩ := reachable_sound reaches
    have empty := (reachable_abandoned isWorker reaches fun i => ?_).empty
    · exact sound.tasks_eq.trans
        (List.head?_eq_none_iff.mp (sound.represents.head_eq.symm.trans empty))
    cases rests i with
    | idle sleeper => exact absurd ⟨i, by rw [sleeper]; rfl⟩ asleep
    | waits _ status | joins _ status | exited status | freed status | outside _ status
    | spins status =>
        rw [Config.point, status]
        rfl

theorem Quiet.no_shares : config.total Pc.share = 0 :=
  Finset.sum_eq_zero fun i _ => (quiet.rests reaches i).idle_hands.1

theorem Quiet.no_tasks (worker : ι) (isWorker : roles worker = .worker) : tasksInSystem config = 0 := by
  have rests := quiet.rests reaches
  obtain ⟨tasks, sound⟩ := reachable_sound reaches
  have empty := sound.tasks_eq.symm.trans (quiet.queue_empty reaches worker isWorker)
  have counted : config.total Pc.counted = 0 := Finset.sum_eq_zero fun i _ => (rests i).idle_hands.2.1
  rw [tasksInSystem, waiting_eq sound, empty, quiet.no_shares reaches, counted]
  rfl

/-- Nobody waits for the tasks any more. -/
theorem Quiet.none_draining (worker : ι) (isWorker : roles worker = .worker) :
    (config.threads i).sleepsOn Cond.drainCond = false := by
  refine Bool.eq_false_of_not_eq_true fun asleep => ?_
  have total : config.memory.totalTaskInSystem = 0 := by
    rw [reachable_total reaches, quiet.no_tasks reaches worker isWorker]
    rfl
  obtain ⟨k, owed⟩ := reachable_drainAttended (reaches.mono fun orderly => orderly.1.1)
    ⟨i, dozes_of_sleepsOn asleep, decide_eq_true total⟩
  rw [(quiet.rests reaches k).idle_hands.2.2.2.1] at owed
  cases owed

/-- No thread is left for `baseline_pool_shutdown` to wait for. -/
theorem Quiet.none_alive (here : config.point i = .shutdown .join) (j : ι) :
    (config.point j).liveWorker = false := by
  have stopped : config.memory.shutdown = true :=
    (reachable_quiescing reaches).flagged i (by rw [here]; decide)
  cases quiet.rests reaches j with
  | idle sleeper =>
      rw [quiet.idle_running reaches (i := j) (by rw [sleeper]; rfl)] at stopped
      cases stopped
  | waits _ status | joins _ status | exited status | freed status | outside _ status
  | spins status =>
      rw [Config.point, status]
      rfl

/-- A baseline pool that has come to rest has done its work: the queue is empty, every accepted
task was executed once, no thread waits for the drain, and a shutdown has returned. -/
theorem baseline_rests_when_done (worker : ι) (isWorker : roles worker = .worker) :
    config.memory.tasks = [] ∧
      (config.memory.journal.completed : Multiset Addr) = config.memory.journal.accepted ∧
      ∀ i, Done config i := by
  have empty := quiet.queue_empty reaches worker isWorker
  refine ⟨empty, ?_, fun i => ?_⟩
  · obtain ⟨tasks, sound⟩ := reachable_sound reaches
    obtain rfl : tasks = [] := sound.tasks_eq.symm.trans empty
    rw [quiet.no_shares reaches] at sound
    have called : (config.memory.journal.called : Multiset Addr) = config.memory.journal.completed := by
      simpa [Memory.custody] using sound.balanced.called
    have accepted : (config.memory.journal.accepted : Multiset Addr) = config.memory.journal.called := by
      simpa [Memory.custody] using sound.balanced.accepted
    exact (accepted.trans called).symm
  · cases quiet.rests reaches i with
    | idle sleeper => exact .idle sleeper (quiet.idle_running reaches (i := i) (by rw [sleeper]; rfl))
    | waits caller sleeper =>
        have awake := quiet.none_draining reaches (i := i) worker isWorker
        rw [sleeper] at awake
        cases awake
    | joins other ready alive =>
        rw [quiet.none_alive reaches (point_ready ready) other] at alive
        cases alive
    | exited ready => exact .exited ready
    | freed ready => exact .freed ready
    | outside last ready => exact .outside last ready
    | spins ready => exact absurd ready (quiet.not_spinning reaches i)

end Finished

end Resting

/-- The worker has run the only task and sleeps. -/
theorem baseline_rests_when_done_oneTask : ∃ config : BaselineConfig (Fin 3),
    Reaches baseline Orderly (baselinePoolInit oneWorker) config ∧ Quiet config ∧
      config.memory.journal.accepted = [0] ∧
      (config.memory.journal.completed : Multiset Addr) = config.memory.journal.accepted := by
  obtain ⟨config, reaches, accepted, sleeper, first, second⟩ :=
    Reaches.of_schedule baseline Orderly (baselinePoolInit oneWorker)
    (checkSteps 1 ++ pushSteps 1 ++ List.replicate 14 (go 0))
    (fun config => config.memory.journal.accepted = [0] ∧
      config.threads 0 = .asleep .qCond .qMutex (.worker .popTest) ∧
      config.point 1 = .client (some 0) ∧ config.point 2 = .client none) (by decide +kernel)
  have quiet : Quiet config := by
    intro label after own stepped
    have awake : label.thread ≠ 0 := by
      intro here
      cases label with
      | run i input =>
          obtain rfl : i = 0 := here
          simp [Program.step, sleeper] at stepped
      | pick i target =>
          obtain rfl : i = 0 := here
          simp [Program.step, sleeper] at stepped
      | wake => cases own
    have others : label.thread = 1 ∨ label.thread = 2 := by omega
    rcases others with here | here <;> rw [here]
    · exact .inl ⟨_, first⟩
    · exact .inl ⟨_, second⟩
  exact ⟨config, reaches, quiet, accepted, (baseline_rests_when_done quiet reaches 0 rfl).2.1⟩

/-- The steps for a task in a pool of `n` threads, from its removal to the next look at the
queue, with those of the threads that wait for it. -/
def taskWeight (n : Nat) : Nat := 10 + 4 * n

def SubmitPc.weight (n : Nat) : SubmitPc → Nat
  | .checkShutdown _ => 12 + taskWeight n
  | .announce _ => 11 + taskWeight n
  | .create _ => 10 + taskWeight n
  | .count _ => 9 + taskWeight n
  | .lockQueue _ => 8 + taskWeight n
  | .push _ => 7 + taskWeight n
  | .unlockQueue _ => 6
  | .signal _ => 5
  | .leave _ => 1
  | .retire => 1

def WorkerPc.weight (n : Nat) : WorkerPc → Nat
  | .unlockPopped _ => 12 + 4 * n
  | .call _ => 11 + 4 * n
  | .running _ => 10 + 4 * n
  | .free _ => 9 + 4 * n
  | .decrement => 8 + 4 * n
  | .drainLock => 7 + 4 * n
  | .drainBroadcast => 6 + 4 * n
  | .drainUnlock => 5
  | .popLock => 4
  | .popTest => 3
  | .popShutdown => 2
  | .popWait => 1
  | .unlockNull => 1
  | .exited => 0

def DrainPc.weight : DrainPc → Nat
  | .lock => 5
  | .test => 4
  | .unlock => 3
  | .wait => 1

def ShutdownPc.weight (n : Nat) : ShutdownPc → Nat
  | .store => 10 + 4 * n
  | .wakeLock => 9 + 4 * n
  | .wakeBroadcast => 8 + 4 * n
  | .wakeUnlock => 7
  | .spin => 6
  | .join => 2
  | .free => 1
  | .freed => 0

/-- The steps that may follow a program point, with those of the threads that it wakes. -/
def Pc.weight (n : Nat) : Pc → Nat
  | .client _ => 0
  | .submit pc => pc.weight n
  | .worker pc => pc.weight n
  | .drain _ pc => pc.weight
  | .shutdown pc => pc.weight n

/-- The weight of a thread that is woken. -/
def Cond.wakeup : Cond → Nat
  | .qCond => 3
  | .drainCond => 4

/-- The weight of the queue. -/
def Memory.weight (n : Nat) (memory : Memory) : Nat := taskWeight n * memory.tasks.length

section Weights

variable {ι : Type} {memory after : Memory} {pc next : Pc} {n : Nat}

attribute [local simp] Pc.weight SubmitPc.weight WorkerPc.weight DrainPc.weight ShutdownPc.weight
  Cond.wakeup

theorem sync_weight (sync : (code pc : BaselineInstr ι).sync = some next)
    (awake : ∀ cond mutex, (code pc : BaselineInstr ι) ≠ .wait cond mutex next) :
    next.weight n < pc.weight n := by
  cases pc with
  | worker pc =>
      cases pc <;> cases sync <;> first | exact absurd rfl (awake _ _) | (simp; try omega)
  | drain caller pc =>
      cases pc <;> cases sync <;> first | exact absurd rfl (awake _ _) | (cases caller <;> simp)
  | submit pc | shutdown pc => cases pc <;> cases sync <;> simp <;> omega
  | client => cases sync

theorem access_weight {tasks : List Addr} {rest : Account → Multiset Addr} {input : Input}
    (body : (code pc : BaselineInstr ι).body memory input = some (after, next)) (sound : Sound memory tasks (pc.share + rest))
    (inside : ∀ last, pc ≠ .client last) (moves : next ≠ pc) :
    next.weight n + after.weight n < pc.weight n + memory.weight n := by
  have steps := code_access body
  rw [Memory.weight, Memory.weight]
  rcases steps_length steps sound with ⟨task, rfl, rfl, longer⟩ | ⟨task, rfl, rfl, shorter⟩ | ⟨same, empty⟩
  · rw [longer, Nat.mul_succ]
    simp
    omega
  · rw [← shorter, Nat.mul_succ]
    simp [taskWeight]
    omega
  · rw [same]
    refine Nat.add_lt_add_right ?_ _
    cases steps with
    | invalid last | callSubmit last | callWait last | callShutdown last => exact absurd rfl (inside last)
    | spin => exact absurd rfl moves
    | pop => cases (empty rfl).1
    | popWait | waiterSleep => cases body
    | _ => simp <;> omega

theorem baseline_costs [Fintype ι] : Costs (baseline : Program ι Mutex Cond Memory Pc Input)
    (Pc.weight (Fintype.card ι)) Cond.wakeup (Memory.weight (Fintype.card ι)) where
  sync sync awake := sync_weight sync awake
  sleep wait := by
    rcases code_wait wait with ⟨rfl, rfl, rfl, rfl⟩ | ⟨caller, rfl, rfl, rfl, rfl⟩ <;> simp
  signal {i pc cond next} signal := by
    cases pc <;> (try (rename_i pc; cases pc)) <;> cases signal
    simp
  broadcast {i pc cond next} broadcast := by
    cases pc <;> (try (rename_i pc; cases pc)) <;> cases broadcast <;> simp <;> omega
  fork fork := absurd fork ((code_flat _).2 _ _)

end Weights

section Runs

variable {ι : Type} [DecidableEq ι] [Fintype ι] {allowed : BaselineConfig ι → Label ι Input → Prop}
  {roles : ι → Role} {n : Nat} {start config after : BaselineConfig ι} {label : Label ι Input}

/-- A step that changes something and is neither a call of the application nor a wake-up
without a signal. -/
def LeftAlone (config : BaselineConfig ι) (label : Label ι Input) : Prop :=
  Foundation.LeftAlone baseline Pc.outside config label

/-- What the threads of the pool can still do without further calls. -/
def work (config : BaselineConfig ι) : Nat :=
  config.potential (Pc.weight (Fintype.card ι)) (Memory.weight (Fintype.card ι))

theorem moves_work (reaches : Reaches baseline allowed (baselinePoolInit roles) config)
    (alone : LeftAlone config label) (moves : Moves baseline config label after) :
    work after < work config := by
  have waits := reachable_waits reaches
  obtain ⟨tasks, sound⟩ := reachable_sound reaches
  refine moves.spends baseline_costs waits alone.own ?_
  intro i pc middle input written next here arrives body
  subst here
  have point := (arrives.flat baseline_flat).symm
  have split : config.total Pc.share = pc.share + others Pc.share config.point i := by
    rw [point]
    exact sum_split Pc.share config.point i
  rw [split] at sound
  refine access_weight body sound ?_ ?_
  · rintro last rfl
    obtain ⟨ready, _⟩ := arrives.resting baseline_orderly (waits i) rfl
    exact alone.inside ⟨last, point_ready ready⟩
  · rintro rfl
    obtain ⟨resting, rfl⟩ := (code_access body).loop_rests rfl
    exact alone.changes (arrives.loops baseline_orderly (waits i) resting body)

/-- Left alone, a baseline pool takes no more steps than its `work`, whatever the order of the
threads, and every run can be continued until nothing changes any more. -/
theorem baseline_left_alone_stops (reaches : Reaches baseline allowed (baselinePoolInit roles) start)
    (takes : Takes baseline LeftAlone start n config) :
    n + work config ≤ work start ∧ ∃ rest, Reaches baseline LeftAlone config rest ∧ Quiet rest :=
  takes.stops work fun goes alone moves => moves_work (reaches.extend goes) alone moves

/-- Two submitted tasks are work for the worker. -/
theorem baseline_left_alone_stops_twoTasks : ∃ start rest : BaselineConfig (Fin 3),
    Reaches baseline (fun _ _ => True) (baselinePoolInit oneWorker) start ∧ work start = 48 ∧
      Reaches baseline LeftAlone start rest ∧ Quiet rest := by
  obtain ⟨start, reaches, weighs⟩ := Reaches.of_schedule baseline (fun _ _ => True)
    (baselinePoolInit oneWorker) (checkSteps 1 ++ pushSteps 1 ++ checkSteps 2 ++ pushSteps 2)
    (fun config => work config = 48) (by decide +kernel)
  obtain ⟨_, rest, goes, quiet⟩ := baseline_left_alone_stops reaches .none
  exact ⟨start, rest, reaches, weighs, goes, quiet⟩

end Runs

end ThreadPool.Baseline
