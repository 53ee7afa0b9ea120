import ThreadPool.Baseline.Fifo
import ThreadPool.Foundation.Signals
import ThreadPool.Foundation.Wakeups

namespace ThreadPool.Baseline

open Foundation

/-! # Wake-ups of the baseline pool

The last worker broadcasts `drain_cond`, and `baseline_pool_shutdown` broadcasts `q_cond`,
both under the mutex under which the sleepers test their condition. So every waiter is
woken, however many there are; the main pool signals one waiter only. Submit calls signal
`q_cond` behind their critical section.
-/

/-- The mutex under which a condition is tested. -/
def Cond.mutex : Cond → Mutex
  | .qCond => .qMutex
  | .drainCond => .drainMutex

/-- A thread that sleeps on a condition variable, or is about to. -/
def dozes (cond : Cond) : Status Mutex Cond Pc → Bool
  | .asleep other _ _ => decide (other = cond)
  | .ready (.drain _ .wait) => decide (cond = .drainCond)
  | .ready (.worker .popWait) => decide (cond = .qCond)
  | _ => false

/-- A thread that dozes although the memory says that it should not. -/
def stale (cond : Cond) (late : Memory → Bool) (status : Status Mutex Cond Pc) (memory : Memory) : Prop :=
  dozes cond status = true ∧ late memory = true

/-- `total_task_in_system` is zero. -/
def Memory.drained (memory : Memory) : Bool := decide (memory.totalTaskInSystem = 0)

/-- A worker that is to wake the waiters. -/
def Pc.owesDrain : Pc → Bool
  | .worker .drainLock => true
  | .worker .drainBroadcast => true
  | _ => false

/-- A call of `baseline_pool_shutdown` that is to wake the workers. -/
def Pc.owesExit : Pc → Bool
  | .shutdown .wakeLock => true
  | .shutdown .wakeBroadcast => true
  | _ => false

/-- The wake-ups of `q_cond` that a thread accounts for. -/
def wakes : Status Mutex Cond Pc → Nat
  | .ready (.submit (.unlockQueue _)) => 1
  | .ready (.submit (.signal _)) => 1
  | .woken .qMutex _ => 1
  | _ => 0

section Protocols

variable {ι : Type} {memory after : Memory} {pc next : Pc} {input : Input} {cond : Cond} {mutex : Mutex}
  {late : Memory → Bool} {owes : Pc → Bool}

theorem sync_awake (sync : (code pc : BaselineInstr ι).sync = some next) (cond : Cond) :
    dozes cond (.ready next) = false := by
  cases pc with
  | client => cases sync
  | drain caller pc => cases pc <;> cases sync <;> first | rfl | (cases caller <;> rfl)
  | submit pc | worker pc | shutdown pc => cases pc <;> cases sync <;> rfl

theorem act_awake {run : Memory → Input → Option (Memory × Pc)}
    (act : (code pc : BaselineInstr ι) = .act run) (result : run memory input = some (after, next))
    (cond : Cond) : dozes cond (.ready next) = false := by
  cases code_access (act_body act result) <;> first | rfl | cases act

/-- Which sleeps there are. -/
theorem code_wait (wait : (code pc : BaselineInstr ι) = .wait cond mutex next) :
    (cond = .qCond ∧ mutex = .qMutex ∧ pc = .worker .popWait ∧ next = .worker .popTest) ∨
      ∃ caller, cond = .drainCond ∧ mutex = .drainMutex ∧ pc = .drain caller .wait ∧
        next = .drain caller .test := by
  cases pc with
  | worker pc =>
      cases pc <;> cases wait
      exact .inl ⟨rfl, rfl, rfl, rfl⟩
  | drain caller pc =>
      cases pc <;> cases wait
      exact .inr ⟨caller, rfl, rfl, rfl, rfl⟩
  | submit pc | shutdown pc => cases pc <;> cases wait
  | client => cases wait

theorem broadcast_holds (broadcast : (code pc : BaselineInstr ι) = .broadcast cond next) :
    pc.holds cond.mutex = true := by
  cases pc with
  | worker pc | submit pc | shutdown pc | drain _ pc => cases pc <;> cases broadcast <;> rfl
  | client => cases broadcast

theorem dozes_holds (dozing : dozes cond (.ready pc) = true) : pc.holds cond.mutex = true := by
  cases pc with
  | worker pc | drain _ pc => cases pc <;> cases cond <;> first | rfl | cases dozing
  | _ => cases dozing

/-- The protocol of a broadcast under the mutex of its sleepers. -/
theorem wake_protocol {locking broadcasting last : Pc}
    (owing : ∀ {pc}, owes pc = true ↔ pc = locking ∨ pc = broadcasting)
    (locks : (code locking : BaselineInstr ι) = .lock mutex broadcasting)
    (broadcasts : (code broadcasting : BaselineInstr ι) = .broadcast cond last)
    (tested : ∀ {memory pc after next}, Steps memory pc after next → dozes cond (.ready next) = true →
      late memory = false) :
    WakeProtocol (baseline : Program ι Mutex Cond Memory Pc Input) Pc.holds cond cond.mutex
      (stale cond late) owes := by
  have idle : ∀ {pc : Pc}, (code pc : BaselineInstr ι).isAccess = true → owes pc = true → False := by
    intro pc access owed
    rcases owing.mp owed with rfl | rfl
    · rw [locks] at access
      cases access
    · rw [broadcasts] at access
      cases access
  constructor
  case woken => exact fun stale => by cases stale.1
  case elsewhere => exact fun other stale => other (of_decide_eq_true stale.1)
  case sync => exact fun sync stale => Bool.false_ne_true ((sync_awake sync cond).symm.trans stale.1)
  case sleep =>
    intro i pc other own next memory wait late
    obtain rfl : other = cond := of_decide_eq_true late.1
    refine ⟨?_, late.2⟩
    rcases code_wait wait with ⟨rfl, _, rfl, _⟩ | ⟨caller, rfl, _, rfl, _⟩ <;> rfl
  case read =>
    intro i pc choose memory input next read result
    refine ⟨fun late => ?_, fun owed => (idle (congrArg Instr.isAccess read) owed).elim⟩
    have early := tested (code_access (read_body read result)) late.1
    exact absurd (early.symm.trans late.2) Bool.false_ne_true
  case act =>
    intro i pc run memory input written next act result
    refine ⟨fun late => ?_, fun owed => (idle (congrArg Instr.isAccess act) owed).elim⟩
    exact Bool.false_ne_true ((act_awake act result cond).symm.trans late.1)
  case fork => exact fun fork => absurd fork ((code_flat _).2 _ _)
  case dormant => exact fun idle => by cases idle
  case debt =>
    intro i pc next sync owed
    rcases owing.mp owed with rfl | rfl
    · rw [show baseline.code i pc = .lock mutex broadcasting from locks] at sync
      cases sync
      exact .inl (owing.mpr (.inr rfl))
    · rw [show baseline.code i pc = .broadcast cond last from broadcasts] at sync
      cases sync
      exact .inr broadcasts
  case pays => exact broadcast_holds
  case guarded => exact fun late => dozes_holds late.1

theorem drain_protocol : WakeProtocol (baseline : Program ι Mutex Cond Memory Pc Input) Pc.holds .drainCond
    .drainMutex (stale .drainCond Memory.drained) Pc.owesDrain := by
  have locks : (code (.worker .drainLock) : BaselineInstr ι) =
    .lock .drainMutex (.worker .drainBroadcast) := rfl
  have broadcasts : (code (.worker .drainBroadcast) : BaselineInstr ι) =
    .broadcast .drainCond (.worker .drainUnlock) := rfl
  refine wake_protocol (fun {pc} => ⟨fun owed => ?_, ?_⟩) locks broadcasts ?_
  · cases pc with
    | worker pc => cases pc <;> first | exact .inl rfl | exact .inr rfl | cases owed
    | _ => cases owed
  · rintro (rfl | rfl) <;> rfl
  · intro memory pc after next steps dozing
    cases steps with
    | undrained caller busy => exact decide_eq_false busy
    | _ => cases dozing

theorem exit_protocol : WakeProtocol (baseline : Program ι Mutex Cond Memory Pc Input) Pc.holds .qCond
    .qMutex (stale .qCond Memory.shutdown) Pc.owesExit := by
  have locks : (code (.shutdown .wakeLock) : BaselineInstr ι) =
    .lock .qMutex (.shutdown .wakeBroadcast) := rfl
  have broadcasts : (code (.shutdown .wakeBroadcast) : BaselineInstr ι) =
    .broadcast .qCond (.shutdown .wakeUnlock) := rfl
  refine wake_protocol (fun {pc} => ⟨fun owed => ?_, ?_⟩) locks broadcasts ?_
  · cases pc with
    | shutdown pc => cases pc <;> first | exact .inl rfl | exact .inr rfl | cases owed
    | _ => cases owed
  · rintro (rfl | rfl) <;> rfl
  · intro memory pc after next steps dozing
    cases steps with
    | popSleep running => exact running
    | _ => cases dozing

theorem signal_protocol : SignalProtocol (baseline : Program ι Mutex Cond Memory Pc Input) .qCond
    (fun memory => memory.tasks.length) wakes where
  asleep := rfl
  woken wait := by
    rcases code_wait wait with ⟨_, rfl, _⟩ | ⟨_, other, _⟩
    · exact le_rfl
    · cases other
  one {pc} := by
    cases pc with
    | submit pc => cases pc <;> first | exact le_rfl | exact Nat.zero_le _
    | _ => exact Nat.zero_le _
  hop {i pc next} sync other := by
    cases pc with
    | submit pc =>
        cases pc <;> cases sync <;> first | exact le_rfl | exact Nat.zero_le _ | exact absurd rfl other
    | _ => exact Nat.zero_le _
  wait wait := by
    rcases code_wait wait with ⟨_, _, rfl, _⟩ | ⟨_, _, _, rfl, _⟩ <;> rfl
  fork fork := absurd fork ((code_flat _).2 _ _)
  dormant idle := by cases idle

/-- Only a push and a pop change the length of the queue. -/
theorem steps_length {tasks : List Addr} {rest : Account → Multiset Addr}
    (steps : Steps memory pc after next) (sound : Sound memory tasks (pc.share + rest)) :
    (∃ task, pc = .submit (.push task) ∧ next = .submit (.unlockQueue task) ∧
        after.tasks.length = memory.tasks.length + 1) ∨
      (∃ task, pc = .worker .popTest ∧ next = .worker (.unlockPopped task) ∧
        after.tasks.length + 1 = memory.tasks.length) ∨
      after.tasks.length = memory.tasks.length ∧
        (pc = .worker .popTest → next = .worker .popShutdown ∧ after.tasks.length = 0) := by
  obtain ⟨tasks', goes⟩ := sound_step steps sound
  cases steps with
  | popEmpty empty =>
      have none : tasks = [] := List.head?_eq_none_iff.mp (sound.represents.head_eq.symm.trans empty)
      refine .inr (.inr ⟨rfl, fun _ => ⟨rfl, ?_⟩⟩)
      rw [sound.tasks_eq, none]
      rfl
  | pop task queue popped =>
      obtain ⟨remaining, rfl, represents, _⟩ := Queue.qPop_represents sound.represents popped
      obtain rfl : tasks' = remaining := Chain.unique goes.represents.chain represents.chain
      refine .inr (.inl ⟨task, rfl, rfl, ?_⟩)
      rw [goes.tasks_eq, sound.tasks_eq, List.length_cons]
  | push task queue pushed =>
      refine .inl ⟨task, rfl, rfl, ?_⟩
      rw [(sound.push pushed).tasks_eq, sound.tasks_eq, List.length_append]
      rfl
  | create args =>
      refine .inr (.inr ⟨?_, by simp⟩)
      rw [sound.create.tasks_eq, sound.tasks_eq]
  | free task =>
      refine .inr (.inr ⟨?_, by simp⟩)
      rw [sound.free.tasks_eq, sound.tasks_eq]
  | _ => exact .inr (.inr ⟨rfl, by simp⟩)

/-- The change of the queue by a step, against the wake-ups of its thread. -/
theorem steps_load {tasks : List Addr} {rest : Account → Multiset Addr} {weight : Nat}
    (steps : Steps memory pc after next) (sound : Sound memory tasks (pc.share + rest))
    (before : weight = 0 ∨ (weight = 1 ∧ pc = .worker .popTest)) :
    after.tasks.length + weight ≤ memory.tasks.length + wakes (.ready next) ∨ after.tasks.length = 0 := by
  rcases steps_length steps sound with ⟨task, rfl, rfl, longer⟩ | ⟨task, rfl, rfl, shorter⟩ | ⟨same, empty⟩
  · have none : weight = 0 := by simpa using before
    exact .inl (by rw [longer, none]; exact le_rfl)
  · exact .inl (by omega)
  · rcases before with rfl | ⟨rfl, test⟩
    · exact .inl (by omega)
    · exact .inr (empty test).2

variable {config middle : BaselineConfig ι} {i : ι}

/-- The thread of an access accounts for no wake-up, unless it is a woken worker. -/
theorem arrives_wakes (arrives : Arrives baseline config i pc middle)
    (waits : (config.threads i).Waits baseline i) (access : (code pc : BaselineInstr ι).isAccess = true) :
    wakes (config.threads i) = 0 ∨ (wakes (config.threads i) = 1 ∧ pc = .worker .popTest) := by
  cases arrives with
  | here ready =>
      rw [ready]
      cases pc with
      | submit pc => cases pc <;> first | exact .inl rfl | cases access
      | _ => exact .inl rfl
  | entering _ enter => exact absurd enter ((code_flat _).1 _ _)
  | resuming woken =>
      rw [woken] at waits ⊢
      obtain ⟨cond, before, wait⟩ := waits
      rcases code_wait wait with ⟨_, rfl, _, rfl⟩ | ⟨_, _, rfl, _⟩
      · exact .inr ⟨rfl, rfl⟩
      · exact .inl rfl

end Protocols

section Reachable

variable {ι : Type} [DecidableEq ι] [Fintype ι] {config after : BaselineConfig ι} {label : Label ι Input}
  {allowed : BaselineConfig ι → Label ι Input → Prop} {roles : ι → Role}

theorem reachable_waits (reaches : Reaches baseline allowed (baselinePoolInit roles) config) (i : ι) :
    (config.threads i).Waits baseline i :=
  reaches.waits (fun _ => trivial) i

theorem reachable_owned (reaches : Reaches baseline allowed (baselinePoolInit roles) config) :
    Owned Pc.holds config :=
  reaches.owned baseline_disciplined (init_owned roles)

/-- The store of `shutdown` is followed by a broadcast. -/
theorem reachable_exitAttended (reaches : Reaches baseline allowed (baselinePoolInit roles) config) :
    NoneLost (stale .qCond Memory.shutdown) Pc.owesExit config := by
  apply reaches.invariant (NoneLost (stale .qCond Memory.shutdown) Pc.owesExit)
  · rintro ⟨j, late⟩
    cases late.2
  · intro config label after reached noneLost _ moves
    refine moves.noneLost exit_protocol (reachable_owned reached) (reachable_waits reached) ?_ noneLost
    intro i pc middle run input written next arrives act result j different late
    have steps := code_access (act_body act result)
    cases steps with
    | store => exact .inr rfl
    | _ => exact .inl late

/-- `total_task_in_system` is the number of tasks in the system. -/
theorem total_exact (reaches : Reaches baseline allowed (baselinePoolInit roles) config)
    (few : tasksInSystem config < 2 ^ 31) :
    config.memory.totalTaskInSystem = tasksInSystem config ∧ 0 ≤ tasksInSystem config := by
  obtain ⟨tasks, sound⟩ := reachable_sound reaches
  have waiting := waiting_eq sound
  have least : 0 ≤ tasksInSystem config := by
    rw [tasksInSystem]
    omega
  exact ⟨(reachable_total reaches).trans (wrap_of_range_32 (by omega) (by omega)), least⟩

/-- The decrement that brings `total_task_in_system` to zero is followed by a broadcast. -/
theorem reachable_drainAttended
    (reaches : Reaches baseline (fun config _ => tasksInSystem config < 2 ^ 31) (baselinePoolInit roles)
      config) : NoneLost (stale .drainCond Memory.drained) Pc.owesDrain config := by
  apply reaches.invariant (NoneLost (stale .drainCond Memory.drained) Pc.owesDrain)
  · rintro ⟨j, late⟩
    have awake : dozes .drainCond (.ready (roles j).start) = true := late.1
    cases role : roles j <;> rw [role] at awake <;> cases awake
  · intro config label after reached noneLost few moves
    refine moves.noneLost drain_protocol (reachable_owned reached) (reachable_waits reached) ?_ noneLost
    intro i pc middle run input written next arrives act result j different late
    obtain ⟨total, least⟩ := total_exact reached few
    have steps := code_access (act_body act result)
    cases steps with
    | decrementLast => exact .inr rfl
    | count task =>
        have zero : wrap 32 (config.memory.totalTaskInSystem + 1) = 0 := of_decide_eq_true late.2
        simp only [wrap, Int.bmod, Nat.reducePow] at zero
        omega
    | decrement more =>
        have zero : wrap 32 (config.memory.totalTaskInSystem + -1) = 0 := of_decide_eq_true late.2
        rw [wrap_of_range_32 (by omega) (by omega)] at zero
        omega
    | _ => exact .inl late

/-- While a worker sleeps, every queued task is matched by a signal to come or by a worker that
was woken. -/
theorem reachable_covered (reaches : Reaches baseline allowed (baselinePoolInit roles) config) :
    Covered .qCond (fun memory => memory.tasks.length) wakes config := by
  apply reaches.invariant (Covered .qCond (fun memory => memory.tasks.length) wakes)
  · rintro ⟨i, asleep⟩
    cases asleep
  · intro config label after reached covered _ moves
    have waits := reachable_waits reached
    obtain ⟨tasks, sound⟩ := reachable_sound reached
    refine moves.covered signal_protocol waits ?_ ?_ covered
    · intro i pc middle input written next arrives body
      have here := (arrives.flat baseline_flat).symm
      have split : config.total Pc.share = pc.share + others Pc.share config.point i := by
        rw [here]
        exact sum_split Pc.share config.point i
      rw [split] at sound
      exact steps_load (code_access body) sound
        (arrives_wakes arrives (waits i) (Instr.access_of_body body))
    · intro i pc mutex next ready wait
      rcases code_wait wait with ⟨_, _, rfl, _⟩ | ⟨_, other, _⟩
      · have empty := reachable_seenEmpty (i := i) reached (by rw [point_ready ready]; rfl)
        have none : tasks = [] := List.head?_eq_none_iff.mp (sound.represents.head_eq.symm.trans empty)
        rw [sound.tasks_eq, none]
        rfl
      · cases other

omit [DecidableEq ι] [Fintype ι] in
theorem dozes_of_sleepsOn {cond : Cond} {i : ι} (asleep : (config.threads i).sleepsOn cond = true) :
    dozes cond (config.threads i) = true := by
  cases status : config.threads i with
  | asleep other mutex pc =>
      rw [status] at asleep
      exact asleep
  | ready | woken =>
      rw [status] at asleep
      cases asleep

/-- No waiter is forgotten, however many there are: while one sleeps on `drain_cond` although no
task is in the system, a worker is on its way to the broadcast. -/
theorem baseline_waiters_woken
    (reaches : Reaches baseline (fun config _ => tasksInSystem config < 2 ^ 31) (baselinePoolInit roles)
      config) (i : ι) (asleep : (config.threads i).sleepsOn Cond.drainCond = true)
    (zero : config.memory.totalTaskInSystem = 0) : ∃ k, (config.point k).owesDrain = true :=
  reachable_drainAttended reaches ⟨i, dozes_of_sleepsOn asleep, decide_eq_true zero⟩

end Reachable

/-- Two threads wait when the worker has finished the only task. -/
theorem baseline_waiters_woken_two : ∃ config : BaselineConfig (Fin 3),
    Reaches baseline (fun config _ => tasksInSystem config < 2 ^ 31) (baselinePoolInit oneWorker) config ∧
      (config.threads 1).sleepsOn Cond.drainCond = true ∧
      (config.threads 2).sleepsOn Cond.drainCond = true ∧ config.memory.totalTaskInSystem = 0 ∧
      ∃ k, (config.point k).owesDrain = true := by
  obtain ⟨config, reaches, first, second, zero⟩ := Reaches.of_schedule baseline
    (fun config _ => tasksInSystem config < 2 ^ 31) (baselinePoolInit oneWorker)
    (checkSteps 1 ++ pushSteps 1 ++ [.run 1 (.call .wait), go 1, go 1, go 1] ++
      [.run 2 (.call .wait), go 2, go 2, go 2] ++ List.replicate 7 (go 0))
    (fun config => (config.threads 1).sleepsOn Cond.drainCond = true ∧
      (config.threads 2).sleepsOn Cond.drainCond = true ∧ config.memory.totalTaskInSystem = 0)
    (by decide +kernel)
  exact ⟨config, reaches, first, second, zero, baseline_waiters_woken reaches 1 first zero⟩

end ThreadPool.Baseline
