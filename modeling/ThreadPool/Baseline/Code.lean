import ThreadPool.Baseline.Queue
import ThreadPool.Foundation.Accesses
import ThreadPool.Foundation.Locks
import ThreadPool.Foundation.Word

namespace ThreadPool.Baseline

open Foundation

/-! # Code of the baseline pool

The instruction at every program point of `baseline.c`. Each atomic access, each
operation on a mutex or condition variable and each critical section of the queue is one
step. The pool is there from its initialisation on, until a call of
`baseline_pool_shutdown` that has joined the workers frees it.
-/

inductive Mutex where
  | qMutex
  | drainMutex
deriving DecidableEq

inductive Cond where
  | qCond
  | drainCond
deriving DecidableEq

structure SubmitArgs where
  func : Nat
  arg : Nat
deriving DecidableEq

/-- `baseline_pool_submit`, with `q_push` in place. -/
inductive SubmitPc where
  | checkShutdown (args : SubmitArgs)
  | announce (args : SubmitArgs)
  | create (args : SubmitArgs)
  | retire
  | count (task : Addr)
  | lockQueue (task : Addr)
  | push (task : Addr)
  | unlockQueue (task : Addr)
  | signal (task : Addr)
  | leave (task : Addr)
deriving DecidableEq

/-- `worker_func`, with `q_pop_until_shutdown` in place. -/
inductive WorkerPc where
  | popLock
  | popTest
  | popShutdown
  | popWait
  | unlockNull
  | exited
  | unlockPopped (task : Addr)
  | call (task : Addr)
  | running (task : Addr)
  | free (task : Addr)
  | decrement
  | drainLock
  | drainBroadcast
  | drainUnlock
deriving DecidableEq

inductive DrainCaller where
  | wait
  | shutdown
deriving DecidableEq

inductive DrainPc where
  | lock
  | test
  | wait
  | unlock
deriving DecidableEq

/-- `baseline_pool_shutdown`, with `q_wake_all` in place. -/
inductive ShutdownPc where
  | store
  | wakeLock
  | wakeBroadcast
  | wakeUnlock
  | spin
  | join
  | free
  | freed
deriving DecidableEq

inductive Pc where
  /-- Outside any call, with the result of the last submit. -/
  | client (last : Option Int)
  | submit (pc : SubmitPc)
  | worker (pc : WorkerPc)
  | drain (caller : DrainCaller) (pc : DrainPc)
  | shutdown (pc : ShutdownPc)
deriving DecidableEq

inductive Call where
  | submit (args : SubmitArgs)
  | wait
  | shutdown

/-- What a step receives from outside: the next call of a client, whether `malloc`
succeeds. -/
inductive Input where
  | none
  | call (call : Call)
  | alloc (success : Bool)

/-- What has happened to the tasks and to the pool so far; the program never reads it. -/
structure Journal where
  accepted : List Addr := []
  returned : List Addr := []
  called : List Addr := []
  completed : List Addr := []
  /-- The block of the pool, and its queue with it, has been given back. What a thread does
  to it from then on is undefined. -/
  freed : Bool := false

structure Memory where
  queue : Queue
  /-- The next block that `malloc` returns. -/
  fresh : Addr
  totalTaskInSystem : Int
  inFlightSubmits : Int
  shutdown : Bool
  journal : Journal

namespace Memory

/-- `atomic_fetch_add(&total_task_in_system, delta)` on a 32-bit `int`. -/
def addTotal (memory : Memory) (delta : Int) : Memory :=
  { memory with totalTaskInSystem := wrap 32 (memory.totalTaskInSystem + delta) }

/-- `atomic_fetch_add(&in_flight_submits, delta)` on a 32-bit `int`. -/
def addInFlight (memory : Memory) (delta : Int) : Memory :=
  { memory with inFlightSubmits := wrap 32 (memory.inFlightSubmits + delta) }

def createTask (memory : Memory) (args : SubmitArgs) : Memory :=
  { memory with
    queue := memory.queue.store memory.fresh { func := args.func, arg := args.arg, next := none }
    fresh := memory.fresh + 1 }

def pushTask (memory : Memory) (task : Addr) : Option Memory := do
  let queue ← memory.queue.qPush task
  return { memory with queue, journal.accepted := task :: memory.journal.accepted }

/-- The part of `q_pop_until_shutdown` up to its load of the flag. -/
def popTask (memory : Memory) : Option (Memory × WorkerPc) :=
  if memory.queue.head = none then some (memory, .popShutdown)
  else do
    let (task, queue) ← memory.queue.qPop
    return ({ memory with queue }, .unlockPopped task)

def callTask (memory : Memory) (task : Addr) : Option Memory := do
  let _ ← memory.queue.heap task
  return { memory with journal.called := task :: memory.journal.called }

def completeTask (memory : Memory) (task : Addr) : Memory :=
  { memory with journal.completed := task :: memory.journal.completed }

def freeTask (memory : Memory) (task : Addr) : Memory :=
  { memory with queue.heap := Function.update memory.queue.heap task none }

end Memory

abbrev BaselineInstr (ι : Type) := Instr ι Mutex Cond Memory Pc Input

abbrev BaselineConfig (ι : Type) := Config ι Mutex Cond Memory Pc

section Code

variable {ι : Type}

/-- An atomic load. -/
def load (next : Memory → Pc) : BaselineInstr ι := .read fun memory _ => some (next memory)

/-- An atomic store or read-modify-write. -/
def update (write : Memory → Memory) (next : Pc) : BaselineInstr ι :=
  .act fun memory _ => some (write memory, next)

def baselinePoolSubmit : SubmitPc → BaselineInstr ι
  | .checkShutdown args => load fun memory =>
      if memory.shutdown then .client (some (-1)) else .submit (.announce args)
  | .announce args => update (·.addInFlight 1) (.submit (.create args))
  | .create args => .act fun memory input =>
      match input with
      | .alloc true => some (memory.createTask args, .submit (.count memory.fresh))
      | .alloc false => some (memory, .submit .retire)
      | _ => none
  | .retire => update (·.addInFlight (-1)) (.client (some (-1)))
  | .count task => update (·.addTotal 1) (.submit (.lockQueue task))
  | .lockQueue task => .lock .qMutex (.submit (.push task))
  | .push task => .act fun memory _ =>
      (memory.pushTask task).map fun memory => (memory, .submit (.unlockQueue task))
  | .unlockQueue task => .unlock .qMutex (.submit (.signal task))
  | .signal task => .signal .qCond (.submit (.leave task))
  | .leave task => update
      (fun memory => { memory.addInFlight (-1) with
        journal.returned := task :: memory.journal.returned })
      (.client (some 0))

def workerFunc : WorkerPc → BaselineInstr ι
  | .popLock => .lock .qMutex (.worker .popTest)
  | .popTest => .act fun memory _ =>
      memory.popTask.map fun result => (result.1, .worker result.2)
  | .popShutdown => load fun memory => .worker (if memory.shutdown then .unlockNull else .popWait)
  | .popWait => .wait .qCond .qMutex (.worker .popTest)
  | .unlockNull => .unlock .qMutex (.worker .exited)
  | .exited => .halt
  | .unlockPopped task => .unlock .qMutex (.worker (.call task))
  | .call task => .act fun memory _ =>
      (memory.callTask task).map fun memory => (memory, .worker (.running task))
  | .running task => update (·.completeTask task) (.worker (.free task))
  | .free task => update (·.freeTask task) (.worker .decrement)
  | .decrement => .act fun memory _ =>
      let remain := memory.totalTaskInSystem - 1
      some (memory.addTotal (-1), .worker (if remain ≤ 0 then .drainLock else .popLock))
  | .drainLock => .lock .drainMutex (.worker .drainBroadcast)
  | .drainBroadcast => .broadcast .drainCond (.worker .drainUnlock)
  | .drainUnlock => .unlock .drainMutex (.worker .popLock)

/-- `while (total_task_in_system) pthread_cond_wait(...)` under `drain_mutex`, in
`baseline_pool_wait` and in `baseline_pool_shutdown`. -/
def drainLoop (caller : DrainCaller) : DrainPc → BaselineInstr ι
  | .lock => .lock .drainMutex (.drain caller .test)
  | .test => load fun memory =>
      .drain caller (if memory.totalTaskInSystem ≠ 0 then .wait else .unlock)
  | .wait => .wait .drainCond .drainMutex (.drain caller .test)
  | .unlock => .unlock .drainMutex (match caller with
      | .wait => .client none
      | .shutdown => .shutdown .join)

/-- A worker that `baseline_pool_shutdown` still has to join. -/
def Pc.liveWorker : Pc → Bool
  | .worker .exited => false
  | .worker _ => true
  | _ => false

def baselinePoolShutdown : ShutdownPc → BaselineInstr ι
  | .store => update (fun memory => { memory with shutdown := true }) (.shutdown .wakeLock)
  | .wakeLock => .lock .qMutex (.shutdown .wakeBroadcast)
  | .wakeBroadcast => .broadcast .qCond (.shutdown .wakeUnlock)
  | .wakeUnlock => .unlock .qMutex (.shutdown .spin)
  | .spin => load fun memory =>
      if memory.inFlightSubmits ≠ 0 then .shutdown .spin else .drain .shutdown .lock
  | .join => .join (fun _ _ pc => pc.liveWorker) (.shutdown .free)
  -- the mutexes and condition variables, `free(worker_thread)` and `free(pool)`
  | .free => update (fun memory => { memory with journal.freed := true }) (.shutdown .freed)
  | .freed => .halt

/-- The first program point of a call; a submit without a function returns at once. -/
def Call.entry : Call → Pc
  | .submit args => if args.func = 0 then .client (some (-1)) else .submit (.checkShutdown args)
  | .wait => .drain .wait .lock
  | .shutdown => .shutdown .store

def code : Pc → BaselineInstr ι
  | .client _ => .read fun _ input =>
      match input with
      | .call call => some call.entry
      | _ => none
  | .submit pc => baselinePoolSubmit pc
  | .worker pc => workerFunc pc
  | .drain caller pc => drainLoop caller pc
  | .shutdown pc => baselinePoolShutdown pc

def baseline : Program ι Mutex Cond Memory Pc Input where
  code _ := code
  dormant _ := false

inductive Role where
  | worker
  | client
deriving DecidableEq

def Role.start : Role → Pc
  | .worker => .worker .popLock
  | .client => .client none

/-- The state behind `baseline_pool_init`. -/
def baselinePoolInit (roles : ι → Role) : BaselineConfig ι where
  memory :=
    { queue := { heap := fun _ => none, head := none, tail := none }
      fresh := 0
      totalTaskInSystem := 0
      inFlightSubmits := 0
      shutdown := false
      journal := {} }
  owner _ := none
  threads i := .ready (roles i).start

theorem code_flat (pc : Pc) : (∀ mutex next, (code pc : BaselineInstr ι) ≠ .enter mutex next) ∧
    ∀ start next, (code pc : BaselineInstr ι) ≠ .fork start next := by
  constructor
  · intro mutex next enter
    cases pc <;> (try (rename_i pc; cases pc)) <;> cases enter
  · intro start next fork
    cases pc <;> (try (rename_i pc; cases pc)) <;> cases fork

theorem baseline_flat : (baseline : Program ι Mutex Cond Memory Pc Input).Flat :=
  fun _ pc => code_flat pc

end Code

/-- What a thread can do from each program point: the memory and the point behind it. -/
inductive Steps (memory : Memory) : Pc → Memory → Pc → Prop
  | invalid (last) : Steps memory (.client last) memory (.client (some (-1)))
  | callSubmit (last args) : args.func ≠ 0 →
      Steps memory (.client last) memory (.submit (.checkShutdown args))
  | callWait (last) : Steps memory (.client last) memory (.drain .wait .lock)
  | callShutdown (last) : Steps memory (.client last) memory (.shutdown .store)
  | refuse (args) : memory.shutdown = true →
      Steps memory (.submit (.checkShutdown args)) memory (.client (some (-1)))
  | pass (args) : memory.shutdown = false →
      Steps memory (.submit (.checkShutdown args)) memory (.submit (.announce args))
  | announce (args) :
      Steps memory (.submit (.announce args)) (memory.addInFlight 1) (.submit (.create args))
  | create (args) : Steps memory (.submit (.create args)) (memory.createTask args)
      (.submit (.count memory.fresh))
  | createFails (args) : Steps memory (.submit (.create args)) memory (.submit .retire)
  | retire : Steps memory (.submit .retire) (memory.addInFlight (-1)) (.client (some (-1)))
  | count (task) :
      Steps memory (.submit (.count task)) (memory.addTotal 1) (.submit (.lockQueue task))
  | pushLock (task) : Steps memory (.submit (.lockQueue task)) memory (.submit (.push task))
  | push (task queue) : memory.queue.qPush task = some queue →
      Steps memory (.submit (.push task))
        { memory with queue, journal.accepted := task :: memory.journal.accepted }
        (.submit (.unlockQueue task))
  | pushUnlock (task) : Steps memory (.submit (.unlockQueue task)) memory (.submit (.signal task))
  | pushSignal (task) : Steps memory (.submit (.signal task)) memory (.submit (.leave task))
  | leave (task) : Steps memory (.submit (.leave task))
      { memory.addInFlight (-1) with journal.returned := task :: memory.journal.returned }
      (.client (some 0))
  | popLock : Steps memory (.worker .popLock) memory (.worker .popTest)
  | popEmpty : memory.queue.head = none →
      Steps memory (.worker .popTest) memory (.worker .popShutdown)
  | pop (task queue) : memory.queue.qPop = some (task, queue) →
      Steps memory (.worker .popTest) { memory with queue } (.worker (.unlockPopped task))
  | popNull : memory.shutdown = true →
      Steps memory (.worker .popShutdown) memory (.worker .unlockNull)
  | popSleep : memory.shutdown = false →
      Steps memory (.worker .popShutdown) memory (.worker .popWait)
  | popWait : Steps memory (.worker .popWait) memory (.worker .popTest)
  | unlockNull : Steps memory (.worker .unlockNull) memory (.worker .exited)
  | unlockPopped (task) : Steps memory (.worker (.unlockPopped task)) memory (.worker (.call task))
  | call (task record) : memory.queue.heap task = some record →
      Steps memory (.worker (.call task))
        { memory with journal.called := task :: memory.journal.called } (.worker (.running task))
  | running (task) :
      Steps memory (.worker (.running task)) (memory.completeTask task) (.worker (.free task))
  | free (task) : Steps memory (.worker (.free task)) (memory.freeTask task) (.worker .decrement)
  | decrement : ¬ memory.totalTaskInSystem - 1 ≤ 0 →
      Steps memory (.worker .decrement) (memory.addTotal (-1)) (.worker .popLock)
  | decrementLast : memory.totalTaskInSystem - 1 ≤ 0 →
      Steps memory (.worker .decrement) (memory.addTotal (-1)) (.worker .drainLock)
  | drainLock : Steps memory (.worker .drainLock) memory (.worker .drainBroadcast)
  | drainBroadcast : Steps memory (.worker .drainBroadcast) memory (.worker .drainUnlock)
  | drainUnlock : Steps memory (.worker .drainUnlock) memory (.worker .popLock)
  | waiterLock (caller) : Steps memory (.drain caller .lock) memory (.drain caller .test)
  | undrained (caller) : memory.totalTaskInSystem ≠ 0 →
      Steps memory (.drain caller .test) memory (.drain caller .wait)
  | drained (caller) : memory.totalTaskInSystem = 0 →
      Steps memory (.drain caller .test) memory (.drain caller .unlock)
  | waiterSleep (caller) : Steps memory (.drain caller .wait) memory (.drain caller .test)
  | waitReturn : Steps memory (.drain .wait .unlock) memory (.client none)
  | shutdownDrained : Steps memory (.drain .shutdown .unlock) memory (.shutdown .join)
  | store : Steps memory (.shutdown .store) { memory with shutdown := true } (.shutdown .wakeLock)
  | wakeLock : Steps memory (.shutdown .wakeLock) memory (.shutdown .wakeBroadcast)
  | wakeBroadcast : Steps memory (.shutdown .wakeBroadcast) memory (.shutdown .wakeUnlock)
  | wakeUnlock : Steps memory (.shutdown .wakeUnlock) memory (.shutdown .spin)
  | spin : memory.inFlightSubmits ≠ 0 → Steps memory (.shutdown .spin) memory (.shutdown .spin)
  | quiet : memory.inFlightSubmits = 0 →
      Steps memory (.shutdown .spin) memory (.drain .shutdown .lock)
  | join : Steps memory (.shutdown .join) memory (.shutdown .free)
  | freePool : Steps memory (.shutdown .free) { memory with journal.freed := true } (.shutdown .freed)

section Inversion

variable {ι : Type} {memory after : Memory} {next : Pc} {input : Input}

theorem code_sync {pc : Pc} (sync : (code pc : BaselineInstr ι).sync = some next) :
    Steps memory pc memory next := by
  cases pc with
  | client => cases sync
  | drain caller pc =>
      cases pc <;> cases sync <;> first | constructor | (cases caller <;> constructor)
  | submit pc | worker pc | shutdown pc => cases pc <;> cases sync <;> constructor

theorem submit_access {pc : SubmitPc}
    (body : (baselinePoolSubmit pc : BaselineInstr ι).body memory input = some (after, next)) :
    Steps memory (.submit pc) after next := by
  cases pc with
  | announce | retire | count | leave =>
      cases body
      constructor
  | checkShutdown args =>
      cases body
      dsimp only
      split
      case isTrue stopped => exact .refuse args stopped
      case isFalse running => exact .pass args (Bool.eq_false_of_not_eq_true running)
  | create args =>
      cases input with
      | alloc success => cases success <;> cases body <;> constructor
      | _ => cases body
  | push task =>
      simp only [baselinePoolSubmit, Instr.body, Memory.pushTask, Option.bind_eq_bind,
        Option.pure_def, Option.map_bind, Option.bind_eq_some_iff, Function.comp, Option.map_some,
        Option.some.injEq, Prod.mk.injEq] at body
      obtain ⟨queue, pushed, rfl, rfl⟩ := body
      exact .push task queue pushed
  | _ => cases body

theorem worker_access {pc : WorkerPc}
    (body : (workerFunc pc : BaselineInstr ι).body memory input = some (after, next)) :
    Steps memory (.worker pc) after next := by
  cases pc with
  | running | free =>
      cases body
      constructor
  | popTest =>
      by_cases empty : memory.queue.head = none
      · simp only [workerFunc, Instr.body, Memory.popTask, if_pos empty, Option.map_some,
          Option.some.injEq, Prod.mk.injEq] at body
        obtain ⟨rfl, rfl⟩ := body
        exact .popEmpty empty
      · simp only [workerFunc, Instr.body, Memory.popTask, if_neg empty, Option.bind_eq_bind,
          Option.pure_def, Option.map_bind, Option.bind_eq_some_iff, Function.comp, Option.map_some,
          Option.some.injEq, Prod.mk.injEq] at body
        obtain ⟨⟨task, queue⟩, popped, rfl, rfl⟩ := body
        exact .pop task queue popped
  | popShutdown =>
      cases body
      dsimp only
      split
      case isTrue stopped => exact .popNull stopped
      case isFalse running => exact .popSleep (Bool.eq_false_of_not_eq_true running)
  | call task =>
      simp only [workerFunc, Instr.body, Memory.callTask, Option.bind_eq_bind, Option.pure_def,
        Option.map_bind, Option.bind_eq_some_iff, Function.comp, Option.map_some, Option.some.injEq,
        Prod.mk.injEq] at body
      obtain ⟨record, found, rfl, rfl⟩ := body
      exact .call task record found
  | decrement =>
      cases body
      split
      case isTrue last => exact .decrementLast last
      case isFalse more => exact .decrement more
  | _ => cases body

theorem code_access {pc : Pc} (body : (code pc : BaselineInstr ι).body memory input = some (after, next)) :
    Steps memory pc after next := by
  cases pc with
  | client last =>
      cases input with
      | call call =>
          cases body
          cases call with
          | submit args =>
              simp only [Call.entry]
              split
              case isTrue => exact .invalid last
              case isFalse valid => exact .callSubmit last args valid
          | wait => exact .callWait last
          | shutdown => exact .callShutdown last
      | _ => cases body
  | submit pc => exact submit_access body
  | worker pc => exact worker_access body
  | drain caller pc =>
      cases pc <;> cases body
      dsimp only
      split
      case isTrue more => exact .undrained caller more
      case isFalse none => exact .drained caller (not_not.mp none)
  | shutdown pc =>
      cases pc with
      | store | free =>
          cases body
          constructor
      | spin =>
          cases body
          dsimp only
          split
          case isTrue some => exact .spin some
          case isFalse none => exact .quiet (not_not.mp none)
      | _ => cases body

variable [DecidableEq ι] {config final : BaselineConfig ι} {label : Label ι Input}

/-- Everything that a step of the pool does to the memory and the program points. -/
theorem moves_steps (moves : Moves baseline config label final) :
    (final.memory = config.memory ∧ final.point = config.point) ∨
      ∃ next, Steps config.memory (config.point label.thread) final.memory next ∧
        final.point = Function.update config.point label.thread next := by
  cases moves.stride baseline_flat with
  | still memory points => exact .inl ⟨memory, points⟩
  | sync sync memory points =>
      refine .inr ⟨_, ?_, points⟩
      rw [memory]
      exact code_sync sync
  | access _ body points => exact .inr ⟨_, code_access body, points⟩

end Inversion

end ThreadPool.Baseline
