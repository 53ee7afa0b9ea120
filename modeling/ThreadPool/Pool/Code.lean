import ThreadPool.Foundation.Reachability
import ThreadPool.Pool.State

namespace ThreadPool.Pool

open Foundation

/-! # Code of the thread pool

The instruction at every program point of `thread_pool.c`. Each atomic load, store
and read-modify-write is one step, inside a critical section too. Plain accesses
under a mutex are one step. The acquisition of a mutex is one step with the first
access behind it: what other threads do in between they could as well do before.
-/

variable {ι : Type} [DecidableEq ι]

namespace Memory

/-- `atomic_fetch_add(&total_task_in_system, delta)` on a 32-bit `int`. -/
def addTotal (memory : Memory ι) (delta : Int) : Memory ι :=
  { memory with totalTaskInSystem := wrap 32 (memory.totalTaskInSystem + delta) }

/-- `atomic_fetch_add(&in_flight_submits, 1)`. -/
def announceSubmit (memory : Memory ι) : Memory ι :=
  { memory with inFlightSubmits := memory.inFlightSubmits + 1#32 }

/-- `atomic_fetch_add(&in_flight_submits, -1)`. -/
def retireSubmit (memory : Memory ι) : Memory ι :=
  { memory with inFlightSubmits := memory.inFlightSubmits - 1#32 }

/-- A successful `task_create`. -/
def createTask (memory : Memory ι) (args : SubmitArgs) : Memory ι × Ticket :=
  let newId := memory.gTaskIdCount
  ({ memory with
      pq := memory.pq.store memory.fresh (taskCreate newId args.func args.arg args.priority)
      fresh := memory.fresh + 1
      gTaskIdCount := (newId + 1) % 2 ^ 64 },
    { task := memory.fresh, id := wrap 64 newId, priority := args.priority })

/-- `clock_gettime(CLOCK_MONOTONIC, &task->submit_time)`. -/
def stampTask (memory : Memory ι) (task : Addr) (now : Timespec) : Option (Memory ι) := do
  let record ← memory.pq.heap task
  return { memory with pq := memory.pq.store task { record with submitTime := now } }

/-- `task_destroy`. -/
def taskDestroy (memory : Memory ι) (task : Addr) : Memory ι :=
  { memory with pq := { memory.pq with heap := Function.update memory.pq.heap task none } }

/-- The part of `pq_try_push` behind its load of the cap. -/
def tryPush (memory : Memory ι) (ticket : Ticket) (max : Nat) : Option (Memory ι × SubmitPc) :=
  if memory.pq.atCapacity max then
    some ({ memory with journal.refused := ticket.task :: memory.journal.refused }, .unlockFull ticket)
  else do
    let pq ← memory.pq.pqInsertLocked ticket.task
    return ({ memory with pq, journal.accepted := ticket.task :: memory.journal.accepted },
      .unlockInserted ticket)

/-- The part of `pq_pop_until_shutdown` up to its load of the flag. -/
def popTask (memory : Memory ι) : Option (Memory ι × WorkerPc) :=
  if memory.pq.readyMask = 0 then some (memory, .popShutdown)
  else do
    let (task, pq) ← memory.pq.popHighest
    return ({ memory with pq }, .unlockPopped task)

def callTask (memory : Memory ι) (task : Addr) : Option (Memory ι) := do
  let _ ← memory.pq.heap task
  return { memory with journal.called := task :: memory.journal.called }

def completeTask (memory : Memory ι) (task : Addr) : Memory ι :=
  { memory with journal.completed := task :: memory.journal.completed }

def setBusy (memory : Memory ι) (worker : ι) (busy : Bool) : Memory ι :=
  { memory with busy := Function.update memory.busy worker busy }

def promote (memory : Memory ι) (scan : Scan) (promoteMs : Int) (now : Timespec) :
    Option (Memory ι × AgingPc) := do
  let (promoted, pq) ← memory.pq.promoteLocked scan.src scan.dst now promoteMs
  return ({ memory with pq }, .unlockQueue scan promoteMs promoted)

def destroyQueue (memory : Memory ι) : Option (Memory ι) := do
  let (tasks, pq) ← memory.pq.pqDestroy
  return { memory with pq, journal.destroyed := tasks ++ memory.journal.destroyed }

end Memory

/-- An atomic load. -/
def load (next : Memory ι → Pc) : PoolInstr ι := .read fun memory _ => some (next memory)

/-- An atomic store or read-modify-write. -/
def update (write : Memory ι → Memory ι) (next : Pc) : PoolInstr ι :=
  .act fun memory _ => some (write memory, next)

def threadPoolSubmit : SubmitPc → PoolInstr ι
  | .announce args => update Memory.announceSubmit (.submit (.checkShutdown args))
  | .checkShutdown args => load fun memory =>
      .submit (if memory.shutdown then .fail .eshutdown else .loadMax args)
  | .loadMax args => load fun memory =>
      .submit (if memory.pq.maxTasks = 0 then .create args else .loadDepth args memory.pq.maxTasks)
  | .loadDepth args max => load fun memory =>
      .submit (if memory.pq.depth ≥ max then .fail .eagain else .create args)
  | .create args => .act fun memory input =>
      match input with
      | .alloc true =>
          let (memory, ticket) := memory.createTask args
          some (memory, .submit (.count ticket))
      | .alloc false => some (memory, .submit (.fail .enomem))
      | _ => none
  | .count ticket => update (·.addTotal 1) (.submit (.checkAging ticket))
  | .checkAging ticket => load fun memory =>
      .submit (if memory.agingEnable then .stamp ticket else .lockQueue ticket)
  | .stamp ticket => .act fun memory input =>
      match input with
      | .clock now =>
          (memory.stampTask ticket.task now).map fun memory => (memory, .submit (.lockQueue ticket))
      | _ => none
  | .lockQueue ticket => .enter .pqMutex (.submit (.loadCap ticket))
  | .loadCap ticket => load fun memory => .submit (.insert ticket memory.pq.maxTasks)
  | .insert ticket max => .act fun memory _ =>
      (memory.tryPush ticket max).map fun result => (result.1, .submit result.2)
  | .unlockFull ticket => .unlock .pqMutex (.submit (.uncount ticket))
  | .unlockInserted ticket => .unlock .pqMutex (.submit (.signal ticket))
  | .signal ticket => .signal .notEmpty (.submit (.leave ticket))
  | .leave ticket => update
      (fun memory => { memory.retireSubmit with
        journal.returned := ticket.task :: memory.journal.returned })
      (.client (some (.id ticket.id)))
  | .uncount ticket => update (·.addTotal (-1)) (.submit (.discard ticket))
  | .discard ticket => update (·.taskDestroy ticket.task) (.submit (.fail .eagain))
  | .fail errno => update Memory.retireSubmit (.client (some (.error errno)))

def workerFunc (me : ι) : WorkerPc → PoolInstr ι
  | .top => load fun memory => .worker (if memory.paused then .pauseLock else .popLock)
  | .pauseLock => .enter .pauseMutex (.worker .pauseTest)
  | .pauseTest => load fun memory => .worker (if memory.paused then .pauseWait else .pauseUnlock)
  | .pauseWait => .wait .pauseCond .pauseMutex (.worker .pauseTest)
  | .pauseUnlock => .unlock .pauseMutex (.worker .popLock)
  | .popLock => .enter .pqMutex (.worker .popTest)
  | .popTest => .act fun memory _ =>
      memory.popTask.map fun result => (result.1, .worker result.2)
  | .popShutdown => load fun memory => .worker (if memory.shutdown then .unlockNull else .popWait)
  | .popWait => .wait .notEmpty .pqMutex (.worker .popTest)
  | .unlockNull => .unlock .pqMutex (.worker .exited)
  | .unlockPopped task => .unlock .pqMutex (.worker (.setBusy task))
  | .setBusy task => update (·.setBusy me true) (.worker (.call task))
  | .call task => .act fun memory _ =>
      (memory.callTask task).map fun memory => (memory, .worker (.running task))
  | .running task => update (·.completeTask task) (.worker (.destroy task))
  | .destroy task => update (·.taskDestroy task) (.worker .clearBusy)
  | .clearBusy => update (·.setBusy me false) (.worker .decrement)
  | .decrement => .act fun memory _ =>
      let memory := memory.addTotal (-1)
      some (memory, .worker (if memory.totalTaskInSystem = 0 then .drainLock else .top))
  | .drainLock => .lock .drainMutex (.worker .drainSignal)
  | .drainSignal => .signal .drainCond (.worker .drainUnlock)
  | .drainUnlock => .unlock .drainMutex (.worker .top)
  | .exited => .halt

/-- `while (total_task_in_system > 0) pthread_cond_wait(...)` under `drain_mutex`. -/
def drainLoop (caller : DrainCaller) : DrainPc → PoolInstr ι
  | .lock => .enter .drainMutex (.drain caller .test)
  | .test => load fun memory =>
      .drain caller (if memory.totalTaskInSystem > 0 then .wait else .unlock)
  | .wait => .wait .drainCond .drainMutex (.drain caller .test)
  | .unlock => .unlock .drainMutex (match caller with
      | .wait => .client none
      | .destroy => .destroy .monitorStop)

def pqWakeAll (caller : WakeAllCaller) : WakePc → PoolInstr ι
  | .lock => .lock .pqMutex (.wakeAll caller .broadcast)
  | .broadcast => .broadcast .notEmpty (.wakeAll caller .unlock)
  | .unlock => .unlock .pqMutex (match caller with
      | .pause => .client none
      | .destroy => .wakePause .destroy .lock)

def threadPoolWakePause (caller : WakePauseCaller) : WakePc → PoolInstr ι
  | .lock => .lock .pauseMutex (.wakePause caller .broadcast)
  | .broadcast => .broadcast .pauseCond (.wakePause caller .unlock)
  | .unlock => .unlock .pauseMutex (match caller with
      | .resume .client => .client none
      | .resume .wait => .drain .wait .lock
      | .disable caller => .disable caller .join
      | .destroy => .disable .destroy .load)

def threadPoolEnableAging : EnablePc → PoolInstr ι
  | .lock intervalMs promoteMs => .enter .agingMutex (.enable (.test intervalMs promoteMs))
  | .test intervalMs promoteMs => load fun memory =>
      .enable (if memory.agingEnable then .unlockEnabled else .set intervalMs promoteMs)
  | .set intervalMs promoteMs => update
      (fun memory => { memory with agingIntervalMs := intervalMs, agingPromoteMs := promoteMs })
      (.enable .store)
  | .store => update (fun memory => { memory with agingEnable := true }) (.enable .unlock)
  | .unlock => .unlock .agingMutex (.enable .create)
  | .create => .fork (.aging .start) fun memory target =>
      match target with
      | some tid => ({ memory with agingTid := some tid }, .client none)
      | none => (memory, .enable .undo)
  | .undo => update (fun memory => { memory with agingEnable := false }) (.client none)
  | .unlockEnabled => .unlock .agingMutex (.client none)

def DisableCaller.return : DisableCaller → Pc
  | .client => .client none
  | .destroy => .drain .destroy .lock

def threadPoolDisableAging (caller : DisableCaller) : DisablePc → PoolInstr ι
  | .load => load fun memory =>
      if memory.agingEnable then .disable caller .store else caller.return
  | .store => update (fun memory => { memory with agingEnable := false }) (.disable caller .lock)
  | .lock => .lock .agingMutex (.disable caller .signal)
  | .signal => .signal .agingCond (.disable caller .unlock)
  | .unlock => .unlock .agingMutex (.wakePause (.disable caller) .lock)
  | .join => .join
      (fun memory j pc => decide (memory.agingTid = some j) && decide (pc ≠ .aging .exited))
      caller.return

/-- Where `pq_aging` goes on behind a scan. -/
def Scan.return (promoteMs : Int) : Scan → AgingPc
  | .first => .between promoteMs
  | .second => .loopTop

def agingWorker : AgingPc → PoolInstr ι
  | .start => .enter .agingMutex (.aging .loopTop)
  | .loopTop => load fun memory => .aging (if memory.paused then .pauseRelease else .checkShutdown)
  | .pauseRelease => .unlock .agingMutex (.aging .pauseLock)
  | .pauseLock => .enter .pauseMutex (.aging .pauseTest)
  | .pauseTest => load fun memory => .aging (if memory.paused then .pauseShutdown else .pauseUnlock)
  | .pauseShutdown => load fun memory =>
      .aging (if memory.shutdown then .pauseUnlock else .pauseEnable)
  | .pauseEnable => load fun memory =>
      .aging (if memory.agingEnable then .pauseWait else .pauseUnlock)
  | .pauseWait => .wait .pauseCond .pauseMutex (.aging .pauseTest)
  | .pauseUnlock => .unlock .pauseMutex (.aging .relock)
  | .relock => .enter .agingMutex (.aging .checkShutdown)
  | .checkShutdown => load fun memory => .aging (if memory.shutdown then .unlock else .checkEnable)
  | .checkEnable => load fun memory => .aging (if memory.agingEnable then .timedWait else .unlock)
  | .timedWait => .wait .agingCond .agingMutex (.aging .passStart)
  | .passStart => load fun memory => .aging (.readClock .first memory.agingPromoteMs)
  | .readClock scan promoteMs => .read fun _ input =>
      match input with
      | .clock now => some (.aging (.checkFlag scan promoteMs now))
      | _ => none
  | .checkFlag scan promoteMs now => load fun memory =>
      .aging (if memory.shutdown then scan.return promoteMs else .lockQueue scan promoteMs now)
  | .lockQueue scan promoteMs now => .enter .pqMutex (.aging (.promote scan promoteMs now))
  | .promote scan promoteMs now => .act fun memory _ =>
      (memory.promote scan promoteMs now).map fun result => (result.1, .aging result.2)
  | .unlockQueue scan promoteMs promoted => .unlock .pqMutex
      (.aging (if promoted then .broadcast scan promoteMs else scan.return promoteMs))
  | .broadcast scan promoteMs => .broadcast .notEmpty (.aging (scan.return promoteMs))
  | .between promoteMs => load fun memory =>
      .aging (if memory.shutdown then .loopTop else .readClock .second promoteMs)
  | .unlock => .unlock .agingMutex (.aging .exited)
  | .exited => .halt

/-- A worker that `thread_pool_destroy` still has to join. -/
def Pc.liveWorker : Pc → Bool
  | .worker .exited => false
  | .worker _ => true
  | _ => false

def threadPoolDestroy : DestroyPc → PoolInstr ι
  | .storeShutdown => update (fun memory => { memory with shutdown := true }) (.destroy .storePaused)
  | .storePaused => update (fun memory => { memory with paused := false }) (.destroy .spin)
  | .spin => load fun memory =>
      if memory.inFlightSubmits > 0#32 then .destroy .spin else .wakeAll .destroy .lock
  | .monitorStop => load fun _ => .destroy .joinWorkers
  | .joinWorkers => .join (fun _ _ pc => pc.liveWorker) (.destroy .lockQueue)
  | .lockQueue => .enter .pqMutex (.destroy .destroyQueue)
  | .destroyQueue => .act fun memory _ =>
      memory.destroyQueue.map fun memory => (memory, .destroy .unlockQueue)
  | .unlockQueue => .unlock .pqMutex (.destroy .free)
  -- `free(pool->workers)`, the mutexes and condition variables, and `free(pool)`
  | .free => update (fun memory => { memory with journal.freed := true }) (.destroy .done)
  | .done => .halt

/-- The thread is inside a call or a routine of the pool, so that its next step reads, writes
or frees a part of the pool. -/
def Pc.touches : Pc → Bool
  | .dormant => false
  | .client _ => false
  | .worker .exited => false
  | .aging .exited => false
  | .destroy .done => false
  | _ => true

/-- A thread is about to use the pool although it was freed: what follows is undefined. -/
def UsesFreed (config : PoolConfig ι) : Prop :=
  config.memory.journal.freed = true ∧ ∃ i, (config.point i).touches = true

instance [Fintype ι] (config : PoolConfig ι) : Decidable (UsesFreed config) :=
  inferInstanceAs (Decidable (_ ∧ _))

/-- The first program point of a call, behind the checks of its arguments. -/
def Call.entry : Call → Pc
  | .submit args =>
      if args.func = 0 then .client (some (.error .einval)) else .submit (.announce args)
  | .wait => .wait
  | .pause => .pause
  | .resume => .resume .client
  | .setMaxTasks maxTasks => .setMaxTasks maxTasks
  | .enableAging intervalMs promoteMs =>
      if intervalMs ≤ 0 ∨ promoteMs ≤ 0 then .client none else .enable (.lock intervalMs promoteMs)
  | .disableAging => .disable .client .load
  | .destroy => .destroy .storeShutdown

def code (me : ι) : Pc → PoolInstr ι
  | .dormant => .halt
  | .client _ => .read fun _ input =>
      match input with
      | .call call => some call.entry
      | _ => none
  | .submit pc => threadPoolSubmit pc
  | .worker pc => workerFunc me pc
  | .wait => load fun memory => if memory.paused then .resume .wait else .drain .wait .lock
  | .drain caller pc => drainLoop caller pc
  | .pause => update (fun memory => { memory with paused := true }) (.wakeAll .pause .lock)
  | .wakeAll caller pc => pqWakeAll caller pc
  | .resume caller =>
      update (fun memory => { memory with paused := false }) (.wakePause (.resume caller) .lock)
  | .wakePause caller pc => threadPoolWakePause caller pc
  | .setMaxTasks maxTasks =>
      update (fun memory => { memory with pq := memory.pq.pqSetMaxTasks maxTasks }) (.client none)
  | .enable pc => threadPoolEnableAging pc
  | .disable caller pc => threadPoolDisableAging caller pc
  | .aging pc => agingWorker pc
  | .destroy pc => threadPoolDestroy pc

def pool : Program ι Mutex Cond (Memory ι) Pc Input where
  code := code
  dormant pc := decide (pc = .dormant)

inductive Role where
  | worker
  | client
  | spare
deriving DecidableEq

def Role.start : Role → Pc
  | .worker => .worker .top
  | .client => .client none
  | .spare => .dormant

/-- The state behind `thread_pool_init`; `idCount` tasks were created before, and the
spare threads are those that `pthread_create` can still start. -/
def threadPoolInit (roles : ι → Role) (idCount : Nat) : PoolConfig ι where
  memory :=
    { pq := .pqInit fun _ => none
      fresh := 0
      gTaskIdCount := idCount
      totalTaskInSystem := 0
      inFlightSubmits := 0
      shutdown := false
      paused := false
      agingEnable := false
      agingIntervalMs := 0
      agingPromoteMs := 0
      agingTid := none
      busy := fun _ => false
      journal := {} }
  owner _ := none
  threads i := .ready (roles i).start

end ThreadPool.Pool
