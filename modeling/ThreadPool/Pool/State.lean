import ThreadPool.Foundation.Threads
import ThreadPool.PriorityQueue.Basic

namespace ThreadPool.Pool

open Foundation

/-! # State of the thread pool

The shared fields of `struct thread_pool` and the program points of every thread
that works on it: application threads between and inside their calls, the workers,
the aging threads and the caller of `thread_pool_destroy`.
-/

inductive Mutex where
  | pqMutex
  | drainMutex
  | pauseMutex
  | agingMutex
deriving DecidableEq

inductive Cond where
  | notEmpty
  | drainCond
  | pauseCond
  | agingCond
deriving DecidableEq

inductive Errno where
  | einval
  | eshutdown
  | eagain
  | enomem
deriving DecidableEq

/-- What `thread_pool_submit` returns: the id, or -1 and the value of `errno`. -/
inductive SubmitResult where
  | id (id : Int)
  | error (errno : Errno)
deriving DecidableEq

/-- The arguments of `thread_pool_submit`; the null function is `0`. -/
structure SubmitArgs where
  func : Nat
  arg : Nat
  priority : Priority
deriving DecidableEq

/-- What a submit call holds once it has created its task: the task, the id it will return
and its argument `priority`. -/
structure Ticket where
  task : Addr
  id : Int
  priority : Priority
deriving DecidableEq

/-- The calls of `thread_pool.h` that act on the shared state. -/
inductive Call where
  | submit (args : SubmitArgs)
  | wait
  | pause
  | resume
  | setMaxTasks (maxTasks : Nat)
  | enableAging (intervalMs promoteMs : Int)
  | disableAging
  | destroy
deriving DecidableEq

/-- What a step receives from outside: the next call of an application thread, the
outcome of `malloc`, or a reading of the monotonic clock. -/
inductive Input where
  | none
  | call (call : Call)
  | alloc (success : Bool)
  | clock (reading : ClockReading)
deriving DecidableEq

/-- `thread_pool_submit`, with `task_create`, `pq_is_full_approx` and `pq_try_push`
in place. -/
inductive SubmitPc where
  | announce (args : SubmitArgs)
  | checkShutdown (args : SubmitArgs)
  | loadMax (args : SubmitArgs)
  | loadDepth (args : SubmitArgs) (max : Nat)
  | create (args : SubmitArgs)
  | count (ticket : Ticket)
  | checkAging (ticket : Ticket)
  | stamp (ticket : Ticket)
  | lockQueue (ticket : Ticket)
  | loadCap (ticket : Ticket)
  | insert (ticket : Ticket) (max : Nat)
  | unlockFull (ticket : Ticket)
  | unlockInserted (ticket : Ticket)
  | signal (ticket : Ticket)
  | leave (ticket : Ticket)
  | uncount (ticket : Ticket)
  | discard (ticket : Ticket)
  | fail (errno : Errno)
deriving DecidableEq

/-- `worker_func`, with `pq_pop_until_shutdown` in place. -/
inductive WorkerPc where
  | top
  | pauseLock
  | pauseTest
  | pauseWait
  | pauseUnlock
  | popLock
  | popTest
  | popShutdown
  | popWait
  | unlockNull
  | unlockPopped (task : Addr)
  | setBusy (task : Addr)
  | call (task : Addr)
  | running (task : Addr)
  | destroy (task : Addr)
  | clearBusy
  | decrement
  | drainLock
  | drainSignal
  | drainUnlock
  | exited
deriving DecidableEq

/-- The drain loop stands in `thread_pool_wait` and in `thread_pool_destroy`. -/
inductive DrainCaller where
  | wait
  | destroy
deriving DecidableEq

inductive DrainPc where
  | lock
  | test
  | wait
  | unlock
deriving DecidableEq

inductive ResumeCaller where
  | client
  | wait
deriving DecidableEq

inductive DisableCaller where
  | client
  | destroy
deriving DecidableEq

/-- The callers of `thread_pool_wake_pause`. -/
inductive WakePauseCaller where
  | resume (caller : ResumeCaller)
  | disable (caller : DisableCaller)
  | destroy
deriving DecidableEq

/-- The callers of `pq_wake_all`. -/
inductive WakeAllCaller where
  | pause
  | destroy
deriving DecidableEq

inductive WakePc where
  | lock
  | broadcast
  | unlock
deriving DecidableEq

inductive EnablePc where
  | lock (intervalMs promoteMs : Int)
  | test (intervalMs promoteMs : Int)
  | set (intervalMs promoteMs : Int)
  | store
  | unlock
  | create
  | undo
  | unlockEnabled
deriving DecidableEq

inductive DisablePc where
  | load
  | store
  | lock
  | signal
  | unlock
  | join
deriving DecidableEq

/-- The two calls of `pq_aging_promote_prefix` in `pq_aging`. -/
inductive Scan where
  | first
  | second
deriving DecidableEq

def Scan.src : Scan → Priority
  | .first => .medium
  | .second => .low

def Scan.dst : Scan → Priority
  | .first => .high
  | .second => .medium

/-- `aging_worker`, with `pq_aging` in place. -/
inductive AgingPc where
  | start
  | loopTop
  | pauseRelease
  | pauseLock
  | pauseTest
  | pauseShutdown
  | pauseEnable
  | pauseWait
  | pauseUnlock
  | relock
  | checkShutdown
  | checkEnable
  | timedWait
  | passStart
  | readClock (scan : Scan) (promoteMs : Int)
  | checkFlag (scan : Scan) (promoteMs : Int) (now : Timespec)
  | lockQueue (scan : Scan) (promoteMs : Int) (now : Timespec)
  | promote (scan : Scan) (promoteMs : Int) (now : Timespec)
  | unlockQueue (scan : Scan) (promoteMs : Int) (promoted : Bool)
  | broadcast (scan : Scan) (promoteMs : Int)
  | between (promoteMs : Int)
  | unlock
  | exited
deriving DecidableEq

inductive DestroyPc where
  | storeShutdown
  | storePaused
  | spin
  | monitorStop
  | joinWorkers
  | lockQueue
  | destroyQueue
  | unlockQueue
  | free
  | done
deriving DecidableEq

inductive Pc where
  | dormant
  /-- Outside any call, with the result of the last submit. -/
  | client (last : Option SubmitResult)
  | submit (pc : SubmitPc)
  | worker (pc : WorkerPc)
  /-- The load of `paused` at the start of `thread_pool_wait`. -/
  | wait
  | drain (caller : DrainCaller) (pc : DrainPc)
  | pause
  | wakeAll (caller : WakeAllCaller) (pc : WakePc)
  | resume (caller : ResumeCaller)
  | wakePause (caller : WakePauseCaller) (pc : WakePc)
  | setMaxTasks (maxTasks : Nat)
  | enable (pc : EnablePc)
  | disable (caller : DisableCaller) (pc : DisablePc)
  | aging (pc : AgingPc)
  | destroy (pc : DestroyPc)
deriving DecidableEq

/-- What has happened to the tasks and to the pool so far; the program never reads it. -/
structure Journal where
  accepted : List Addr := []
  refused : List Addr := []
  returned : List Addr := []
  called : List Addr := []
  completed : List Addr := []
  destroyed : List Addr := []
  /-- The block of the pool has been given back. What a thread does to it from then on is
  undefined; `Pc.touches` says which program points are about to do so. -/
  freed : Bool := false

structure Memory (ι : Type) where
  pq : PriorityQueue
  /-- The next block that `malloc` returns. -/
  fresh : Addr
  gTaskIdCount : Nat
  totalTaskInSystem : Int
  inFlightSubmits : BitVec 32
  shutdown : Bool
  paused : Bool
  agingEnable : Bool
  agingIntervalMs : Int
  agingPromoteMs : Int
  agingTid : Option ι
  busy : ι → Bool
  journal : Journal

abbrev PoolInstr (ι : Type) := Instr ι Mutex Cond (Memory ι) Pc Input

abbrev PoolConfig (ι : Type) := Config ι Mutex Cond (Memory ι) Pc

end ThreadPool.Pool
