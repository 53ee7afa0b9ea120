import ThreadPool.Foundation.Simulation
import ThreadPool.Pool.Mutexes

namespace ThreadPool.Monitor

open Foundation Pool

/-! # The monitor beside the pool

The threads of the pool together with the monitor thread of `monitor.c` and the calls
that start and stop it. A monitor thread reads keys and calls `thread_pool_pause` and
`thread_pool_resume`; `thread_pool_destroy` stops it behind its drain loop. What the
monitor draws is left out.
-/

variable {ι : Type} [DecidableEq ι]

/-- The keys that `monitor_thread` tells apart. -/
inductive Key where
  | pause
  | resume
  | quit
  | other
deriving DecidableEq

inductive MonitorPc where
  /-- Not created yet. -/
  | unborn
  | loadInit
  | storeInit
  | loop
  | getch
  | testPause
  | testResume
  /-- Inside a call of the pool. -/
  | calling (pc : Pc)
  | quit
  | exited
deriving DecidableEq

inductive StartPc where
  | load
  | store
  | create
  | undo
  | setValid
deriving DecidableEq

inductive StopPc where
  | load
  | store
  | testValid
  | join
  | clearValid
deriving DecidableEq

inductive DetachPc where
  | load
  | store
  | join
  | clearValid
deriving DecidableEq

inductive ReattachPc where
  | load
  | loadInit
  | testValid
  | join
  | clearValid
  | store
  | create
  | undo
  | setValid
deriving DecidableEq

inductive ControlPc where
  | start (pc : StartPc)
  | stop (pc : StopPc)
  | detach (pc : DetachPc)
  | reattach (pc : ReattachPc)
  /-- At the return, with the value if the function has one. -/
  | returned (result : Option Int)
deriving DecidableEq

/-- An application thread, which keeps the result of its last submit, or
`thread_pool_destroy`, which calls `monitor_stop`. -/
inductive Caller where
  | client (last : Option SubmitResult)
  | destroy
deriving DecidableEq

inductive Point where
  | pool (pc : Pc)
  | control (caller : Caller) (pc : ControlPc)
  | monitor (pc : MonitorPc)
deriving DecidableEq

/-- The calls of `monitor.h` that act on the monitor. -/
inductive ControlCall where
  | start
  | stop
  | detach
  | reattach
deriving DecidableEq

def ControlCall.entry : ControlCall → ControlPc
  | .start => .start .load
  | .stop => .stop .load
  | .detach => .detach .load
  | .reattach => .reattach .load

/-- What a step receives from outside: an input of the pool, a call on the monitor, the
thread that `pthread_create` starts (none if it fails), or a key. -/
inductive MonitorInput (ι : Type) where
  | pool (input : Input)
  | control (call : ControlCall)
  | thread (target : Option ι)
  | key (key : Key)
deriving DecidableEq

def MonitorInput.toPool : MonitorInput ι → Option Input
  | .pool input => some input
  | _ => none

/-- `struct thread_pool` with its `struct monitor_t`. -/
structure Shared (ι : Type) where
  pool : Memory ι
  tid : Option ι
  tidValid : Bool
  running : Bool
  everInit : Bool
  /-- The threads that `pthread_create` can still start for the monitor. -/
  spare : ι → Bool

abbrev MonitorInstr (ι : Type) := Instr ι Mutex Cond (Shared ι) Point (MonitorInput ι)

abbrev MonitoredConfig (ι : Type) := Config ι Mutex Cond (Shared ι) Point

namespace Shared

def setRunning (shared : Shared ι) (running : Bool) : Shared ι := { shared with running }

def setValid (shared : Shared ι) (tidValid : Bool) : Shared ι := { shared with tidValid }

/-- A successful `pthread_create(&m->tid, NULL, monitor_thread, pool)`. -/
def createMonitor (shared : Shared ι) (child : ι) : Option (Shared ι) :=
  if shared.spare child then
    some { shared with tid := some child, spare := Function.update shared.spare child false }
  else none

end Shared

/-- The point of the pool's code at which a thread is; the monitor thread outside its
calls and a thread in a call on the monitor are outside the pool's code. -/
def Point.pc : Point → Pc
  | .pool pc => pc
  | .control (.client last) _ => .client last
  | .control .destroy _ => .destroy .monitorStop
  | .monitor (.calling pc) => pc
  | .monitor _ => .client none

/-- An instruction of the pool; `embed` tells where the thread goes on. -/
def fromPool (embed : Pc → Point) : PoolInstr ι → MonitorInstr ι :=
  Instr.lift Shared.pool (fun shared pool => { shared with pool }) embed .pool Point.pc
    MonitorInput.toPool

def loadShared (next : Shared ι → Point) : MonitorInstr ι := .read fun shared _ => some (next shared)

def storeShared (write : Shared ι → Shared ι) (next : Point) : MonitorInstr ι :=
  .act fun shared _ => some (write shared, next)

/-- `pthread_create(&m->tid, …)`, which may fail. -/
def createThread (created failed : Point) : MonitorInstr ι := .act fun shared input =>
  match input with
  | .thread (some child) => (shared.createMonitor child).map fun shared => (shared, created)
  | .thread none => some (shared, failed)
  | _ => none

/-- `pthread_join(m->tid, NULL)`. -/
def joinThread (next : Point) : MonitorInstr ι := .join
  (fun shared j point => decide (shared.tid = some j) && decide (point ≠ .monitor .exited)) next

/-- Where the monitor goes on behind an instruction of the pool. -/
def monitorReturn : Pc → Point
  | .client none => .monitor .loop
  | pc => .monitor (.calling pc)

def monitorThread (me : ι) : MonitorPc → MonitorInstr ι
  | .unborn => .read fun shared _ => if shared.spare me then none else some (.monitor .loadInit)
  | .loadInit => loadShared fun shared => .monitor (if shared.everInit then .loop else .storeInit)
  | .storeInit => storeShared (fun shared => { shared with everInit := true }) (.monitor .loop)
  | .loop => loadShared fun shared => .monitor (if shared.running then .getch else .exited)
  | .getch => .read fun _ input =>
      match input with
      | .key .pause => some (.monitor .testPause)
      | .key .resume => some (.monitor .testResume)
      | .key .quit => some (.monitor .quit)
      | .key .other => some (.monitor .loop)
      | _ => none
  | .testPause => loadShared fun shared =>
      .monitor (if shared.pool.paused then .loop else .calling .pause)
  | .testResume => loadShared fun shared =>
      .monitor (if shared.pool.paused then .calling (.resume .client) else .loop)
  | .calling pc => fromPool monitorReturn (Pool.code me pc)
  | .quit => storeShared (·.setRunning false) (.monitor .loop)
  | .exited => .halt

def monitorStart (caller : Caller) : StartPc → MonitorInstr ι
  | .load => loadShared fun shared =>
      .control caller (if shared.running then .returned none else .start .store)
  | .store => storeShared (·.setRunning true) (.control caller (.start .create))
  | .create => createThread (.control caller (.start .setValid)) (.control caller (.start .undo))
  | .undo => storeShared (·.setRunning false) (.control caller (.returned none))
  | .setValid => storeShared (·.setValid true) (.control caller (.returned none))

def monitorStop (caller : Caller) : StopPc → MonitorInstr ι
  | .load => loadShared fun shared =>
      .control caller (.stop (if shared.running then .store else .testValid))
  | .store => storeShared (·.setRunning false) (.control caller (.stop .testValid))
  | .testValid => loadShared fun shared =>
      .control caller (if shared.tidValid then .stop .join else .returned none)
  | .join => joinThread (.control caller (.stop .clearValid))
  | .clearValid => storeShared (·.setValid false) (.control caller (.returned none))

def monitorDetach (caller : Caller) : DetachPc → MonitorInstr ι
  | .load => loadShared fun shared =>
      .control caller (if shared.running then .detach .store else .returned (some (-1)))
  | .store => storeShared (·.setRunning false) (.control caller (.detach .join))
  | .join => joinThread (.control caller (.detach .clearValid))
  | .clearValid => storeShared (·.setValid false) (.control caller (.returned (some 0)))

def monitorReattach (caller : Caller) : ReattachPc → MonitorInstr ι
  | .load => loadShared fun shared =>
      .control caller (if shared.running then .returned (some (-1)) else .reattach .loadInit)
  | .loadInit => loadShared fun shared =>
      .control caller (if shared.everInit then .reattach .testValid else .returned (some (-1)))
  | .testValid => loadShared fun shared =>
      .control caller (.reattach (if shared.tidValid then .join else .store))
  | .join => joinThread (.control caller (.reattach .clearValid))
  | .clearValid => storeShared (·.setValid false) (.control caller (.reattach .store))
  | .store => storeShared (·.setRunning true) (.control caller (.reattach .create))
  | .create => createThread (.control caller (.reattach .setValid)) (.control caller (.reattach .undo))
  | .undo => storeShared (·.setRunning false) (.control caller (.returned (some (-1))))
  | .setValid => storeShared (·.setValid true) (.control caller (.returned (some 0)))

def Caller.return : Caller → Pc
  | .client last => .client last
  | .destroy => .destroy .joinWorkers

def controlCode (caller : Caller) : ControlPc → MonitorInstr ι
  | .start pc => monitorStart caller pc
  | .stop pc => monitorStop caller pc
  | .detach pc => monitorDetach caller pc
  | .reattach pc => monitorReattach caller pc
  | .returned _ => loadShared fun _ => .pool caller.return

def code (me : ι) : Point → MonitorInstr ι
  | .pool (.client last) => .read fun _ input =>
      match input with
      | .pool (.call call) => some (.pool call.entry)
      | .control call => some (.control (.client last) call.entry)
      | _ => none
  | .pool (.destroy .monitorStop) => loadShared fun _ => .control .destroy (.stop .load)
  | .pool pc => fromPool .pool (Pool.code me pc)
  | .control caller pc => controlCode caller pc
  | .monitor pc => monitorThread me pc

def monitored : Program ι Mutex Cond (Shared ι) Point (MonitorInput ι) where
  code := code
  dormant point := decide (point = .pool .dormant)

/-- The threads of the pool, and those that can become monitor threads. -/
inductive MonitoredRole where
  | pool (role : Role)
  | monitor
deriving DecidableEq

def MonitoredRole.start : MonitoredRole → Point
  | .pool role => .pool role.start
  | .monitor => .monitor .unborn

/-- For the pool a monitor thread is an application thread. -/
def MonitoredRole.role : MonitoredRole → Role
  | .pool role => role
  | .monitor => .client

/-- The state behind `thread_pool_init`, with no monitor thread. -/
def monitoredInit (roles : ι → MonitoredRole) (idCount : Nat) : MonitoredConfig ι where
  memory :=
    { pool := (threadPoolInit (fun i => (roles i).role) idCount).memory
      tid := none
      tidValid := false
      running := false
      everInit := false
      spare := fun i => decide (roles i = .monitor) }
  owner _ := none
  threads i := .ready (roles i).start

end ThreadPool.Monitor
