import ThreadPool.Foundation.Accesses
import ThreadPool.Foundation.Locks
import ThreadPool.Server.Stats

namespace ThreadPool.Server

open Foundation

/-! # Server-sent events

The part of `http_server.c` behind `GET /admin/events`: threads that change gauges and call
`notify_event`, the broadcaster, the admin listener with its handler, and the end of `main`.
Each load of a gauge, each write to a descriptor and each operation on a mutex or condition
variable is one step; `bcast_gen` and the table of subscribers are accessed under their
mutexes.
-/

inductive Mutex where
  | bcastMtx
  | clientsMutex
deriving DecidableEq

inductive Cond where
  | bcastCond
deriving DecidableEq

abbrev Fd := Nat

/-- What is written to a subscriber: the response header, `data: %s`, or `: ping`. -/
inductive Frame where
  | header
  | data (payload : String)
  | ping
deriving DecidableEq

/-- The frame that the broadcaster sends: a payload, or a ping without one. -/
def sentFrame (payload : Option String) : Frame := (payload.map Frame.data).getD .ping

/-- The payload of the last data frame; the newest frame comes first. -/
def lastData : List Frame → Option String
  | [] => none
  | .data payload :: _ => some payload
  | .header :: older => lastData older
  | .ping :: older => lastData older

/-- What has happened so far; no branch of the program depends on it. -/
structure Journal where
  /-- The number of gauge changes. -/
  version : Nat := 0
  /-- The version at which the last completed iteration of the broadcaster began its snapshot. -/
  covered : Option Nat := none
  /-- The number of connections that the admin listener has accepted. -/
  visits : Nat := 0
  /-- That number when the broadcaster began to send the payload it holds in `last`. -/
  sentVisits : Option Nat := none

def maxSseClients : Nat := 64

structure Memory where
  context : Context
  gauges : Gauges
  bcastGen : Nat
  running : Bool
  /-- The first `count` descriptors of `sse_clients`. -/
  clients : List Fd
  opened : Fd → Bool
  received : Fd → List Frame
  journal : Journal

namespace Memory

def change (memory : Memory) (gauges : Gauges) : Memory :=
  { memory with gauges, journal.version := memory.journal.version + 1 }

def bump (memory : Memory) : Memory :=
  { memory with bcastGen := (memory.bcastGen + 1) % 2 ^ 64 }

/-- `accept` returns a descriptor that is not in use. -/
def accept (memory : Memory) (fd : Fd) : Memory :=
  { memory with
    opened := Function.update memory.opened fd true
    received := Function.update memory.received fd []
    journal.visits := memory.journal.visits + 1 }

/-- A successful `write_all`. -/
def write (memory : Memory) (fd : Fd) (frame : Frame) : Memory :=
  { memory with received := Function.update memory.received fd (frame :: memory.received fd) }

def close (memory : Memory) (fd : Fd) : Memory :=
  { memory with opened := Function.update memory.opened fd false }

/-- The loop body of `sse_send_all` for a client whose write succeeds. -/
def keep (memory : Memory) (fd : Fd) (n : Nat) (frame : Frame) : Memory :=
  { memory.write fd frame with clients := memory.clients.set n fd }

def snapshot (memory : Memory) : String := memory.gauges.snapshot memory.context

end Memory

inductive NotifyCaller where
  | gauge
  | main
deriving DecidableEq

inductive NotifyPc where
  | lock
  | bump
  | signal
  | unlock
deriving DecidableEq

/-- `sse_send_all`; in the loop, `i` clients are done and `n` of them were kept. -/
inductive SendPc where
  | lock
  | begin
  | write (visits i n : Nat)
  | unlock (visits : Nat)
deriving DecidableEq

/-- The variables of the broadcaster that outlive an iteration. -/
structure Local where
  last : String
  seen : Nat
deriving DecidableEq

/-- `sse_broadcaster`. `since` is the version at which the snapshot was begun; a payload
that is sent is `some`, a ping `none`. -/
inductive BroadcastPc where
  | top (b : Local)
  | lock (b : Local)
  | test (b : Local)
  | wait (b : Local)
  | waited (b : Local)
  | grab (b : Local)
  | unlock (b : Local) (timedOut : Bool)
  | checkRunning (b : Local) (timedOut : Bool)
  | snapshot (b : Local) (timedOut : Bool) (since : Nat) (pc : SnapshotPc)
  | compare (b : Local) (timedOut : Bool) (since : Nat) (payload : String)
  | send (b : Local) (since : Nat) (payload : Option String) (pc : SendPc)
  | finish (b : Local) (since : Nat) (payload : Option String) (visits : Nat)
  | exited (b : Local)
deriving DecidableEq

/-- `admin_listener`, with the handler of `/admin/events` and `sse_register` in place. -/
inductive AdminPc where
  | top
  | poll
  | snapshot (fd : Fd) (pc : SnapshotPc)
  | writeHeader (fd : Fd) (body : String)
  | writeFrame (fd : Fd) (body : String)
  | lock (fd : Fd) (body : String)
  | register (fd : Fd) (body : String)
  | unlock (fd : Fd) (registered : Bool)
  | close (fd : Fd)
  | exited
deriving DecidableEq

/-- The end of `main`. -/
inductive MainPc where
  | serving
  | joinAdmin
  | joinBroadcaster
  | closeLock
  | closeAll
  | closeUnlock
  | done
deriving DecidableEq

inductive Pc where
  /-- A thread between two changes of gauges. -/
  | gauge
  | notify (caller : NotifyCaller) (pc : NotifyPc)
  | broadcaster (pc : BroadcastPc)
  | admin (pc : AdminPc)
  | main (pc : MainPc)
deriving DecidableEq

/-- What a step receives from outside: new gauges or a notification, a connection, the
outcome of a timed wait or of a write, the end of the server. -/
inductive Input where
  | none
  | change (gauges : Gauges)
  | notify
  | accept (fd : Fd)
  | timedOut (expired : Bool)
  | write (success : Bool)
  | stop

abbrev EventInstr (ι : Type) := Instr (Option ι) Mutex Cond Memory Pc Input

abbrev EventConfig (ι : Type) := Config (Option ι) Mutex Cond Memory Pc

section Code

variable {ι : Type}

def load (next : Memory → Pc) : EventInstr ι := .read fun memory _ => some (next memory)

def update (write : Memory → Memory) (next : Pc) : EventInstr ι :=
  .act fun memory _ => some (write memory, next)

/-- A gauge really changes, and a notification may follow each change or several. -/
def changeGauges : EventInstr ι := .act fun memory input =>
  match input with
  | .change gauges => if gauges = memory.gauges then none else some (memory.change gauges, .gauge)
  | .notify => some (memory, .notify .gauge .lock)
  | _ => none

def notifyEvent (caller : NotifyCaller) : NotifyPc → EventInstr ι
  | .lock => .lock .bcastMtx (.notify caller .bump)
  | .bump => update Memory.bump (.notify caller .signal)
  | .signal => .signal .bcastCond (.notify caller .unlock)
  | .unlock => .unlock .bcastMtx (match caller with
      | .gauge => .gauge
      | .main => .main .joinBroadcaster)

def sseSendAll (b : Local) (since : Nat) (payload : Option String) : SendPc → EventInstr ι
  | .lock => .lock .clientsMutex (.broadcaster (.send b since payload .begin))
  | .begin => load fun memory =>
      .broadcaster (.send b since payload (.write memory.journal.visits 0 0))
  | .write visits i n => .act fun memory input =>
      match memory.clients[i]?, input with
      | some cfd, .write true =>
          some (memory.keep cfd n (sentFrame payload),
            .broadcaster (.send b since payload (.write visits (i + 1) (n + 1))))
      | some cfd, .write false =>
          some (memory.close cfd, .broadcaster (.send b since payload (.write visits (i + 1) n)))
      | none, _ => some ({ memory with clients := memory.clients.take n },
          .broadcaster (.send b since payload (.unlock visits)))
      | _, _ => none
  | .unlock visits => .unlock .clientsMutex (.broadcaster (.finish b since payload visits))

def sseBroadcaster : BroadcastPc → EventInstr ι
  | .top b => load fun memory =>
      .broadcaster (if memory.running then .lock b else .exited b)
  | .lock b => .lock .bcastMtx (.broadcaster (.test b))
  | .test b => load fun memory =>
      .broadcaster (if memory.running ∧ memory.bcastGen = b.seen then .wait b else .grab b)
  | .wait b => .wait .bcastCond .bcastMtx (.broadcaster (.waited b))
  | .waited b => .read fun _ input =>
      match input with
      | .timedOut expired => some (.broadcaster (if expired then .grab b else .test b))
      | _ => none
  | .grab b => load fun memory => .broadcaster
      (.unlock { b with seen := memory.bcastGen } (decide (memory.bcastGen = b.seen)))
  | .unlock b timedOut => .unlock .bcastMtx (.broadcaster (.checkRunning b timedOut))
  | .checkRunning b timedOut => load fun memory => .broadcaster (if memory.running then
      .snapshot b timedOut memory.journal.version memory.context.startSnapshot else .exited b)
  | .snapshot b timedOut since pc => load fun memory => .broadcaster
      (match formatStatsJson memory.context memory.gauges pc with
      | .inl next => .snapshot b timedOut since next
      | .inr payload => .compare b timedOut since payload)
  | .compare b timedOut since payload => .act fun memory _ =>
      if payload ≠ b.last then
        some ({ memory with journal.sentVisits := none },
          .broadcaster (.send b since (some payload) .lock))
      else some (memory,
        .broadcaster (if timedOut then .send b since none .lock else .finish b since none 0))
  | .send b since payload pc => sseSendAll b since payload pc
  | .finish b since payload visits => update
      (fun memory => { memory with
        journal.covered := some since
        journal.sentVisits := if payload.isSome then some visits else memory.journal.sentVisits })
      (.broadcaster (.top { b with last := payload.getD b.last }))
  | .exited _ => .halt

def adminListener : AdminPc → EventInstr ι
  | .top => load fun memory => .admin (if memory.running then .poll else .exited)
  | .poll => .act fun memory input =>
      match input with
      | .accept fd =>
          if memory.opened fd then none
          else some (memory.accept fd, .admin (.snapshot fd memory.context.startSnapshot))
      | .none => some (memory, .admin .top)
      | _ => none
  | .snapshot fd pc => load fun memory => .admin
      (match formatStatsJson memory.context memory.gauges pc with
      | .inl next => .snapshot fd next
      | .inr body => .writeHeader fd body)
  | .writeHeader fd body => .act fun memory input =>
      match input with
      | .write true => some (memory.write fd .header, .admin (.writeFrame fd body))
      | .write false => some (memory, .admin (.close fd))
      | _ => none
  | .writeFrame fd body => .act fun memory input =>
      match input with
      | .write true => some (memory.write fd (.data body), .admin (.lock fd body))
      | .write false => some (memory, .admin (.close fd))
      | _ => none
  | .lock fd body => .lock .clientsMutex (.admin (.register fd body))
  | .register fd _ => .act fun memory _ =>
      if memory.clients.length < maxSseClients then
        some ({ memory with clients := memory.clients ++ [fd] }, .admin (.unlock fd true))
      else some (memory, .admin (.unlock fd false))
  | .unlock fd registered => .unlock .clientsMutex
      (.admin (if registered then .top else .close fd))
  | .close fd => update (·.close fd) (.admin .top)
  | .exited => .halt

def Pc.liveAdmin : Pc → Bool
  | .admin .exited => false
  | .admin _ => true
  | _ => false

def Pc.liveBroadcaster : Pc → Bool
  | .broadcaster (.exited _) => false
  | .broadcaster _ => true
  | _ => false

def mainEnd : MainPc → EventInstr ι
  | .serving => .act fun memory input =>
      match input with
      | .stop => some ({ memory with running := false }, .main .joinAdmin)
      | _ => none
  | .joinAdmin => .join (fun _ _ pc => pc.liveAdmin) (.notify .main .lock)
  | .joinBroadcaster => .join (fun _ _ pc => pc.liveBroadcaster) (.main .closeLock)
  | .closeLock => .lock .clientsMutex (.main .closeAll)
  | .closeAll => update
      (fun memory => { memory with
        opened := fun fd => memory.opened fd && !memory.clients.contains fd
        clients := [] })
      (.main .closeUnlock)
  | .closeUnlock => .unlock .clientsMutex (.main .done)
  | .done => .halt

def code : Pc → EventInstr ι
  | .gauge => changeGauges
  | .notify caller pc => notifyEvent caller pc
  | .broadcaster pc => sseBroadcaster pc
  | .admin pc => adminListener pc
  | .main pc => mainEnd pc

def events : Program (Option ι) Mutex Cond Memory Pc Input where
  code _ := code
  dormant _ := false

inductive Role where
  | gauge
  | admin
  | main
deriving DecidableEq

def Role.start : Role → Pc
  | .gauge => .gauge
  | .admin => .admin .top
  | .main => .main .serving

/-- The broadcaster is the thread `none`. -/
def eventsStart (context : Context) (gauges : Gauges) (roles : ι → Role) : EventConfig ι where
  memory :=
    { context, gauges
      bcastGen := 0
      running := true
      clients := []
      opened := fun _ => false
      received := fun _ => []
      journal := {} }
  owner _ := none
  threads
    | none => .ready (.broadcaster (.top { last := "", seen := 0 }))
    | some i => .ready (roles i).start

theorem events_flat : (events : Program (Option ι) Mutex Cond Memory Pc Input).Flat := by
  intro i pc
  constructor
  · intro mutex next enter
    change code pc = _ at enter
    cases pc with
    | gauge => cases enter
    | broadcaster pc =>
        cases pc with
        | send b since payload pc => cases pc <;> cases enter
        | _ => cases enter
    | notify caller pc | admin pc | main pc => cases pc <;> cases enter
  · intro start next fork
    change code pc = _ at fork
    cases pc with
    | gauge => cases fork
    | broadcaster pc =>
        cases pc with
        | send b since payload pc => cases pc <;> cases fork
        | _ => cases fork
    | notify caller pc | admin pc | main pc => cases pc <;> cases fork

end Code

/-- A write to a descriptor fails in this step. -/
def Input.fails : Input → Bool
  | .write false => true
  | _ => false

def writeFails {ι : Type} : Label (Option ι) Input → Bool
  | .run _ input => input.fails
  | _ => false

/-- What a thread can do from each program point: the memory and the point behind it;
`fails` allows for a failing write. -/
inductive Steps (memory : Memory) (fails : Bool) : Pc → Memory → Pc → Prop
  | change (gauges) : gauges ≠ memory.gauges → Steps memory fails .gauge (memory.change gauges) .gauge
  | callNotify : Steps memory fails .gauge memory (.notify .gauge .lock)
  | notifyLock (caller) : Steps memory fails (.notify caller .lock) memory (.notify caller .bump)
  | bump (caller) : Steps memory fails (.notify caller .bump) memory.bump (.notify caller .signal)
  | signal (caller) : Steps memory fails (.notify caller .signal) memory (.notify caller .unlock)
  | gaugeNotified : Steps memory fails (.notify .gauge .unlock) memory .gauge
  | mainNotified : Steps memory fails (.notify .main .unlock) memory (.main .joinBroadcaster)
  | topRunning (b) : memory.running = true →
      Steps memory fails (.broadcaster (.top b)) memory (.broadcaster (.lock b))
  | topStopped (b) : memory.running = false →
      Steps memory fails (.broadcaster (.top b)) memory (.broadcaster (.exited b))
  | lock (b) : Steps memory fails (.broadcaster (.lock b)) memory (.broadcaster (.test b))
  | testSame (b) : memory.running = true → memory.bcastGen = b.seen →
      Steps memory fails (.broadcaster (.test b)) memory (.broadcaster (.wait b))
  | testNew (b) : ¬ (memory.running = true ∧ memory.bcastGen = b.seen) →
      Steps memory fails (.broadcaster (.test b)) memory (.broadcaster (.grab b))
  | wait (b) : Steps memory fails (.broadcaster (.wait b)) memory (.broadcaster (.waited b))
  | expired (b) : Steps memory fails (.broadcaster (.waited b)) memory (.broadcaster (.grab b))
  | woken (b) : Steps memory fails (.broadcaster (.waited b)) memory (.broadcaster (.test b))
  | grab (b) : Steps memory fails (.broadcaster (.grab b)) memory
      (.broadcaster (.unlock { b with seen := memory.bcastGen } (decide (memory.bcastGen = b.seen))))
  | unlock (b timedOut) : Steps memory fails (.broadcaster (.unlock b timedOut)) memory
      (.broadcaster (.checkRunning b timedOut))
  | begins (b timedOut) : memory.running = true →
      Steps memory fails (.broadcaster (.checkRunning b timedOut)) memory (.broadcaster
        (.snapshot b timedOut memory.journal.version memory.context.startSnapshot))
  | stopped (b timedOut) : memory.running = false →
      Steps memory fails (.broadcaster (.checkRunning b timedOut)) memory (.broadcaster (.exited b))
  | reads (b timedOut since pc next) : formatStatsJson memory.context memory.gauges pc = .inl next →
      Steps memory fails (.broadcaster (.snapshot b timedOut since pc)) memory
        (.broadcaster (.snapshot b timedOut since next))
  | prints (b timedOut since pc payload) :
      formatStatsJson memory.context memory.gauges pc = .inr payload →
      Steps memory fails (.broadcaster (.snapshot b timedOut since pc)) memory
        (.broadcaster (.compare b timedOut since payload))
  | differs (b timedOut since payload) : payload ≠ b.last →
      Steps memory fails (.broadcaster (.compare b timedOut since payload))
        { memory with journal.sentVisits := none } (.broadcaster (.send b since (some payload) .lock))
  | pings (b since payload) : payload = b.last →
      Steps memory fails (.broadcaster (.compare b true since payload)) memory
        (.broadcaster (.send b since none .lock))
  | skips (b since payload) : payload = b.last →
      Steps memory fails (.broadcaster (.compare b false since payload)) memory
        (.broadcaster (.finish b since none 0))
  | sendLock (b since payload) : Steps memory fails (.broadcaster (.send b since payload .lock)) memory
      (.broadcaster (.send b since payload .begin))
  | sendBegin (b since payload) : Steps memory fails (.broadcaster (.send b since payload .begin)) memory
      (.broadcaster (.send b since payload (.write memory.journal.visits 0 0)))
  | keep (b since payload visits i n cfd) : memory.clients[i]? = some cfd →
      Steps memory fails (.broadcaster (.send b since payload (.write visits i n)))
        (memory.keep cfd n (sentFrame payload))
        (.broadcaster (.send b since payload (.write visits (i + 1) (n + 1))))
  | drop (b since payload visits i n cfd) : fails = true → memory.clients[i]? = some cfd →
      Steps memory fails (.broadcaster (.send b since payload (.write visits i n))) (memory.close cfd)
        (.broadcaster (.send b since payload (.write visits (i + 1) n)))
  | sendEnd (b since payload visits i n) : memory.clients[i]? = none →
      Steps memory fails (.broadcaster (.send b since payload (.write visits i n)))
        { memory with clients := memory.clients.take n }
        (.broadcaster (.send b since payload (.unlock visits)))
  | sendUnlock (b since payload visits) :
      Steps memory fails (.broadcaster (.send b since payload (.unlock visits))) memory
        (.broadcaster (.finish b since payload visits))
  | finish (b since payload visits) : Steps memory fails (.broadcaster (.finish b since payload visits))
      { memory with
        journal.covered := some since
        journal.sentVisits := if payload.isSome then some visits else memory.journal.sentVisits }
      (.broadcaster (.top { b with last := payload.getD b.last }))
  | adminRunning : memory.running = true → Steps memory fails (.admin .top) memory (.admin .poll)
  | adminStopped : memory.running = false → Steps memory fails (.admin .top) memory (.admin .exited)
  | accept (fd) : memory.opened fd = false → Steps memory fails (.admin .poll) (memory.accept fd)
      (.admin (.snapshot fd memory.context.startSnapshot))
  | idle : Steps memory fails (.admin .poll) memory (.admin .top)
  | adminReads (fd pc next) : formatStatsJson memory.context memory.gauges pc = .inl next →
      Steps memory fails (.admin (.snapshot fd pc)) memory (.admin (.snapshot fd next))
  | adminPrints (fd pc body) : formatStatsJson memory.context memory.gauges pc = .inr body →
      Steps memory fails (.admin (.snapshot fd pc)) memory (.admin (.writeHeader fd body))
  | writeHeader (fd body) : Steps memory fails (.admin (.writeHeader fd body)) (memory.write fd .header)
      (.admin (.writeFrame fd body))
  | headerFails (fd body) : fails = true →
      Steps memory fails (.admin (.writeHeader fd body)) memory (.admin (.close fd))
  | writeFrame (fd body) : Steps memory fails (.admin (.writeFrame fd body))
      (memory.write fd (.data body)) (.admin (.lock fd body))
  | frameFails (fd body) : fails = true →
      Steps memory fails (.admin (.writeFrame fd body)) memory (.admin (.close fd))
  | registerLock (fd body) :
      Steps memory fails (.admin (.lock fd body)) memory (.admin (.register fd body))
  | register (fd body) : memory.clients.length < maxSseClients →
      Steps memory fails (.admin (.register fd body)) { memory with clients := memory.clients ++ [fd] }
        (.admin (.unlock fd true))
  | full (fd body) : ¬ memory.clients.length < maxSseClients →
      Steps memory fails (.admin (.register fd body)) memory (.admin (.unlock fd false))
  | registered (fd) : Steps memory fails (.admin (.unlock fd true)) memory (.admin .top)
  | unregistered (fd) : Steps memory fails (.admin (.unlock fd false)) memory (.admin (.close fd))
  | close (fd) : Steps memory fails (.admin (.close fd)) (memory.close fd) (.admin .top)
  | stop : Steps memory fails (.main .serving) { memory with running := false } (.main .joinAdmin)
  | joinAdmin : Steps memory fails (.main .joinAdmin) memory (.notify .main .lock)
  | joinBroadcaster : Steps memory fails (.main .joinBroadcaster) memory (.main .closeLock)
  | closeLock : Steps memory fails (.main .closeLock) memory (.main .closeAll)
  | closeAll : Steps memory fails (.main .closeAll)
      { memory with
        opened := fun fd => memory.opened fd && !memory.clients.contains fd
        clients := [] }
      (.main .closeUnlock)
  | closeUnlock : Steps memory fails (.main .closeUnlock) memory (.main .done)

section Inversion

variable {ι : Type} {memory after : Memory} {next : Pc} {input : Input}

theorem code_sync {pc : Pc} {fails : Bool} (sync : (code pc : EventInstr ι).sync = some next) :
    Steps memory fails pc memory next := by
  cases pc with
  | gauge => cases sync
  | notify caller pc =>
      cases pc <;> cases sync <;> first | constructor | (cases caller <;> constructor)
  | broadcaster pc =>
      cases pc with
      | send b since payload pc => cases pc <;> cases sync <;> constructor
      | _ => cases sync <;> constructor
  | admin pc =>
      cases pc with
      | unlock fd registered =>
          cases sync
          cases registered <;> constructor
      | _ => cases sync <;> constructor
  | main pc => cases pc <;> cases sync <;> constructor

theorem send_access {b : Local} {since : Nat} {payload : Option String} {pc : SendPc}
    (body : (sseSendAll b since payload pc : EventInstr ι).body memory input = some (after, next)) :
    Steps memory input.fails (.broadcaster (.send b since payload pc)) after next := by
  cases pc with
  | begin =>
      cases body
      constructor
  | write visits i n =>
      simp only [sseSendAll, Instr.body] at body
      split at body
      case h_1 cfd here =>
        cases body
        exact .keep b since payload visits i n cfd here
      case h_2 cfd here =>
        cases body
        exact .drop b since payload visits i n cfd rfl here
      case h_3 here =>
        cases body
        exact .sendEnd b since payload visits i n here
      case h_4 => cases body
  | _ => cases body

theorem broadcaster_access {pc : BroadcastPc}
    (body : (sseBroadcaster pc : EventInstr ι).body memory input = some (after, next)) :
    Steps memory input.fails (.broadcaster pc) after next := by
  cases pc with
  | top b =>
      cases body
      dsimp only
      split
      case isTrue running => exact .topRunning b running
      case isFalse stopped => exact .topStopped b (Bool.eq_false_of_not_eq_true stopped)
  | test b =>
      cases body
      dsimp only
      split
      case isTrue same => exact .testSame b same.1 same.2
      case isFalse new => exact .testNew b new
  | waited b =>
      cases input with
      | timedOut expired =>
          cases expired <;> cases body
          · exact .woken b
          · exact .expired b
      | _ => cases body
  | grab b =>
      cases body
      exact .grab b
  | checkRunning b timedOut =>
      cases body
      dsimp only
      split
      case isTrue running => exact .begins b timedOut running
      case isFalse stopped => exact .stopped b timedOut (Bool.eq_false_of_not_eq_true stopped)
  | snapshot b timedOut since pc =>
      cases body
      dsimp only
      split
      case h_1 read next found => exact .reads b timedOut since pc next found
      case h_2 read payload found => exact .prints b timedOut since pc payload found
  | compare b timedOut since payload =>
      simp only [sseBroadcaster, Instr.body] at body
      split at body
      case isTrue different =>
        cases body
        exact .differs b timedOut since payload different
      case isFalse same =>
        cases timedOut <;> cases body
        · exact .skips b since payload (not_not.mp same)
        · exact .pings b since payload (not_not.mp same)
  | send b since payload pc => exact send_access body
  | finish b since payload visits =>
      cases body
      constructor
  | _ => cases body

theorem admin_access {pc : AdminPc}
    (body : (adminListener pc : EventInstr ι).body memory input = some (after, next)) :
    Steps memory input.fails (.admin pc) after next := by
  cases pc with
  | top =>
      cases body
      dsimp only
      split
      case isTrue running => exact .adminRunning running
      case isFalse stopped => exact .adminStopped (Bool.eq_false_of_not_eq_true stopped)
  | poll =>
      cases input with
      | accept fd =>
          simp only [adminListener, Instr.body] at body
          split at body
          case isTrue => cases body
          case isFalse closed =>
            cases body
            exact .accept fd (Bool.eq_false_of_not_eq_true closed)
      | none =>
          cases body
          constructor
      | _ => cases body
  | snapshot fd pc =>
      cases body
      dsimp only
      split
      case h_1 read next found => exact .adminReads fd pc next found
      case h_2 read text found => exact .adminPrints fd pc text found
  | writeHeader fd text =>
      cases input with
      | write success =>
          cases success <;> cases body
          · exact .headerFails fd text rfl
          · exact .writeHeader fd text
      | _ => cases body
  | writeFrame fd text =>
      cases input with
      | write success =>
          cases success <;> cases body
          · exact .frameFails fd text rfl
          · exact .writeFrame fd text
      | _ => cases body
  | register fd text =>
      simp only [adminListener, Instr.body] at body
      split at body
      case isTrue room =>
        cases body
        exact .register fd text room
      case isFalse full =>
        cases body
        exact .full fd text full
  | close fd =>
      cases body
      constructor
  | _ => cases body

theorem code_access {pc : Pc} (body : (code pc : EventInstr ι).body memory input = some (after, next)) :
    Steps memory input.fails pc after next := by
  cases pc with
  | gauge =>
      cases input with
      | change gauges =>
          simp only [code, changeGauges, Instr.body] at body
          split at body
          case isTrue => cases body
          case isFalse different =>
            cases body
            exact .change gauges different
      | notify =>
          cases body
          constructor
      | _ => cases body
  | notify caller pc =>
      cases pc <;> cases body
      constructor
  | broadcaster pc => exact broadcaster_access body
  | admin pc => exact admin_access body
  | main pc =>
      cases pc with
      | serving =>
          cases input with
          | stop =>
              cases body
              constructor
          | _ => cases body
      | closeAll =>
          cases body
          constructor
      | _ => cases body

variable [DecidableEq ι] {config final : EventConfig ι} {label : Label (Option ι) Input}

/-- Everything that a step of the server does to the memory and the program points. -/
theorem moves_steps (moves : Moves events config label final) :
    (final.memory = config.memory ∧ final.point = config.point) ∨
      ∃ next, Steps config.memory (writeFails label) (config.point label.thread) final.memory next ∧
        final.point = Function.update config.point label.thread next := by
  cases moves.stride events_flat with
  | still memory points => exact .inl ⟨memory, points⟩
  | sync sync memory points =>
      refine .inr ⟨_, ?_, points⟩
      rw [memory]
      exact code_sync sync
  | @access input next same body points =>
      have fails : writeFails label = input.fails := by rw [same]; rfl
      refine .inr ⟨_, ?_, points⟩
      rw [fails]
      exact code_access body

end Inversion

end ThreadPool.Server
