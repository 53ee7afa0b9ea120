import ThreadPool.Foundation.Handles
import ThreadPool.Foundation.Accesses
import ThreadPool.Server.Request

namespace ThreadPool.Server.Connections

open Foundation

/-! # Connections of the server

The accept loop of `main` and `handle_connection`. The loop hands each connection over in
a `conn_arg_t`, to the pool or to a thread of its own; the handler frees the argument,
answers and closes the descriptor. Each call that can fail gets its outcome as an input.
Descriptors and blocks are handles, so that a number that is used again can be told from
the one that was closed or freed. The pool is a bag of accepted tasks, from which a worker
takes any.
-/

inductive ServerMode where
  | pool
  | naive
deriving DecidableEq

inductive Errno where
  | eintr
  | ebadf
  | other
deriving DecidableEq

/-- What a connection was answered with. -/
structure Answer where
  origin : Nat
  status : Nat
  rendered : Bool
deriving DecidableEq

/-- What has happened to the connections, which are numbered as they are accepted; the
program never reads it. -/
structure Journal where
  /-- Counted in `active_connections`, and no longer counted. -/
  counted : List Nat := []
  uncounted : List Nat := []
  answers : List Answer := []

structure Memory where
  running : Bool := true
  activeConnections : BitVec 32 := 0
  totalServed : BitVec 64 := 0
  /-- The descriptors that `accept` has returned. -/
  sockets : Store Unit := {}
  /-- The `conn_arg_t` blocks, with their field `fd`. -/
  heap : Store Handle := {}
  /-- The arguments of the tasks that the pool has accepted and no worker has taken. -/
  queue : List Handle := []
  journal : Journal := {}

namespace Memory

variable (memory : Memory) (client conn : Handle)

def close : Memory := { memory with sockets := memory.sockets.release client }

def free : Memory := { memory with heap := memory.heap.release conn }

/-- `atomic_fetch_add(&active_connections, 1)`. -/
def count : Memory :=
  { memory with
    activeConnections := memory.activeConnections + 1#32
    journal.counted := client.origin :: memory.journal.counted }

/-- `atomic_fetch_sub(&active_connections, 1)`. -/
def uncount : Memory :=
  { memory with
    activeConnections := memory.activeConnections - 1#32
    journal.uncounted := client.origin :: memory.journal.uncounted }

/-- `atomic_fetch_add(&total_served, 1)`. -/
def serve : Memory := { memory with totalServed := memory.totalServed + 1#64 }

def answer (handled : Handled) : Memory :=
  { memory with
    journal.answers :=
      ⟨client.origin, handled.response.status, handled.rendered⟩ :: memory.journal.answers }

end Memory

/-- How far a connection is: the statement that comes next. -/
inductive Stage where
  /-- In the accept loop: `malloc`, and `close` where it failed. -/
  | accepted (client : Handle)
  | dropped (client : Handle)
  /-- The increment of `active_connections`, and the call that hands the connection over. -/
  | allocated (client conn : Handle)
  | counted (client conn : Handle)
  /-- `close`, `free` and the decrement behind a call that failed. -/
  | refused (client conn : Handle)
  | refusedClosed (client conn : Handle)
  | refusedFreed (client : Handle)
  /-- In the queue of the pool. -/
  | handed (conn : Handle)
  /-- In `handle_connection`: the load of `conn->fd`, and `free`. -/
  | begun (conn : Handle)
  | read (client conn : Handle)
  | receiving (client : Handle)
  | answering (client : Handle) (received : List Char)
  /-- `close` and the decrements and increments behind it. -/
  | closing (client : Handle) (rendered : Bool)
  | leaving (client : Handle) (rendered : Bool)
  | serving
deriving DecidableEq

inductive Pc where
  /-- `while (running)`, `accept`, and the checks of `errno`. -/
  | test
  | accept
  | failed (errno : Errno)
  /-- Behind the accept loop. -/
  | left
  /-- A worker between two tasks. -/
  | idle
  /-- A thread that is not created yet, or has returned. -/
  | unborn
  | exited
  /-- The signal handler, or the key listener at a quit. -/
  | interrupt
  | busy (stage : Stage)
deriving DecidableEq

/-- What a step receives from outside. -/
inductive Input where
  | go
  | accepted (fd : Nat)
  | acceptFails (errno : Errno)
  | block (addr : Option Nat)
  | submitted (success : Bool)
  /-- The position of the task that the worker takes. -/
  | task (n : Nat)
  | received (bytes : List Char)
  | recvFails
  /-- The iteration counts of the image, and whether its allocation succeeds. -/
  | render (iterations : Nat → Nat → Int) (allocated : Bool)

def reqMax : Nat := 4096

abbrev ServerInstr (ι : Type) := Instr ι Empty Empty Memory Pc Input

abbrev ServerConfig (ι : Type) := Config ι Empty Empty Memory Pc

section Code

variable {ι : Type}

/-- A statement that neither fails nor depends on an input. -/
def update (write : Memory → Memory) (next : Pc) : ServerInstr ι :=
  .act fun memory _ => some (write memory, next)

def accept : ServerInstr ι :=
  .act fun memory input =>
    match input with
    | .accepted fd => do
        let (client, sockets) ← memory.sockets.acquire fd ()
        return ({ memory with sockets }, .busy (.accepted client))
    | .acceptFails errno => some (memory, .failed errno)
    | _ => none

def allocate (client : Handle) : ServerInstr ι :=
  .act fun memory input =>
    match input with
    | .block (some addr) => do
        let (conn, heap) ← memory.heap.acquire addr client
        return ({ memory with heap }, .busy (.allocated client conn))
    | .block none => some (memory, .busy (.dropped client))
    | _ => none

/-- `thread_pool_submit`, or `pthread_create` with `naive_thread`. -/
def handOver (mode : ServerMode) (client conn : Handle) : ServerInstr ι :=
  match mode with
  | .pool => .act fun memory input =>
      match input with
      | .submitted true => some ({ memory with queue := memory.queue ++ [conn] }, .test)
      | .submitted false => some (memory, .busy (.refused client conn))
      | _ => none
  | .naive => .fork (.busy (.begun conn)) fun memory child =>
      (memory, if child.isSome then .test else .busy (.refused client conn))

/-- A worker returns to the queue; a thread of its own ends. -/
def finish : ServerMode → Pc
  | .pool => .idle
  | .naive => .exited

/-- The body of the accept loop behind `accept`. -/
def acceptLoop (mode : ServerMode) : Stage → ServerInstr ι
  | .accepted client => allocate client
  | .dropped client => update (·.close client) .test
  | .allocated client conn => update (·.count client) (.busy (.counted client conn))
  | .counted client conn => handOver mode client conn
  | .refused client conn => update (·.close client) (.busy (.refusedClosed client conn))
  | .refusedClosed client conn => update (·.free conn) (.busy (.refusedFreed client))
  | .refusedFreed client => update (·.uncount client) .test
  | _ => .halt

def handleConnection (mode : ServerMode) : Stage → ServerInstr ι
  | .begun conn => .read fun memory _ =>
      (memory.heap.read conn).map fun client => .busy (.read client conn)
  | .read client conn => update (·.free conn) (.busy (.receiving client))
  | .receiving client => .read fun _ input =>
      match input with
      | .received bytes =>
          if bytes ≠ [] ∧ bytes.length < reqMax then some (.busy (.answering client bytes)) else none
      | .recvFails => some (.busy (.closing client false))
      | _ => none
  | .answering client received => .act fun memory input =>
      match input with
      | .render iterations allocated => do
          let handled ← handleRequest iterations allocated received
          return (memory.answer client handled, .busy (.closing client handled.rendered))
      | _ => none
  | .closing client rendered => update (·.close client) (.busy (.leaving client rendered))
  | .leaving client rendered =>
      update (·.uncount client) (if rendered then .busy .serving else finish mode)
  | .serving => update (·.serve) (finish mode)
  | _ => .halt

/-- The stages in the accept loop. -/
def Stage.inLoop : Stage → Bool
  | .accepted _ => true
  | .dropped _ => true
  | .allocated .. => true
  | .counted .. => true
  | .refused .. => true
  | .refusedClosed .. => true
  | .refusedFreed _ => true
  | _ => false

/-- The stages in `handle_connection`. -/
def Stage.inHandler : Stage → Bool
  | .begun _ => true
  | .read .. => true
  | .receiving _ => true
  | .answering .. => true
  | .closing .. => true
  | .leaving .. => true
  | .serving => true
  | _ => false

def code (mode : ServerMode) : Pc → ServerInstr ι
  | .test => .read fun memory _ => some (if memory.running then .accept else .left)
  | .accept => accept
  | .failed errno => .read fun memory _ =>
      some (if errno = .eintr then .test
        else if memory.running = false ∨ errno = .ebadf then .left
        else .test)
  | .idle => .act fun memory input =>
      match input with
      | .task n => do
          let conn ← memory.queue[n]?
          return ({ memory with queue := memory.queue.eraseIdx n }, .busy (.begun conn))
      | _ => none
  | .interrupt => update (fun memory => { memory with running := false }) .exited
  | .busy stage => if stage.inLoop then acceptLoop mode stage else handleConnection mode stage
  | .left => .halt
  | .unborn => .halt
  | .exited => .halt

def server (mode : ServerMode) : Program ι Empty Empty Memory Pc Input where
  code _ := code mode
  dormant pc := pc = .unborn

inductive Role where
  | main
  | worker
  /-- A thread that can be created for a connection. -/
  | spare
  | interrupter
deriving DecidableEq

def Role.start : Role → Pc
  | .main => .test
  | .worker => .idle
  | .spare => .unborn
  | .interrupter => .interrupt

/-- The state in front of the accept loop. -/
def serverInit (roles : ι → Role) : ServerConfig ι where
  memory := {}
  owner := Empty.rec
  threads i := .ready (roles i).start

end Code

/-- What a step does to the memory and to the connection that it moves on; `permits` says
which outcomes the allocation of an image has. -/
inductive Progress (mode : ServerMode) (permits : Bool → Prop) (memory : Memory) :
    Option Stage → Memory → Option Stage → Prop
  | still (running) : Progress mode permits memory none { memory with running } none
  | accept {fd client sockets} : memory.sockets.acquire fd () = some (client, sockets) →
      Progress mode permits memory none { memory with sockets } (some (.accepted client))
  | allocate {client addr conn heap} : memory.heap.acquire addr client = some (conn, heap) →
      Progress mode permits memory (some (.accepted client)) { memory with heap }
        (some (.allocated client conn))
  | drop (client) :
      Progress mode permits memory (some (.accepted client)) memory (some (.dropped client))
  | closeDropped (client) :
      Progress mode permits memory (some (.dropped client)) (memory.close client) none
  | count (client conn) : Progress mode permits memory (some (.allocated client conn))
      (memory.count client) (some (.counted client conn))
  | submit (client conn queue) : mode = .pool → Progress mode permits memory
      (some (.counted client conn)) { memory with queue } (some (.handed conn))
  | create (client conn) : mode = .naive →
      Progress mode permits memory (some (.counted client conn)) memory (some (.begun conn))
  | refuse (client conn) :
      Progress mode permits memory (some (.counted client conn)) memory (some (.refused client conn))
  | closeRefused (client conn) : Progress mode permits memory (some (.refused client conn))
      (memory.close client) (some (.refusedClosed client conn))
  | freeRefused (client conn) : Progress mode permits memory (some (.refusedClosed client conn))
      (memory.free conn) (some (.refusedFreed client))
  | uncountRefused (client) :
      Progress mode permits memory (some (.refusedFreed client)) (memory.uncount client) none
  | take (conn queue) :
      Progress mode permits memory (some (.handed conn)) { memory with queue } (some (.begun conn))
  | read {conn client} : memory.heap.read conn = some client →
      Progress mode permits memory (some (.begun conn)) memory (some (.read client conn))
  | free (client conn) : Progress mode permits memory (some (.read client conn)) (memory.free conn)
      (some (.receiving client))
  | receive (client bytes) :
      Progress mode permits memory (some (.receiving client)) memory (some (.answering client bytes))
  | hangUp (client) :
      Progress mode permits memory (some (.receiving client)) memory (some (.closing client false))
  | answer {client received iterations allocated handled} : permits allocated →
      handleRequest iterations allocated received = some handled →
      Progress mode permits memory (some (.answering client received)) (memory.answer client handled)
        (some (.closing client handled.rendered))
  | close (client rendered) : Progress mode permits memory (some (.closing client rendered))
      (memory.close client) (some (.leaving client rendered))
  | leave (client) :
      Progress mode permits memory (some (.leaving client false)) (memory.uncount client) none
  | leaveServing (client) : Progress mode permits memory (some (.leaving client true))
      (memory.uncount client) (some .serving)
  | serve : Progress mode permits memory (some .serving) memory.serve none

/-- The points that the body of the accept loop leads to. -/
def Pc.inLoop : Pc → Bool
  | .test => true
  | .busy stage => stage.inLoop
  | _ => false

/-- The points that `handle_connection` leads to. -/
def Pc.inHandler (mode : ServerMode) : Pc → Bool
  | .busy stage => stage.inHandler
  | pc => pc = finish mode

theorem finish_inHandler (mode : ServerMode) : (finish mode).inHandler mode = true := by
  cases mode <;> rfl

def Pc.stages : Pc → Multiset Stage
  | .busy stage => {stage}
  | _ => 0

theorem finish_stages (mode : ServerMode) : (finish mode).stages = 0 := by
  cases mode <;> rfl

/-- The connections in the queue. -/
def Memory.queued (memory : Memory) : Multiset Stage := memory.queue.map Stage.handed

section Inversion

variable {ι : Type} {mode : ServerMode} {permits : Bool → Prop} {memory after : Memory} {pc next : Pc}
  {input : Input} {stage : Stage}

/-- A step of a thread moves one connection on, in its hands or in the queue. -/
def Advances (mode : ServerMode) (permits : Bool → Prop) (memory : Memory) (pc : Pc) (after : Memory)
    (next : Pc) : Prop :=
  ∃ before later rest, Progress mode permits memory before after later ∧
    pc.stages + memory.queued = before.elim 0 ({·}) + rest ∧
    next.stages + after.queued = later.elim 0 ({·}) + rest

theorem Progress.advances {before later : Option Stage}
    (progress : Progress mode permits memory before after later)
    (here : pc.stages = before.elim 0 ({·})) (there : next.stages = later.elim 0 ({·}))
    (queue : after.queue = memory.queue) : Advances mode permits memory pc after next :=
  ⟨before, later, memory.queued, progress, by rw [here], by rw [there, Memory.queued, queue]; rfl⟩

theorem acceptLoop_advances
    (body : (acceptLoop mode stage : ServerInstr ι).body memory input = some (after, next)) :
    Advances mode permits memory (.busy stage) after next ∧ next.inLoop = true := by
  cases stage with
  | accepted client =>
      cases input with
      | block addr =>
          cases addr with
          | none =>
              cases body
              exact ⟨(Progress.drop client).advances rfl rfl rfl, rfl⟩
          | some addr =>
              simp only [acceptLoop, allocate, Instr.body, Option.bind_eq_bind, Option.pure_def,
                Option.bind_eq_some_iff, Option.some.injEq, Prod.mk.injEq] at body
              obtain ⟨⟨conn, heap⟩, acquired, rfl, rfl⟩ := body
              exact ⟨(Progress.allocate acquired).advances rfl rfl rfl, rfl⟩
      | _ => cases body
  | dropped client =>
      cases body
      exact ⟨(Progress.closeDropped client).advances rfl rfl rfl, rfl⟩
  | allocated client conn =>
      cases body
      exact ⟨(Progress.count client conn).advances rfl rfl rfl, rfl⟩
  | counted client conn =>
      cases mode with
      | naive => cases body
      | pool =>
          cases input with
          | submitted success =>
              cases success with
              | false =>
                  cases body
                  exact ⟨(Progress.refuse client conn).advances rfl rfl rfl, rfl⟩
              | true =>
                  cases body
                  refine ⟨⟨_, _, _, .submit client conn _ rfl, rfl, ?_⟩, rfl⟩
                  rw [Memory.queued, List.map_append, ← Multiset.coe_add, add_left_comm]
                  exact add_comm ..
          | _ => cases body
  | refused client conn =>
      cases body
      exact ⟨(Progress.closeRefused client conn).advances rfl rfl rfl, rfl⟩
  | refusedClosed client conn =>
      cases body
      exact ⟨(Progress.freeRefused client conn).advances rfl rfl rfl, rfl⟩
  | refusedFreed client =>
      cases body
      exact ⟨(Progress.uncountRefused client).advances rfl rfl rfl, rfl⟩
  | _ => cases body

theorem handleConnection_advances
    (body : (handleConnection mode stage : ServerInstr ι).body memory input = some (after, next))
    (permitted : ∀ iterations allocated, input = .render iterations allocated → permits allocated) :
    Advances mode permits memory (.busy stage) after next ∧ next.inHandler mode = true := by
  cases stage with
  | begun conn =>
      simp only [handleConnection, Instr.body, Option.map_eq_some_iff, Prod.mk.injEq] at body
      obtain ⟨_, ⟨client, found, rfl⟩, rfl, rfl⟩ := body
      exact ⟨(Progress.read found).advances rfl rfl rfl, rfl⟩
  | read client conn =>
      cases body
      exact ⟨(Progress.free client conn).advances rfl rfl rfl, rfl⟩
  | receiving client =>
      cases input with
      | received bytes =>
          simp only [handleConnection, Instr.body, Option.map_eq_some_iff, Prod.mk.injEq,
            Option.ite_none_right_eq_some, Option.some.injEq] at body
          obtain ⟨_, ⟨_, rfl⟩, rfl, rfl⟩ := body
          exact ⟨(Progress.receive client bytes).advances rfl rfl rfl, rfl⟩
      | recvFails =>
          cases body
          exact ⟨(Progress.hangUp client).advances rfl rfl rfl, rfl⟩
      | _ => cases body
  | answering client received =>
      cases input with
      | render iterations allocated =>
          simp only [handleConnection, Instr.body, Option.bind_eq_bind, Option.pure_def,
            Option.bind_eq_some_iff, Option.some.injEq, Prod.mk.injEq] at body
          obtain ⟨handled, answered, rfl, rfl⟩ := body
          have allowed := permitted iterations allocated rfl
          exact ⟨(Progress.answer allowed answered).advances rfl rfl rfl, rfl⟩
      | _ => cases body
  | closing client rendered =>
      cases body
      exact ⟨(Progress.close client rendered).advances rfl rfl rfl, rfl⟩
  | leaving client rendered =>
      cases rendered with
      | false =>
          cases body
          exact ⟨(Progress.leave client).advances rfl (finish_stages mode) rfl, finish_inHandler mode⟩
      | true =>
          cases body
          exact ⟨(Progress.leaveServing client).advances rfl rfl rfl, rfl⟩
  | serving =>
      cases body
      exact ⟨Progress.serve.advances rfl (finish_stages mode) rfl, finish_inHandler mode⟩
  | _ => cases body

theorem code_advances
    (body : (code mode pc : ServerInstr ι).body memory input = some (after, next))
    (permitted : ∀ iterations allocated, input = .render iterations allocated → permits allocated) :
    Advances mode permits memory pc after next := by
  have still : ∀ {pc next : Pc}, pc.stages = 0 → next.stages = 0 →
      Advances mode permits memory pc memory next :=
    fun here there => (Progress.still memory.running).advances here there rfl
  cases pc with
  | busy stage =>
      rw [code] at body
      split at body
      · exact (acceptLoop_advances body).1
      · exact (handleConnection_advances body permitted).1
  | test =>
      cases body
      refine still rfl ?_
      split <;> rfl
  | accept =>
      cases input with
      | accepted fd =>
          simp only [code, accept, Instr.body, Option.bind_eq_bind, Option.pure_def,
            Option.bind_eq_some_iff, Option.some.injEq, Prod.mk.injEq] at body
          obtain ⟨⟨client, sockets⟩, acquired, rfl, rfl⟩ := body
          exact (Progress.accept acquired).advances rfl rfl rfl
      | acceptFails errno =>
          cases body
          exact still rfl rfl
      | _ => cases body
  | failed errno =>
      cases body
      refine still rfl ?_
      split
      · rfl
      · split <;> rfl
  | idle =>
      cases input with
      | task n =>
          simp only [code, Instr.body, Option.bind_eq_bind, Option.pure_def, Option.bind_eq_some_iff,
            Option.some.injEq, Prod.mk.injEq] at body
          obtain ⟨conn, found, rfl, rfl⟩ := body
          obtain ⟨inside, rfl⟩ := List.getElem?_eq_some_iff.mp found
          have taken := (List.getElem_cons_eraseIdx_perm inside).map Stage.handed
          refine ⟨_, _, _, .take _ _, ?_, rfl⟩
          rw [Memory.queued, ← Multiset.coe_eq_coe.mpr taken]
          exact zero_add _
      | _ => cases body
  | interrupt =>
      cases body
      exact (Progress.still false).advances rfl rfl rfl
  | left | unborn | exited => cases body

end Inversion

section Steps

variable {ι : Type} [DecidableEq ι] [Fintype ι] {mode : ServerMode} {permits : Bool → Prop}
  {config final : ServerConfig ι} {label : Label ι Input}

/-- The connections that are neither closed and uncounted nor dropped yet. -/
def inProgress (config : ServerConfig ι) : Multiset Stage :=
  config.total Pc.stages + config.memory.queued

omit [DecidableEq ι] [Fintype ι] in
theorem no_sync (mode : ServerMode) (pc : Pc) : (code mode pc : ServerInstr ι).sync = none := by
  cases pc with
  | busy stage =>
      rw [code]
      split
      · cases stage <;> try rfl
        cases mode <;> rfl
      · cases stage <;> rfl
  | _ => rfl

omit [DecidableEq ι] [Fintype ι] in
/-- Only `pthread_create` creates a thread. -/
theorem code_fork {mode : ServerMode} {pc start : Pc} {next : Memory → Option ι → Memory × Pc}
    (fork : code mode pc = .fork start next) : mode = .naive ∧ ∃ client conn,
      pc = .busy (.counted client conn) ∧ start = .busy (.begun conn) ∧ next = fun memory child =>
        (memory, if child.isSome then .test else .busy (.refused client conn)) := by
  cases pc with
  | busy stage =>
      rw [code] at fork
      split at fork
      · cases stage with
        | counted client conn =>
            cases mode with
            | pool => cases fork
            | naive =>
                cases fork
                exact ⟨rfl, client, conn, rfl, rfl, rfl⟩
        | _ => cases fork
      · cases stage <;> cases fork
  | _ => cases fork

/-- Every step moves at most one connection on. -/
theorem moves_progress (moves : Moves (server mode) config label final)
    (permitted : ∀ i iterations allocated, label = .run i (.render iterations allocated) →
      permits allocated) :
    ∃ before later rest, Progress mode permits config.memory before final.memory later ∧
      inProgress config = before.elim 0 ({·}) + rest ∧
      inProgress final = later.elim 0 ({·}) + rest := by
  have moved : ∀ {i next}, final.point = Function.update config.point i next →
      Advances mode permits config.memory (config.point i) final.memory next →
      ∃ before later rest, Progress mode permits config.memory before final.memory later ∧
        inProgress config = before.elim 0 ({·}) + rest ∧
        inProgress final = later.elim 0 ({·}) + rest := by
    rintro i next points ⟨before, later, rest, progress, here, there⟩
    obtain ⟨others, old, new⟩ := total_moved Pc.stages points
    refine ⟨before, later, rest + others, progress, ?_, ?_⟩
    · rw [inProgress, old, add_right_comm, here, add_assoc]
    · rw [inProgress, new, add_right_comm, there, add_assoc]
  cases moves.change with
  | still memory points =>
      refine ⟨none, none, inProgress config, ?_, (zero_add _).symm, ?_⟩
      · rw [memory]
        exact .still config.memory.running
      · rw [inProgress, total_still Pc.stages points, memory]
        exact (zero_add _).symm
  | hop sync => cases (no_sync mode _).symm.trans sync
  | read | act =>
      obtain ⟨next, body, points⟩ := moves.performed (no_sync mode _)
      refine moved points (code_advances body fun iterations allocated input => ?_)
      exact permitted _ iterations allocated (congrArg _ input)
  | @create i start next child after _ code dormant different result points =>
      obtain ⟨naive, client, conn, here, rfl, rfl⟩ := code_fork code
      obtain ⟨memory, rfl⟩ := Prod.mk.inj result
      obtain ⟨rest, old, new⟩ := total_created Pc.stages different points
      rw [here, show config.point child = .unborn from of_decide_eq_true dormant] at old
      refine ⟨some (.counted client conn), some (.begun conn), rest + config.memory.queued, ?_, ?_, ?_⟩
      · rw [← memory]
        exact .create client conn naive
      · rw [inProgress, old, add_assoc, add_assoc]
        exact congrArg _ (zero_add _)
      · rw [inProgress, new, ← memory, add_assoc, add_assoc]
        exact zero_add _
  | @createFails i start next after _ code result points =>
      obtain ⟨_, client, conn, here, _, rfl⟩ := code_fork code
      obtain ⟨memory, rfl⟩ := Prod.mk.inj result
      refine moved points ?_
      rw [here, ← memory]
      exact (Progress.refuse client conn).advances rfl rfl rfl

end Steps

end ThreadPool.Server.Connections
