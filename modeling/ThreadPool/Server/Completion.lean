import ThreadPool.Foundation.Simulation
import ThreadPool.Server.Accounting

namespace ThreadPool.Server.Connections

open Foundation

/-! # Runs of the server

Every connection in progress can be brought to its end: no thread is ever stuck inside one,
and each of its steps leaves it less to do. So every run can be continued until no connection
is in progress, and then the books of the server are closed.
-/

/-- The number of steps that a connection needs when whatever may fail fails. -/
def Stage.work : Stage → Nat
  | .accepted _ => 2
  | .dropped _ => 1
  | .allocated .. => 5
  | .counted .. => 4
  | .refused .. => 3
  | .refusedClosed .. => 2
  | .refusedFreed _ => 1
  | .handed _ => 8
  | .begun _ => 7
  | .read .. => 6
  | .receiving _ => 5
  | .answering .. => 4
  | .closing .. => 3
  | .leaving .. => 2
  | .serving => 1

def Pc.work : Pc → Nat
  | .busy stage => stage.work
  | _ => 0

/-- The part of the program that a thread runs. -/
def Role.runs (mode : ServerMode) : Role → Pc → Bool
  | .main, .accept => true
  | .main, .failed _ => true
  | .main, .left => true
  | .main, pc => pc.inLoop
  | .worker, .idle => true
  | .worker, pc => pc.inHandler mode
  | .spare, .unborn => true
  | .spare, pc => pc.inHandler mode
  | .interrupter, .interrupt => true
  | .interrupter, pc => pc = .exited

section Code

variable {ι : Type} {mode : ServerMode} {memory after : Memory} {pc next : Pc} {input : Input}
  {stage : Stage} {role : Role}

theorem inLoop_inHandler (inside : stage.inLoop = true) : stage.inHandler = false := by
  cases stage <;> first | rfl | cases inside

theorem main_code (runs : Role.runs mode .main pc = true)
    (body : (code mode pc : ServerInstr ι).body memory input = some (after, next)) :
    Role.runs mode .main next = true := by
  cases pc with
  | test =>
      cases body
      cases memory.running <;> rfl
  | accept =>
      cases input with
      | accepted fd =>
          simp only [code, accept, Instr.body, Option.bind_eq_bind, Option.pure_def,
            Option.bind_eq_some_iff, Option.some.injEq, Prod.mk.injEq] at body
          obtain ⟨_, _, _, rfl⟩ := body
          rfl
      | acceptFails errno =>
          cases body
          rfl
      | _ => cases body
  | failed errno =>
      cases body
      cases errno <;> cases memory.running <;> rfl
  | busy stage =>
      rw [code, if_pos (show stage.inLoop = true from runs)] at body
      have inside := (@acceptLoop_advances _ _ (fun _ => True) _ _ _ _ _ body).2
      cases next with
      | test | busy => exact inside
      | _ => cases inside
  | left | unborn | exited => cases body
  | idle | interrupt => cases runs

theorem handler_code (runs : pc = .idle ∨ pc.inHandler mode = true)
    (body : (code mode pc : ServerInstr ι).body memory input = some (after, next)) :
    next.inHandler mode = true := by
  cases pc with
  | idle =>
      cases input with
      | task n =>
          simp only [code, Instr.body, Option.bind_eq_bind, Option.pure_def, Option.bind_eq_some_iff,
            Option.some.injEq, Prod.mk.injEq] at body
          obtain ⟨_, _, _, rfl⟩ := body
          rfl
      | _ => cases body
  | busy stage =>
      have inside : stage.inHandler = true := runs.resolve_left (by rintro ⟨⟩)
      have outside : ¬ stage.inLoop = true := by
        intro loop
        rw [inLoop_inHandler loop] at inside
        cases inside
      rw [code, if_neg outside] at body
      exact (@handleConnection_advances _ _ (fun _ => True) _ _ _ _ _ body fun _ _ _ => trivial).2
  | left | unborn | exited => cases body
  | test | accept | failed | interrupt =>
      have finished := runs.resolve_left (by rintro ⟨⟩)
      cases mode <;> cases finished

/-- A thread stays in its part of the program. -/
theorem code_runs (runs : role.runs mode pc = true)
    (body : (code mode pc : ServerInstr ι).body memory input = some (after, next)) :
    role.runs mode next = true := by
  cases role with
  | main => exact main_code runs body
  | worker =>
      have handler : pc = .idle ∨ pc.inHandler mode = true := by
        cases pc <;> first | exact .inl rfl | exact .inr runs
      have later := handler_code handler body
      cases next <;> first | rfl | exact later
  | spare =>
      have handler : pc.inHandler mode = true := by
        cases pc <;> first | exact runs | cases body
      have later := handler_code (.inr handler) body
      cases next <;> first | rfl | exact later
  | interrupter =>
      cases pc with
      | interrupt =>
          cases body
          rfl
      | exited => cases body
      | _ => cases runs

end Code

/-- A thread inside a connection can go on: what it needs is there. -/
theorem busy_body {ι : Type} (mode : ServerMode) {memory : Memory} {stage : Stage}
    (inside : stage.inLoop = true ∨ stage.inHandler = true)
    (argument : ∀ conn, stage = .begun conn → ∃ client, memory.heap.read conn = some client) :
    (∃ input after next, (∀ iterations allocated, input = .render iterations allocated →
        allocated = true) ∧
      (code mode (.busy stage) : ServerInstr ι).body memory input = some (after, next) ∧
      next.work < stage.work ∧ after.queue = memory.queue ∧
      after.sockets.acquired = memory.sockets.acquired) ∨
    ∃ start next later, (code mode (.busy stage) : ServerInstr ι) = .fork start next ∧
      next memory none = (memory, later) ∧ later.work < stage.work := by
  have ended : (finish mode).work = 0 := by cases mode <;> rfl
  cases stage with
  | handed conn => rcases inside with loop | handler <;> contradiction
  | accepted client =>
      exact .inl ⟨.block none, _, _, by simp, rfl, by simp [Pc.work, Stage.work], rfl, rfl⟩
  | counted client conn =>
      cases mode with
      | pool =>
          exact .inl ⟨.submitted false, _, _, by simp, rfl, by simp [Pc.work, Stage.work], rfl, rfl⟩
      | naive => exact .inr ⟨_, _, _, rfl, rfl, by simp [Pc.work, Stage.work]⟩
  | begun conn =>
      obtain ⟨client, found⟩ := argument conn rfl
      refine .inl ⟨.go, memory, .busy (.read client conn), by simp, ?_,
        by simp [Pc.work, Stage.work], rfl, rfl⟩
      simp [code, Stage.inLoop, handleConnection, Instr.body, found]
  | receiving client =>
      exact .inl ⟨.recvFails, _, _, by simp, rfl, by simp [Pc.work, Stage.work], rfl, rfl⟩
  | answering client received =>
      obtain ⟨handled, answered⟩ := handleRequest_defined (fun _ _ => 0) true received
      refine .inl ⟨.render (fun _ _ => 0) true, memory.answer client handled,
        .busy (.closing client handled.rendered), ?_, ?_, by simp [Pc.work, Stage.work], rfl, rfl⟩
      · rintro _ _ ⟨⟩
        rfl
      · simp [code, Stage.inLoop, handleConnection, Instr.body, answered]
  | leaving client rendered =>
      refine .inl ⟨.go, _, _, by simp, rfl, ?_, rfl, rfl⟩
      cases rendered with
      | false => exact ended.trans_lt Nat.two_pos
      | true => simp [Pc.work, Stage.work]
  | serving => exact .inl ⟨.go, _, _, by simp, rfl, ended.trans_lt Nat.one_pos, rfl, rfl⟩
  | _ => exact .inl ⟨.go, _, _, by simp, rfl, by simp [Pc.work, Stage.work], rfl, rfl⟩

section Runs

variable {ι : Type} [DecidableEq ι] [Fintype ι] {mode : ServerMode} {roles : ι → Role}
  {config final : ServerConfig ι} {label : Label ι Input}
  {allowed : ServerConfig ι → Label ι Input → Prop}

/-- No connection is in progress. -/
def Quiescent (config : ServerConfig ι) : Prop :=
  (∀ i stage, config.point i ≠ .busy stage) ∧ config.memory.queue = []

theorem stages_eq_zero {pc : Pc} : pc.stages = 0 ↔ ∀ stage, pc ≠ .busy stage := by
  cases pc with
  | busy stage => exact iff_of_false (Multiset.singleton_ne_zero stage) fun outside => outside stage rfl
  | _ => exact iff_of_true rfl nofun

instance (config : ServerConfig ι) : Decidable (Quiescent config) :=
  decidable_of_iff ((∀ i, (config.point i).stages = 0) ∧ config.memory.queue = [])
    (and_congr_left' (forall_congr' fun _ => stages_eq_zero))

omit [DecidableEq ι] in
theorem Quiescent.inProgress_eq (quiescent : Quiescent config) : inProgress config = 0 := by
  have threads : config.total Pc.stages = 0 :=
    Finset.sum_eq_zero fun i _ => stages_eq_zero.mpr (quiescent.1 i)
  rw [inProgress, threads, Memory.queued, quiescent.2]
  rfl

theorem reachable_runs (reaches : Reaches (server mode) allowed (serverInit roles) config) (i : ι) :
    (roles i).runs mode (config.point i) = true := by
  revert i
  apply reaches.invariant fun config => ∀ i, (roles i).runs mode (config.point i) = true
  · intro i
    change (roles i).runs mode (roles i).start = true
    cases roles i <;> rfl
  · intro config label after _ runs _ moves i
    have moved : ∀ {k next}, after.point = Function.update config.point k next →
        (roles k).runs mode next = true → (roles i).runs mode (after.point i) = true := by
      intro k next points later
      rw [points, Function.update_apply]
      split
      case isTrue mine => rwa [mine]
      case isFalse => exact runs i
    cases moves.change with
    | still _ points =>
        rw [points]
        exact runs i
    | hop sync => cases (no_sync mode _).symm.trans sync
    | read | act =>
        obtain ⟨next, body, points⟩ := moves.performed (no_sync mode _)
        exact moved points (code_runs (runs _) body)
    | @create k start next child last _ code dormant different result points =>
        obtain ⟨_, client, conn, here, rfl, rfl⟩ := code_fork code
        obtain ⟨_, rfl⟩ := Prod.mk.inj result
        have caller := runs k
        have created := runs child
        rw [here] at caller
        rw [show config.point child = .unborn from of_decide_eq_true dormant] at created
        rw [points, Function.update_apply, Function.update_apply]
        split
        case isTrue mine =>
          rw [mine]
          cases role : roles k <;> rw [role] at caller <;> first | rfl | cases caller
        case isFalse =>
          split
          case isTrue mine =>
            rw [mine]
            cases role : roles child <;> rw [role] at created <;> first | rfl | cases created
          case isFalse => exact runs i
    | @createFails k start next last _ code result points =>
        obtain ⟨_, client, conn, here, _, rfl⟩ := code_fork code
        obtain ⟨_, rfl⟩ := Prod.mk.inj result
        have caller := runs k
        rw [here] at caller
        refine moved points ?_
        cases role : roles k <;> rw [role] at caller <;> first | rfl | cases caller

omit [DecidableEq ι] [Fintype ι] in
theorem Progress.pool {permits : Bool → Prop} {memory after : Memory} {before : Option Stage}
    {conn : Handle} (progress : Progress mode permits memory before after (some (.handed conn))) :
    mode = .pool := by
  cases progress with
  | submit _ _ _ pool => exact pool

/-- Without a pool nothing is queued. -/
theorem naive_queue (reaches : Reaches (server mode) allowed (serverInit roles) config)
    (naive : mode = .naive) : config.memory.queue = [] := by
  have unqueued : ∀ conn, Stage.handed conn ∉ inProgress config := by
    apply reaches.invariant fun config => ∀ conn, Stage.handed conn ∉ inProgress config
    · intro conn
      rw [inProgress_init]
      exact Multiset.notMem_zero _
    · intro config label after _ unqueued _ moves conn member
      obtain ⟨before, later, rest, progress, here, there⟩ :=
        moves_progress moves fun _ _ allocated _ => (trivial : (fun _ => True) allocated)
      rw [there] at member
      rcases moved_mem.mp member with moved | other
      · cases moved
        cases naive.symm.trans progress.pool
      · refine unqueued conn ?_
        rw [here]
        exact moved_mem.mpr (.inr other)
  cases queue : config.memory.queue with
  | nil => rfl
  | cons conn others =>
      refine absurd ?_ (unqueued conn)
      rw [inProgress, Memory.queued, queue]
      exact Multiset.mem_add.mpr (.inr (List.mem_cons_self ..))

omit [DecidableEq ι] [Fintype ι] in
theorem threads_ready (config : ServerConfig ι) (i : ι) :
    config.threads i = .ready (config.point i) := by
  rw [Config.point]
  cases config.threads i with
  | ready => rfl
  | asleep cond => exact cond.elim
  | woken mutex => exact mutex.elim

/-- What all threads and the queue still have to do. -/
def work (config : ServerConfig ι) : Nat :=
  config.total Pc.work + 8 * config.memory.queue.length

omit [DecidableEq ι] in
theorem stage_mem {i : ι} {stage : Stage} (here : config.point i = .busy stage) :
    stage ∈ inProgress config := by
  refine Multiset.mem_add.mpr (.inl (Multiset.mem_sum.mpr ⟨i, Finset.mem_univ i, ?_⟩))
  change stage ∈ (config.point i).stages
  rw [here]
  exact Multiset.mem_singleton_self _

/-- A thread inside a connection can go on. -/
theorem busy_goes_on (reaches : Reaches (server mode) allowed (serverInit roles) config) {i : ι}
    {stage : Stage} (here : config.point i = .busy stage) :
    ∃ label final, Allocates config label ∧ (server mode).step config label = some final ∧
      work final < work config ∧
      final.memory.sockets.acquired = config.memory.sockets.acquired := by
  have ready := threads_ready config i
  have runs := reachable_runs reaches i
  rw [here] at ready runs
  have inside : stage.inLoop = true ∨ stage.inHandler = true := by
    cases role : roles i <;> rw [role] at runs
    case main => exact .inl runs
    case interrupter => cases runs
    all_goals exact .inr runs
  have argument : ∀ conn, stage = .begun conn →
      ∃ client, config.memory.heap.read conn = some client := by
    rintro conn rfl
    refine (reachable_accounted reaches).heap.read_defined ?_
    exact Multiset.mem_bind.mpr ⟨_, stage_mem here, Multiset.mem_singleton_self _⟩
  have less : ∀ {final : ServerConfig ι} {next}, final.point = Function.update config.point i next →
      next.work < stage.work → final.memory.queue = config.memory.queue →
      work final < work config := by
    intro final next points lower queue
    obtain ⟨rest, old, new⟩ := total_moved Pc.work points
    rw [here, Pc.work] at old
    rw [work, work, old, new, queue]
    omega
  rcases busy_body mode inside argument with
    ⟨input, after, next, success, body, lower, queue, acquired⟩ |
    ⟨start, next, later, code, result, lower⟩
  · refine ⟨.run i input, _, ?_, (Arrives.here ready).step ((Arrives.here ready).performs body),
      less (point_set ..) lower queue, acquired⟩
    cases input with
    | render iterations allocated => exact success _ _ rfl
    | _ => rfl
  · exact ⟨.pick i none, _, rfl, (Moves.createFails ready code result).step,
      less (point_set ..) lower rfl, rfl⟩

/-- In a state that is not quiescent, some connection can be moved on. -/
theorem goes_on (reaches : Reaches (server mode) allowed (serverInit roles) config)
    (staffed : mode = .pool → ∃ i, roles i = .worker) (busy : ¬ Quiescent config) :
    ∃ label final, Allocates config label ∧ (server mode).step config label = some final ∧
      work final < work config ∧
      final.memory.sockets.acquired = config.memory.sockets.acquired := by
  by_cases inside : ∃ i stage, config.point i = .busy stage
  · obtain ⟨i, stage, here⟩ := inside
    exact busy_goes_on reaches here
  · have outside : ∀ i stage, config.point i ≠ .busy stage :=
      fun i stage here => inside ⟨i, stage, here⟩
    cases queue : config.memory.queue with
    | nil => exact absurd ⟨outside, queue⟩ busy
    | cons conn others =>
        cases mode with
        | naive => cases (naive_queue reaches rfl).symm.trans queue
        | pool =>
            obtain ⟨i, worker⟩ := staffed rfl
            have here : config.point i = .idle := by
              have runs := reachable_runs reaches i
              have free := outside i
              rw [worker] at runs
              cases point : config.point i <;> rw [point] at runs free <;>
                first | rfl | cases runs | exact absurd rfl (free _)
            have ready := threads_ready config i
            rw [here] at ready
            have body : ((server .pool).code i .idle : ServerInstr ι).body config.memory (.task 0) =
                some ({ config.memory with queue := others }, .busy (.begun conn)) := by
              simp [server, code, Instr.body, queue]
            refine ⟨.run i (.task 0), _, rfl,
              (Arrives.here ready).step ((Arrives.here ready).performs body), ?_, rfl⟩
            obtain ⟨rest, old, new⟩ := total_moved Pc.work
              (point_set config i (.ready (.busy (.begun conn))))
            rw [here] at old
            change config.total Pc.work = 0 + rest at old
            change (config.set i (.ready (.busy (.begun conn)))).total Pc.work + 8 * others.length <
              config.total Pc.work + 8 * config.memory.queue.length
            rw [old, new, queue, List.length_cons, Status.point, Pc.work, Stage.work]
            omega

/-- Every run can be continued, without a new connection, until none is in progress. -/
theorem completes (reaches : Reaches (server mode) allowed (serverInit roles) config)
    (staffed : mode = .pool → ∃ i, roles i = .worker) :
    ∃ final, Reaches (server mode) Allocates config final ∧ Quiescent final ∧
      final.memory.sockets.acquired = config.memory.sockets.acquired := by
  suffices onwards : ∀ n middle, work middle = n →
      Reaches (server mode) (fun _ _ => True) (serverInit roles) middle →
      Reaches (server mode) Allocates config middle →
      middle.memory.sockets.acquired = config.memory.sockets.acquired →
      ∃ final, Reaches (server mode) Allocates config final ∧ Quiescent final ∧
        final.memory.sockets.acquired = config.memory.sockets.acquired from
    onwards _ config rfl (reaches.mono fun _ => trivial) .refl rfl
  intro n
  induction n using Nat.strong_induction_on with
  | h n ih =>
      intro middle amount reached continued acquired
      by_cases quiescent : Quiescent middle
      · exact ⟨middle, continued, quiescent, acquired⟩
      · obtain ⟨label, next, permitted, stepped, less, same⟩ := goes_on reached staffed quiescent
        exact ih _ (less.trans_eq amount) next rfl (.step reached trivial stepped)
          (.step continued permitted stepped) (same.trans acquired)

/-- The descriptor that the next statement closes, and the argument that it frees. -/
def Stage.closes : Stage → Option Handle
  | .dropped client => some client
  | .refused client _ => some client
  | .closing client _ => some client
  | _ => none

def Stage.frees : Stage → Option Handle
  | .refusedClosed _ conn => some conn
  | .read _ conn => some conn
  | _ => none

/-- A statement that closes or frees finds its own connection there. -/
theorem closes_own (reaches : Reaches (server mode) allowed (serverInit roles) config) {i : ι}
    {stage : Stage} (here : config.point i = .busy stage) :
    (∀ client ∈ stage.closes, config.memory.sockets.slots client.slot = some (client.origin, ())) ∧
      ∀ conn ∈ stage.frees, ∃ client,
        config.memory.heap.slots conn.slot = some (conn.origin, client) := by
  have accounted := reachable_accounted reaches
  constructor
  · intro client member
    refine (accounted.sockets.valid client (Multiset.mem_bind.mpr ⟨stage, stage_mem here, ?_⟩)).elim
      fun _ used => used
    cases stage <;> cases member <;> exact Multiset.mem_singleton_self _
  · intro conn member
    refine accounted.heap.valid conn (Multiset.mem_bind.mpr ⟨stage, stage_mem here, ?_⟩)
    cases stage <;> cases member <;> exact Multiset.mem_singleton_self _

/-- `active_connections` counts the connections that were counted and have not passed through
`close` and the decrement; no descriptor is closed and no argument is freed twice, or as
another's; every run can be completed, and whenever no connection is in progress, each descriptor
was closed once and each argument was freed once. Where no allocation of an image fails,
`total_served` then counts the connections that were answered with status 200. -/
theorem connections_accounted
    (reaches : Reaches (server mode) allowed (serverInit roles) config) :
    config.memory.activeConnections = BitVec.ofNat 32 config.memory.activeNumbers.length ∧
      (∀ n, config.memory.sockets.released.count n ≤ 1 ∧
        config.memory.heap.released.count n ≤ 1) ∧
      (∀ i stage, config.point i = .busy stage →
        (∀ client ∈ stage.closes,
          config.memory.sockets.slots client.slot = some (client.origin, ())) ∧
        ∀ conn ∈ stage.frees, ∃ client,
          config.memory.heap.slots conn.slot = some (conn.origin, client)) ∧
      (Quiescent config →
        (∀ n < config.memory.sockets.acquired, config.memory.sockets.released.count n = 1) ∧
        (∀ n < config.memory.heap.acquired, config.memory.heap.released.count n = 1) ∧
        ((∀ {config label}, allowed config label → Allocates config label) →
          config.memory.totalServed = BitVec.ofNat 64 config.memory.answeredOk.length)) ∧
      ((mode = .pool → ∃ i, roles i = .worker) →
        ∃ final, Reaches (server mode) Allocates config final ∧ Quiescent final ∧
          final.memory.sockets.acquired = config.memory.sockets.acquired) := by
  have accounted := reachable_accounted reaches
  refine ⟨accounted.active_eq,
    fun n => ⟨accounted.sockets.released_le n, accounted.heap.released_le n⟩,
    fun i stage here => closes_own reaches here, fun quiescent => ?_, completes reaches⟩
  have closed := accounted
  rw [quiescent.inProgress_eq] at closed
  refine ⟨fun n below => ?_, fun n below => ?_, fun allocates => ?_⟩
  · have once := closed.sockets.released_once below
    rwa [Multiset.zero_bind, Multiset.map_zero, Multiset.count_zero] at once
  · have once := closed.heap.released_once below
    rwa [Multiset.zero_bind, Multiset.map_zero, Multiset.count_zero] at once
  · have statuses := accounted.answeredOk_length (reachable_statuses (reaches.mono allocates))
    have served := closed.served
    rw [Multiset.map_zero, Multiset.sum_zero] at served
    rw [statuses, ← served]
    exact (BitVec.add_zero _).symm

end Runs

/-- Thread 0 accepts, thread 1 is the worker of the pool. -/
def oneHandler (i : Fin 2) : Role := if i.val = 0 then .main else .worker

/-- A connection is accepted as descriptor 5 and handed over in block 7; the worker answers it. -/
def oneRequest {ι : Type} (main worker : ι) (request : String) (allocated : Bool) :
    List (Label ι Input) :=
  [.run main .go, .run main (.accepted 5), .run main (.block (some 7)), .run main .go,
    .run main (.submitted true), .run worker (.task 0), .run worker .go, .run worker .go,
    .run worker (.received request.toList), .run worker (.render (fun _ _ => 0) allocated),
    .run worker .go, .run worker .go, .run worker .go]

theorem connections_accounted_oneRequest : ∃ config : ServerConfig (Fin 2),
    Reaches (server .pool) Allocates (serverInit oneHandler) config ∧ Quiescent config ∧
      config.memory.sockets.acquired = 1 ∧ config.memory.answeredOk = [0] ∧
      config.memory.sockets.released.count 0 = 1 ∧ config.memory.heap.released.count 0 = 1 ∧
      config.memory.totalServed = 1 := by
  obtain ⟨config, reaches, quiescent, accepted, allocated, answered⟩ :=
    Reaches.of_schedule (server .pool) Allocates (serverInit oneHandler)
      (oneRequest 0 1 "GET /render?w=16&h=16&iter=1 HTTP/1.0\r\n\r\n" true)
      (fun config => Quiescent config ∧ config.memory.sockets.acquired = 1 ∧
        config.memory.heap.acquired = 1 ∧ config.memory.answeredOk = [0])
      (by decide +kernel)
  obtain ⟨closed, freed, served⟩ := (connections_accounted reaches).2.2.2.1 quiescent
  refine ⟨config, reaches, quiescent, accepted, answered, closed 0 (by rw [accepted]; decide),
    freed 0 (by rw [allocated]; decide), ?_⟩
  rw [served id, answered]
  rfl

/-- The allocation of the image fails: the connection is answered with status 500, and
`total_served` counts it. -/
theorem failed_render_counted : ∃ config : ServerConfig (Fin 2),
    Reaches (server .pool) (fun _ _ => True) (serverInit oneHandler) config ∧ Quiescent config ∧
      config.memory.journal.answers = [⟨0, 500, true⟩] ∧ config.memory.answeredOk = [] ∧
      config.memory.totalServed = 1 :=
  Reaches.of_schedule (server .pool) (fun _ _ => True) (serverInit oneHandler)
    (oneRequest 0 1 "GET /render HTTP/1.0\r\n\r\n" false)
    (fun config => Quiescent config ∧ config.memory.journal.answers = [⟨0, 500, true⟩] ∧
      config.memory.answeredOk = [] ∧ config.memory.totalServed = 1)
    (by decide +kernel)

end ThreadPool.Server.Connections
