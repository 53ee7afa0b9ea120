import ThreadPool.Server.Connections
import Mathlib.Algebra.Order.BigOperators.Group.Multiset
import Mathlib.Data.Multiset.Bind

namespace ThreadPool.Server.Connections

open Foundation

/-! # Accounting of connections

Every connection in progress has one holder. Summed over the holders, what a stage still
has to close, to free, to uncount and to serve balances what has been done so far.
-/

/-- The descriptor that a `conn_arg_t` names. -/
def fdOf (heap : Store Handle) (conn : Handle) : Multiset Handle :=
  (heap.read conn).elim 0 ({·})

theorem fdOf_eq {heap : Store Handle} {conn client : Handle} (found : heap.read conn = some client) :
    fdOf heap conn = {client} := by
  rw [fdOf, found]
  rfl

namespace Stage

/-- The descriptor that the connection has yet to close. -/
def unclosed (heap : Store Handle) : Stage → Multiset Handle
  | .accepted client => {client}
  | .dropped client => {client}
  | .allocated client _ => {client}
  | .counted client _ => {client}
  | .refused client _ => {client}
  | .handed conn => fdOf heap conn
  | .begun conn => fdOf heap conn
  | .read client _ => {client}
  | .receiving client => {client}
  | .answering client _ => {client}
  | .closing client _ => {client}
  | _ => 0

/-- The argument that it has yet to free. -/
def argument : Stage → Multiset Handle
  | .allocated _ conn => {conn}
  | .counted _ conn => {conn}
  | .refused _ conn => {conn}
  | .refusedClosed _ conn => {conn}
  | .handed conn => {conn}
  | .begun conn => {conn}
  | .read _ conn => {conn}
  | _ => 0

/-- Its number from the increment of `active_connections` to the decrement. -/
def pending (heap : Store Handle) : Stage → Multiset Nat
  | .counted client _ => {client.origin}
  | .refused client _ => {client.origin}
  | .refusedClosed client _ => {client.origin}
  | .refusedFreed client => {client.origin}
  | .handed conn => (fdOf heap conn).map Handle.origin
  | .begun conn => (fdOf heap conn).map Handle.origin
  | .read client _ => {client.origin}
  | .receiving client => {client.origin}
  | .answering client _ => {client.origin}
  | .closing client _ => {client.origin}
  | .leaving client _ => {client.origin}
  | _ => 0

/-- Its number in front of the increment. -/
def uncounted : Stage → Multiset Nat
  | .accepted client => {client.origin}
  | .allocated client _ => {client.origin}
  | _ => 0

/-- Its number between `close` and the decrement. -/
def closed : Stage → Multiset Nat
  | .refusedClosed client _ => {client.origin}
  | .refusedFreed client => {client.origin}
  | .leaving client _ => {client.origin}
  | _ => 0

/-- Its number between the answer and `close`. -/
def answered : Stage → Multiset Nat
  | .closing client _ => {client.origin}
  | _ => 0

/-- The increment of `total_served` is still to come. -/
def owes : Stage → Bool
  | .closing _ rendered => rendered
  | .leaving _ rendered => rendered
  | .serving => true
  | _ => false

/-- The accept loop and the argument name the same descriptor. -/
def Agrees (heap : Store Handle) : Stage → Prop
  | .allocated client conn => heap.read conn = some client
  | .counted client conn => heap.read conn = some client
  | _ => True

variable {heap after : Store Handle} {stage : Stage}

/-- A stage depends on the heap through its own argument only. -/
theorem unclosed_congr (same : ∀ conn ∈ stage.argument, after.read conn = heap.read conn) :
    stage.unclosed after = stage.unclosed heap := by
  cases stage with
  | handed conn | begun conn =>
      rw [unclosed, unclosed, fdOf, fdOf, same conn (Multiset.mem_singleton_self _)]
  | _ => rfl

theorem pending_congr (same : ∀ conn ∈ stage.argument, after.read conn = heap.read conn) :
    stage.pending after = stage.pending heap := by
  cases stage with
  | handed conn | begun conn =>
      rw [pending, pending, fdOf, fdOf, same conn (Multiset.mem_singleton_self _)]
  | _ => rfl

theorem agrees_congr (same : ∀ conn ∈ stage.argument, after.read conn = heap.read conn)
    (agrees : stage.Agrees heap) : stage.Agrees after := by
  cases stage with
  | allocated client conn | counted client conn =>
      exact (same conn (Multiset.mem_singleton_self _)).trans agrees
  | _ => trivial

end Stage

/-- An entry that a stage gives up as it is written to the journal. -/
theorem entry_moves {α : Type*} (entry : α) (journal rest : Multiset α) :
    (entry ::ₘ journal) + (0 + rest) = journal + ({entry} + rest) := by
  rw [zero_add, Multiset.singleton_add, Multiset.cons_add, Multiset.add_cons]

/-- An entry that a stage takes up. -/
theorem entry_added {α : Type*} (entry : α) (journal rest : Multiset α) :
    journal + ({entry} + rest) = entry ::ₘ (journal + (0 + rest)) := by
  rw [zero_add, Multiset.singleton_add, Multiset.add_cons]

section Progress

variable {mode : ServerMode} {permits : Bool → Prop} {memory after : Memory}
  {before later : Option Stage}

/-- What a step leaves to the stage it reaches, where `rest` is what the others have. -/
theorem Progress.heap {rest : Multiset Handle}
    (progress : Progress mode permits memory before after later)
    (balanced : memory.heap.Balanced (before.elim 0 Stage.argument + rest)) :
    after.heap.Balanced (later.elim 0 Stage.argument + rest) := by
  cases progress with
  | allocate acquired =>
      change memory.heap.Balanced (0 + rest) at balanced
      rw [zero_add] at balanced
      exact balanced.acquire acquired
  | freeRefused client conn | free client conn =>
      change (memory.heap.release conn).Balanced (0 + rest)
      rw [zero_add]
      exact balanced.release
  | _ => exact balanced

/-- The arguments of the others are as they were. -/
theorem Progress.reads {rest : Multiset Handle}
    (progress : Progress mode permits memory before after later)
    (balanced : memory.heap.Balanced (before.elim 0 Stage.argument + rest)) {conn : Handle}
    (member : conn ∈ rest) : after.heap.read conn = memory.heap.read conn := by
  cases progress with
  | allocate acquired => exact balanced.read_acquire acquired (Multiset.mem_add.mpr (.inr member))
  | freeRefused | free => exact balanced.read_release member
  | _ => rfl

theorem Progress.agrees (progress : Progress mode permits memory before after later)
    (agrees : ∀ stage ∈ before, stage.Agrees memory.heap) :
    ∀ stage ∈ later, stage.Agrees after.heap := by
  cases progress with
  | allocate acquired =>
      rintro _ ⟨⟩
      exact Store.read_acquired acquired
  | count client conn =>
      rintro _ ⟨⟩
      exact agrees (.allocated client conn) rfl
  | _ =>
      rintro _ ⟨⟩ <;> trivial

theorem Progress.sockets {rest : Multiset Handle}
    (progress : Progress mode permits memory before after later)
    (agrees : ∀ stage ∈ before, stage.Agrees memory.heap)
    (balanced : memory.sockets.Balanced (before.elim 0 (Stage.unclosed memory.heap) + rest)) :
    after.sockets.Balanced (later.elim 0 (Stage.unclosed after.heap) + rest) := by
  cases progress with
  | accept acquired =>
      rw [Option.elim, zero_add] at balanced
      exact balanced.acquire acquired
  | closeDropped client | closeRefused client conn | close client rendered =>
      change (memory.sockets.release client).Balanced (0 + rest)
      rw [zero_add]
      exact balanced.release
  | submit client conn | create client conn =>
      rw [Option.elim, Stage.unclosed, fdOf_eq (agrees _ rfl)]
      exact balanced
  | read found =>
      rw [Option.elim, Stage.unclosed, fdOf_eq found] at balanced
      exact balanced
  | _ => exact balanced

/-- A connection is pending until it is uncounted. -/
theorem Progress.pending (progress : Progress mode permits memory before after later)
    (agrees : ∀ stage ∈ before, stage.Agrees memory.heap) {rest : Multiset Nat}
    (counted : (memory.journal.counted : Multiset Nat) =
      memory.journal.uncounted + (before.elim 0 (Stage.pending memory.heap) + rest)) :
    (after.journal.counted : Multiset Nat) =
      after.journal.uncounted + (later.elim 0 (Stage.pending after.heap) + rest) := by
  cases progress with
  | count client conn => exact (congrArg (_ ::ₘ ·) counted).trans (entry_added ..).symm
  | uncountRefused client | leave client | leaveServing client =>
      exact counted.trans (entry_moves ..).symm
  | submit client conn | create client conn =>
      rw [Option.elim, Stage.pending, fdOf_eq (agrees _ rfl)]
      exact counted
  | read found =>
      rw [Option.elim, Stage.pending, fdOf_eq found] at counted
      exact counted
  | _ => exact counted

theorem Progress.active (progress : Progress mode permits memory before after later)
    (active : memory.activeConnections + BitVec.ofNat 32 memory.journal.uncounted.length =
      BitVec.ofNat 32 memory.journal.counted.length) :
    after.activeConnections + BitVec.ofNat 32 after.journal.uncounted.length =
      BitVec.ofNat 32 after.journal.counted.length := by
  cases progress with
  | count client conn =>
      change memory.activeConnections + 1#32 + BitVec.ofNat 32 memory.journal.uncounted.length =
        BitVec.ofNat 32 (memory.journal.counted.length + 1)
      rw [BitVec.ofNat_add, ← active, BitVec.add_assoc, BitVec.add_comm 1#32, BitVec.add_assoc]
  | uncountRefused client | leave client | leaveServing client =>
      refine Eq.trans ?_ active
      change memory.activeConnections - 1#32 + BitVec.ofNat 32 (memory.journal.uncounted.length + 1) = _
      rw [BitVec.ofNat_add, BitVec.add_comm _ 1#32, ← BitVec.add_assoc, BitVec.sub_add_cancel]
  | _ => exact active

/-- A connection is counted once. -/
theorem Progress.distinct (progress : Progress mode permits memory before after later)
    {rest : Multiset Nat}
    (distinct : memory.journal.counted + (before.elim 0 Stage.uncounted + rest) ≤
      Multiset.range memory.sockets.acquired) :
    after.journal.counted + (later.elim 0 Stage.uncounted + rest) ≤
      Multiset.range after.sockets.acquired := by
  cases progress with
  | accept acquired =>
      obtain ⟨_, rfl, rfl⟩ := Store.acquire_some acquired
      change _ ≤ Multiset.range (memory.sockets.acquired + 1)
      rw [Multiset.range_succ]
      exact (entry_added ..).trans_le (Multiset.cons_le_cons _ distinct)
  | drop client =>
      refine le_trans ?_ distinct
      exact add_le_add_right (add_le_add_left (Multiset.zero_le _) _) _
  | count client conn => exact (entry_moves ..).trans_le distinct
  | _ => exact distinct

/-- A connection is closed before it is uncounted. -/
theorem Progress.passed (progress : Progress mode permits memory before after later)
    {rest : Multiset Nat}
    (passed : memory.journal.uncounted + (before.elim 0 Stage.closed + rest) ≤
      (memory.sockets.released : Multiset Nat)) :
    after.journal.uncounted + (later.elim 0 Stage.closed + rest) ≤
      (after.sockets.released : Multiset Nat) := by
  cases progress with
  | accept acquired =>
      obtain ⟨_, _, rfl⟩ := Store.acquire_some acquired
      exact passed
  | closeDropped client => exact passed.trans (Multiset.le_cons_self _ _)
  | closeRefused client conn | close client rendered =>
      exact (entry_added ..).trans_le (Multiset.cons_le_cons _ passed)
  | uncountRefused client | leave client | leaveServing client =>
      exact (entry_moves ..).trans_le passed
  | _ => exact passed

/-- A connection is answered before it is closed. -/
theorem Progress.answered (progress : Progress mode permits memory before after later)
    {rest : Multiset Nat}
    (answered : ((memory.journal.answers.map Answer.origin : List Nat) : Multiset Nat) ≤
      memory.sockets.released + (before.elim 0 Stage.answered + rest)) :
    ((after.journal.answers.map Answer.origin : List Nat) : Multiset Nat) ≤
      after.sockets.released + (later.elim 0 Stage.answered + rest) := by
  cases progress with
  | accept acquired =>
      obtain ⟨_, _, rfl⟩ := Store.acquire_some acquired
      exact answered
  | closeDropped client | closeRefused client conn =>
      change _ ≤ (client.origin ::ₘ (memory.sockets.released : Multiset Nat)) + (0 + rest)
      rw [Multiset.cons_add]
      exact answered.trans (Multiset.le_cons_self _ _)
  | hangUp client =>
      exact (answered.trans (Multiset.le_cons_self _ _)).trans_eq (entry_added ..).symm
  | answer => exact (Multiset.cons_le_cons _ answered).trans_eq (entry_added ..).symm
  | close client rendered => exact answered.trans_eq (entry_moves ..).symm
  | _ => exact answered

/-- The share of a stage in the answers that `total_served` has yet to count. -/
def Stage.debt (stage : Stage) : Nat := if stage.owes then 1 else 0

/-- `total_served` counts the answers on the path `/render`. -/
theorem Progress.served (progress : Progress mode permits memory before after later) {rest : Nat}
    (served : memory.totalServed + BitVec.ofNat 64 (before.elim 0 Stage.debt + rest) =
      BitVec.ofNat 64 (memory.journal.answers.countP Answer.rendered)) :
    after.totalServed + BitVec.ofNat 64 (later.elim 0 Stage.debt + rest) =
      BitVec.ofNat 64 (after.journal.answers.countP Answer.rendered) := by
  cases progress with
  | @answer client received iterations allocated handled _ _ =>
      change memory.totalServed + BitVec.ofNat 64 (0 + rest) = _ at served
      rw [zero_add] at served
      change memory.totalServed + BitVec.ofNat 64 ((if handled.rendered then 1 else 0) + rest) =
        BitVec.ofNat 64 (List.countP Answer.rendered (_ :: _))
      rw [List.countP_cons, BitVec.ofNat_add (List.countP ..), ← served, add_comm _ rest,
        BitVec.ofNat_add rest, BitVec.add_assoc]
  | serve =>
      refine Eq.trans ?_ served
      change memory.totalServed + 1#64 + BitVec.ofNat 64 (0 + rest) =
        memory.totalServed + BitVec.ofNat 64 (1 + rest)
      rw [zero_add, BitVec.ofNat_add, BitVec.add_assoc]
  | _ => exact served

theorem Progress.statuses (progress : Progress mode (· = true) memory before after later)
    (statuses : ∀ answer ∈ memory.journal.answers, answer.rendered = true ↔ answer.status = 200) :
    ∀ answer ∈ after.journal.answers, answer.rendered = true ↔ answer.status = 200 := by
  cases progress with
  | @answer client received iterations allocated handled success answered =>
      subst success
      rw [Memory.answer, List.forall_mem_cons]
      exact ⟨(handleRequest_fitting answered).rendered_iff, statuses⟩
  | _ => exact statuses

end Progress

/-- The books of the server. -/
structure Accounted (memory : Memory) (stages : Multiset Stage) : Prop where
  sockets : memory.sockets.Balanced (stages.bind (Stage.unclosed memory.heap))
  heap : memory.heap.Balanced (stages.bind Stage.argument)
  agrees : ∀ stage ∈ stages, stage.Agrees memory.heap
  pending : (memory.journal.counted : Multiset Nat) =
    memory.journal.uncounted + stages.bind (Stage.pending memory.heap)
  active : memory.activeConnections + BitVec.ofNat 32 memory.journal.uncounted.length =
    BitVec.ofNat 32 memory.journal.counted.length
  distinct : memory.journal.counted + stages.bind Stage.uncounted ≤
    Multiset.range memory.sockets.acquired
  passed : memory.journal.uncounted + stages.bind Stage.closed ≤
    (memory.sockets.released : Multiset Nat)
  answered : ((memory.journal.answers.map Answer.origin : List Nat) : Multiset Nat) ≤
    memory.sockets.released + stages.bind Stage.answered
  served : memory.totalServed + BitVec.ofNat 64 (stages.map Stage.debt).sum =
    BitVec.ofNat 64 (memory.journal.answers.countP Answer.rendered)

section Accounted

variable {mode : ServerMode} {permits : Bool → Prop} {memory after : Memory}
  {before later : Option Stage} {rest : Multiset Stage}

theorem moved_bind {β : Type} (moved : Option Stage) (rest : Multiset Stage)
    (share : Stage → Multiset β) :
    (moved.elim 0 ({·}) + rest).bind share = moved.elim 0 share + rest.bind share := by
  rw [Multiset.add_bind]
  cases moved with
  | none => rw [Option.elim, Option.elim, Multiset.zero_bind]
  | some stage => rw [Option.elim, Option.elim, Multiset.singleton_bind]

theorem moved_sum (moved : Option Stage) (rest : Multiset Stage) (share : Stage → Nat) :
    ((moved.elim 0 ({·}) + rest).map share).sum = moved.elim 0 share + (rest.map share).sum := by
  cases moved <;> simp

theorem moved_mem {moved : Option Stage} {stage : Stage} :
    stage ∈ moved.elim 0 ({·}) + rest ↔ stage ∈ moved ∨ stage ∈ rest := by
  cases moved with
  | none => simp
  | some held => simp [eq_comm]

theorem Accounted.step (accounted : Accounted memory (before.elim 0 ({·}) + rest))
    (progress : Progress mode permits memory before after later) :
    Accounted after (later.elim 0 ({·}) + rest) := by
  obtain ⟨sockets, heap, agrees, pending, active, distinct, passed, answered, served⟩ := accounted
  have mine : ∀ stage ∈ before, stage.Agrees memory.heap :=
    fun stage member => agrees stage (moved_mem.mpr (.inl member))
  simp only [moved_bind, moved_sum] at sockets heap pending distinct passed answered served
  -- The others reach their descriptors through the arguments that they hold.
  have same : ∀ stage ∈ rest, ∀ conn ∈ stage.argument,
      after.heap.read conn = memory.heap.read conn :=
    fun stage member conn held =>
      progress.reads heap (Multiset.mem_bind.mpr ⟨stage, member, held⟩)
  have unclosed : rest.bind (Stage.unclosed after.heap) = rest.bind (Stage.unclosed memory.heap) :=
    Multiset.bind_congr fun stage member => Stage.unclosed_congr (same stage member)
  have waiting : rest.bind (Stage.pending after.heap) = rest.bind (Stage.pending memory.heap) :=
    Multiset.bind_congr fun stage member => Stage.pending_congr (same stage member)
  constructor
  case agrees =>
    intro stage member
    rcases moved_mem.mp member with moved | other
    · exact progress.agrees mine stage moved
    · exact Stage.agrees_congr (same stage other)
        (agrees stage (moved_mem.mpr (.inr other)))
  case active => exact progress.active active
  all_goals simp only [moved_bind, moved_sum, unclosed, waiting]
  case sockets => exact progress.sockets mine sockets
  case heap => exact progress.heap heap
  case pending => exact progress.pending mine pending
  case distinct => exact progress.distinct distinct
  case passed => exact progress.passed passed
  case answered => exact progress.answered answered
  case served => exact progress.served served

/-- The connections that were counted and have not passed through `close` and the decrement. -/
def Memory.activeNumbers (memory : Memory) : List Nat :=
  memory.journal.counted.filter fun n =>
    ¬ (n ∈ memory.sockets.released ∧ n ∈ memory.journal.uncounted)

/-- The connections that were answered with status 200. -/
def Memory.answeredOk (memory : Memory) : List Nat :=
  ((memory.journal.answers.filter (·.status = 200)).map Answer.origin).dedup

variable {stages : Multiset Stage}

theorem Accounted.counted_nodup (accounted : Accounted memory stages) :
    (memory.journal.counted : Multiset Nat).Nodup :=
  Multiset.nodup_of_le ((Multiset.le_add_right _ _).trans accounted.distinct) (Multiset.nodup_range _)

theorem Accounted.activeNumbers_eq (accounted : Accounted memory stages) :
    (memory.activeNumbers : Multiset Nat) = stages.bind (Stage.pending memory.heap) := by
  have passed : ∀ n ∈ memory.journal.uncounted, n ∈ memory.sockets.released := by
    intro n member
    exact Multiset.mem_of_le ((Multiset.le_add_right _ _).trans accounted.passed) member
  have apart := accounted.counted_nodup
  rw [accounted.pending] at apart
  have disjoint := (Multiset.nodup_add.mp apart).2.2
  have kept : (memory.activeNumbers : Multiset Nat) =
      (memory.journal.counted : Multiset Nat).filter (· ∉ memory.journal.uncounted) := by
    rw [Multiset.filter_coe, Memory.activeNumbers]
    congr 1
    refine List.filter_congr fun n _ => decide_eq_decide.mpr ?_
    exact not_congr ⟨And.right, fun member => ⟨passed n member, member⟩⟩
  rw [kept, accounted.pending, Multiset.filter_add, Multiset.filter_eq_nil.mpr, zero_add,
    Multiset.filter_eq_self.mpr]
  · exact fun n member waits => Multiset.disjoint_left.mp disjoint waits member
  · exact fun n member => not_not.mpr member

/-- The counter holds as many connections as are counted and not uncounted. -/
theorem Accounted.active_eq (accounted : Accounted memory stages) :
    memory.activeConnections = BitVec.ofNat 32 memory.activeNumbers.length := by
  have total := congrArg Multiset.card accounted.pending
  rw [← accounted.activeNumbers_eq, Multiset.card_add, Multiset.coe_card, Multiset.coe_card,
    Multiset.coe_card, Nat.add_comm] at total
  have active := accounted.active
  rwa [total, BitVec.ofNat_add, BitVec.add_left_inj] at active

theorem Accounted.answers_nodup (accounted : Accounted memory stages) :
    (memory.journal.answers.map Answer.origin).Nodup := by
  have among : stages.bind Stage.answered ≤
      (stages.bind (Stage.unclosed memory.heap)).map Handle.origin := by
    rw [Multiset.map_bind]
    refine Multiset.sum_map_le_sum_map _ _ fun stage _ => ?_
    cases stage with
    | closing client => exact le_refl _
    | _ => exact Multiset.zero_le _
  have once := accounted.sockets.books
  rw [add_comm] at once
  refine Multiset.coe_nodup.mp (Multiset.nodup_of_le ?_ (Multiset.nodup_range memory.sockets.acquired))
  rw [once]
  exact accounted.answered.trans (add_le_add_right among _)

/-- Where every image was allocated, the answers on the path `/render` are the connections that were
answered with status 200. -/
theorem Accounted.answeredOk_length (accounted : Accounted memory stages)
    (statuses : ∀ answer ∈ memory.journal.answers, answer.rendered = true ↔ answer.status = 200) :
    memory.answeredOk.length = memory.journal.answers.countP Answer.rendered := by
  have distinct : ((memory.journal.answers.filter (·.status = 200)).map Answer.origin).Nodup :=
    accounted.answers_nodup.sublist (List.filter_sublist.map _)
  rw [Memory.answeredOk, distinct.dedup, List.length_map, ← List.countP_eq_length_filter]
  refine List.countP_congr fun answer member => ?_
  rw [decide_eq_true_eq]
  exact (statuses answer member).symm

end Accounted

section Runs

variable {ι : Type} [DecidableEq ι] [Fintype ι] {mode : ServerMode} {roles : ι → Role}
  {config : ServerConfig ι} {allowed : ServerConfig ι → Label ι Input → Prop}

/-- No allocation of an image fails in the step. -/
def allocates : Label ι Input → Bool
  | .run _ (.render _ allocated) => allocated
  | _ => true

def Allocates (_ : ServerConfig ι) (label : Label ι Input) : Prop := allocates label = true

instance (config : ServerConfig ι) (label : Label ι Input) : Decidable (Allocates config label) :=
  inferInstanceAs (Decidable (allocates label = true))

omit [DecidableEq ι] in
theorem inProgress_init (roles : ι → Role) : inProgress (serverInit roles) = 0 := by
  have start : ∀ role : Role, role.start.stages = 0 := by
    intro role
    cases role <;> rfl
  rw [inProgress, Config.total]
  simp [serverInit, Status.point, Memory.queued, start]

omit [DecidableEq ι] in
theorem accounted_init (roles : ι → Role) :
    Accounted (serverInit roles).memory (inProgress (serverInit roles)) := by
  rw [inProgress_init]
  exact {
    sockets := Store.Balanced.empty
    heap := Store.Balanced.empty
    agrees := nofun
    pending := rfl
    active := rfl
    distinct := le_refl _
    passed := le_refl _
    answered := le_refl _
    served := rfl }

theorem reachable_accounted (reaches : Reaches (server mode) allowed (serverInit roles) config) :
    Accounted config.memory (inProgress config) := by
  apply reaches.invariant fun config => Accounted config.memory (inProgress config)
  · exact accounted_init roles
  · intro config label after _ accounted _ moves
    obtain ⟨before, later, rest, progress, here, there⟩ :=
      moves_progress moves fun _ _ allocated _ => (trivial : (fun _ => True) allocated)
    rw [here] at accounted
    rw [there]
    exact accounted.step progress

theorem reachable_statuses (reaches : Reaches (server mode) Allocates (serverInit roles) config) :
    ∀ answer ∈ config.memory.journal.answers, answer.rendered = true ↔ answer.status = 200 := by
  apply reaches.invariant fun config =>
    ∀ answer ∈ config.memory.journal.answers, answer.rendered = true ↔ answer.status = 200
  · exact nofun
  · intro config label after _ statuses permitted moves
    obtain ⟨before, later, rest, progress, _⟩ :=
      @moves_progress _ _ _ _ (· = true) _ _ _ moves fun i iterations allocated run => by
        rw [run] at permitted
        exact permitted
    exact progress.statuses statuses

end Runs

end ThreadPool.Server.Connections
