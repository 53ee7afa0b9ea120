import Mathlib.Algebra.Group.Pi.Basic
import ThreadPool.Pool.Phases
import ThreadPool.PriorityQueue.Refinement

namespace ThreadPool.Pool

open Foundation

/-! # Where every task is

Each task is in the hands of exactly one party: the submit call that created it, the
queue, or the worker that popped it. `Books` balances these holdings against the
journal of what has happened; every write to memory keeps the balance.
-/

/-- What a thread can hold: a task not yet pushed, one that was pushed and whose id is
still to be returned, a refused one, a popped one, a running one, a completed one. -/
inductive Account where
  | pending
  | returning
  | rejected
  | taken
  | running
  | finished
deriving DecidableEq

def Phase.share : Phase → Account → Multiset Addr
  | .created task, .pending => {task}
  | .counted task, .pending => {task}
  | .inserted task, .returning => {task}
  | .refused task, .rejected => {task}
  | .uncounted task, .rejected => {task}
  | .taken task, .taken => {task}
  | .running task, .running => {task}
  | .finished task, .finished => {task}
  | _, _ => 0

/-- The tasks that a thread holds at a program point. -/
def Pc.share (pc : Pc) : Account → Multiset Addr := pc.phase.share

structure Books (pq : PriorityQueue) (lanes : Lanes Priority Addr) (fresh : Addr) (journal : Journal)
    (shares : Account → Multiset Addr) : Prop where
  represents : pq.Represents lanes
  distinct : (shares .pending + journal.accepted + journal.refused).Nodup
  created : ∀ task ∈ shares .pending + journal.accepted + journal.refused, task < fresh
  accepted : (journal.accepted : Multiset Addr) =
    lanes.contents + journal.destroyed + shares .taken + journal.called
  called : (journal.called : Multiset Addr) = journal.completed + shares .running
  returned : (journal.accepted : Multiset Addr) = journal.returned + shares .returning
  rejected : ∀ task ∈ shares .rejected, task ∈ journal.refused
  finished : ∀ task ∈ shares .finished, task ∈ journal.completed
  allocated : ∀ task ∈ shares .pending + shares .taken, (pq.heap task).isSome
  stamps : ∀ {task record}, pq.heap task = some record → record.submitTime.Reading

namespace Books

variable {pq pq' : PriorityQueue} {lanes lanes' : Lanes Priority Addr} {fresh : Addr}
  {journal : Journal} {before after : Account → Multiset Addr} {task : Addr} {record : Task}

theorem accepted_nodup (books : Books pq lanes fresh journal before) :
    (journal.accepted : Multiset Addr).Nodup := by
  apply Multiset.nodup_of_le _ books.distinct
  rw [add_assoc]
  exact (Multiset.le_add_right _ _).trans (Multiset.le_add_left _ _)

theorem queued_accepted (books : Books pq lanes fresh journal before) (queued : lanes.Queued task) :
    task ∈ journal.accepted := by
  rw [← Multiset.mem_coe, books.accepted]
  simp [Lanes.mem_contents.mpr queued]

theorem executed_accepted (books : Books pq lanes fresh journal before)
    (executed : task ∈ before .taken + before .running + journal.completed) :
    task ∈ journal.accepted := by
  rw [← Multiset.mem_coe, books.accepted, books.called]
  simp only [Multiset.mem_add] at executed ⊢
  tauto

theorem taken_accepted (books : Books pq lanes fresh journal before) (taken : task ∈ before .taken) :
    task ∈ journal.accepted :=
  books.executed_accepted (by simp [taken])

theorem accepted_created (books : Books pq lanes fresh journal before)
    (accepted : task ∈ journal.accepted) : task < fresh :=
  books.created task (by simp [accepted])

/-- A task in the hands of a submit call has not been accepted. -/
theorem pending_not_accepted (books : Books pq lanes fresh journal before)
    (pending : task ∈ before .pending) : task ∉ journal.accepted := by
  intro accepted
  have apart := (Multiset.nodup_add.mp (Multiset.nodup_add.mp books.distinct).1).2.2
  exact Multiset.disjoint_left.mp apart pending accepted

theorem pending_not_queued (books : Books pq lanes fresh journal before)
    (pending : task ∈ before .pending) : ¬ lanes.Queued task :=
  fun queued => books.pending_not_accepted pending (books.queued_accepted queued)

theorem refused_not_accepted (books : Books pq lanes fresh journal before)
    (refused : task ∈ journal.refused) : task ∉ journal.accepted := by
  intro accepted
  have apart := (Multiset.nodup_add.mp books.distinct).2.2
  exact Multiset.disjoint_left.mp apart (Multiset.mem_add.mpr (.inr accepted)) refused

theorem refused_not_pending (books : Books pq lanes fresh journal before)
    (refused : task ∈ journal.refused) : task ∉ before .pending := by
  intro pending
  have apart := (Multiset.nodup_add.mp books.distinct).2.2
  exact Multiset.disjoint_left.mp apart (Multiset.mem_add.mpr (.inl pending)) refused

/-- A task whose function was called is neither queued nor waiting to be called. -/
theorem called_apart (books : Books pq lanes fresh journal before) (called : task ∈ journal.called) :
    ¬ lanes.Queued task ∧ task ∉ before .taken := by
  have nodup := books.accepted_nodup
  rw [books.accepted] at nodup
  have apart := (Multiset.nodup_add.mp nodup).2.2
  constructor
  · intro queued
    refine Multiset.disjoint_left.mp apart ?_ called
    simp [Lanes.mem_contents.mpr queued]
  · intro taken
    refine Multiset.disjoint_left.mp apart ?_ called
    simp [taken]

theorem taken_not_queued (books : Books pq lanes fresh journal before)
    (taken : task ∈ before .taken) : ¬ lanes.Queued task := by
  intro queued
  have nodup := books.accepted_nodup
  rw [books.accepted] at nodup
  have apart := (Multiset.nodup_add.mp (Multiset.nodup_add.mp nodup).1).2.2
  refine Multiset.disjoint_left.mp apart ?_ taken
  simp [Lanes.mem_contents.mpr queued]

/-- The books depend on the heap through the represented lanes, the allocated blocks
and the stamps only. -/
theorem rewrite (books : Books pq lanes fresh journal before) (represents : pq'.Represents lanes)
    (allocated : ∀ task ∈ before .pending + before .taken, (pq'.heap task).isSome)
    (stamps : ∀ {task record}, pq'.heap task = some record → record.submitTime.Reading) :
    Books pq' lanes fresh journal before :=
  { books with represents, allocated, stamps }

theorem keeps_stamps (books : Books pq lanes fresh journal before) (keeps : pq.KeepsTasks pq')
    (found : pq'.heap task = some record) : record.submitTime.Reading := by
  have same := keeps.heap task
  rw [found] at same
  cases old : pq.heap task with
  | none => simp [old] at same
  | some previous =>
      simp only [old, Option.map_some, Option.some.injEq, PriorityQueue.core, Prod.mk.injEq] at same
      rw [same.2.2.2]
      exact books.stamps old

theorem keeps_allocated (keeps : pq.KeepsTasks pq') (allocated : (pq.heap task).isSome) :
    (pq'.heap task).isSome := by
  obtain ⟨record, found⟩ := Option.isSome_iff_exists.mp allocated
  obtain ⟨kept, there, _⟩ := keeps.allocated found
  simp [there]

theorem fresh_unused (books : Books pq lanes fresh journal before) : ¬ lanes.Queued fresh := by
  intro queued
  exact absurd (books.accepted_created (books.queued_accepted queued)) (lt_irrefl fresh)

/-- `task_create` hands a new block to the submit call. -/
theorem create (books : Books pq lanes fresh journal before)
    (stamp : record.submitTime.Reading) (pending : after .pending = fresh ::ₘ before .pending)
    (others : ∀ account, account ≠ .pending → after account = before account) :
    Books (pq.store fresh record) lanes (fresh + 1) journal after where
  represents := books.represents.write books.fresh_unused (some record)
  distinct := by
    rw [pending, Multiset.cons_add, Multiset.cons_add]
    refine Multiset.nodup_cons.mpr ⟨fun member => ?_, books.distinct⟩
    exact absurd (books.created fresh member) (lt_irrefl fresh)
  created task member := by
    rw [pending, Multiset.cons_add, Multiset.cons_add] at member
    rcases Multiset.mem_cons.mp member with same | old
    · exact same ▸ Nat.lt_succ_self fresh
    · exact Nat.lt_succ_of_lt (books.created task old)
  accepted := by rw [others .taken (by decide)]; exact books.accepted
  called := by rw [others .running (by decide)]; exact books.called
  returned := by rw [others .returning (by decide)]; exact books.returned
  rejected := by rw [others .rejected (by decide)]; exact books.rejected
  finished := by rw [others .finished (by decide)]; exact books.finished
  allocated task member := by
    rw [pending, others .taken (by decide), Multiset.cons_add] at member
    by_cases same : task = fresh
    · simp [same, PriorityQueue.store]
    · have old := (Multiset.mem_cons.mp member).resolve_left same
      simpa [PriorityQueue.store, same] using books.allocated task old
  stamps {task found} there := by
    by_cases same : task = fresh
    · subst same
      obtain rfl : record = found := by simpa [PriorityQueue.store] using there
      exact stamp
    · exact books.stamps (by simpa [PriorityQueue.store, same] using there)

/-- The submit call stamps its task before it pushes it. -/
theorem stamp {now : Timespec} (books : Books pq lanes fresh journal before)
    (found : pq.heap task = some record) (pending : task ∈ before .pending) (reading : now.Reading) :
    Books (pq.store task { record with submitTime := now }) lanes fresh journal before := by
  apply books.rewrite (books.represents.write (books.pending_not_queued pending) _)
  · intro other member
    have old := books.allocated other member
    by_cases same : other = task <;> simp_all
  · intro other stored there
    by_cases same : other = task
    · subst same
      obtain rfl : { record with submitTime := now } = stored := by
        simpa [PriorityQueue.store] using there
      exact reading
    · exact books.stamps (by simpa [PriorityQueue.store, same] using there)

/-- `pq_try_push` accepts the task. -/
theorem insert (books : Books pq lanes fresh journal before)
    (inserted : pq.pqInsertLocked task = some pq')
    (pending : before .pending = task ::ₘ after .pending)
    (returning : after .returning = task ::ₘ before .returning)
    (others : ∀ account, account ≠ .pending → account ≠ .returning →
      after account = before account) :
    ∃ lanes', Books pq' lanes' fresh { journal with accepted := task :: journal.accepted } after := by
  have mine : task ∈ before .pending := by simp [pending]
  have unqueued := books.pending_not_queued mine
  obtain ⟨record, found⟩ : ∃ record, pq.heap task = some record :=
    Option.isSome_iff_exists.mp (books.allocated task (by simp [mine]))
  obtain ⟨grown, result, represents, keeps⟩ := PriorityQueue.insert_spec books.represents found unqueued
  obtain rfl : grown = pq' := Option.some.inj (result.symm.trans inserted)
  have moved : after .pending + (task :: journal.accepted : List Addr) + journal.refused =
      before .pending + journal.accepted + journal.refused := by
    rw [pending, ← Multiset.cons_coe, Multiset.add_cons, Multiset.cons_add, Multiset.cons_add,
      Multiset.cons_add]
  exact ⟨_,
    { represents := represents
      distinct := by rw [moved]; exact books.distinct
      created := by rw [moved]; exact books.created
      accepted := by
        rw [Lanes.contents_push, others .taken (by decide) (by decide), ← Multiset.cons_coe,
          books.accepted, Multiset.cons_add, Multiset.cons_add, Multiset.cons_add]
      called := by rw [others .running (by decide) (by decide)]; exact books.called
      returned := by rw [returning, ← Multiset.cons_coe, books.returned, Multiset.add_cons]
      rejected := by rw [others .rejected (by decide) (by decide)]; exact books.rejected
      finished := by rw [others .finished (by decide) (by decide)]; exact books.finished
      allocated := by
        intro other member
        apply keeps_allocated keeps
        apply books.allocated
        rw [others .taken (by decide) (by decide)] at member
        rw [pending, Multiset.cons_add]
        exact Multiset.mem_cons_of_mem member
      stamps := books.keeps_stamps keeps }⟩

/-- `pq_try_push` refuses the task. -/
theorem refuse (books : Books pq lanes fresh journal before)
    (pending : before .pending = task ::ₘ after .pending)
    (rejected : after .rejected = task ::ₘ before .rejected)
    (others : ∀ account, account ≠ .pending → account ≠ .rejected →
      after account = before account) :
    Books pq lanes fresh { journal with refused := task :: journal.refused } after := by
  have moved : after .pending + journal.accepted + (task :: journal.refused : List Addr) =
      before .pending + journal.accepted + journal.refused := by
    rw [pending, ← Multiset.cons_coe, Multiset.add_cons, Multiset.cons_add, Multiset.cons_add]
  exact
    { represents := books.represents
      distinct := by rw [moved]; exact books.distinct
      created := by rw [moved]; exact books.created
      accepted := by rw [others .taken (by decide) (by decide)]; exact books.accepted
      called := by rw [others .running (by decide) (by decide)]; exact books.called
      returned := by rw [others .returning (by decide) (by decide)]; exact books.returned
      rejected := by
        intro other member
        rw [rejected] at member
        rcases Multiset.mem_cons.mp member with same | old
        · simp [same]
        · simp [books.rejected other old]
      finished := by rw [others .finished (by decide) (by decide)]; exact books.finished
      allocated := by
        intro other member
        apply books.allocated
        rw [others .taken (by decide) (by decide)] at member
        rw [pending, Multiset.cons_add]
        exact Multiset.mem_cons_of_mem member
      stamps := books.stamps }

/-- The submit call returns the id of its task. -/
theorem leave (books : Books pq lanes fresh journal before)
    (returning : before .returning = task ::ₘ after .returning)
    (others : ∀ account, account ≠ .returning → after account = before account) :
    Books pq lanes fresh { journal with returned := task :: journal.returned } after where
  represents := books.represents
  distinct := by rw [others .pending (by decide)]; exact books.distinct
  created := by rw [others .pending (by decide)]; exact books.created
  accepted := by rw [others .taken (by decide)]; exact books.accepted
  called := by rw [others .running (by decide)]; exact books.called
  returned := by
    rw [← Multiset.cons_coe, books.returned, returning, Multiset.add_cons, Multiset.cons_add]
  rejected := by rw [others .rejected (by decide)]; exact books.rejected
  finished := by rw [others .finished (by decide)]; exact books.finished
  allocated := by
    rw [others .pending (by decide), others .taken (by decide)]
    exact books.allocated
  stamps := books.stamps

/-- A worker pops a task. -/
theorem pop (books : Books pq lanes fresh journal before) (ready : pq.readyMask ≠ 0)
    (popped : pq.popHighest = some (task, pq')) (taken : after .taken = task ::ₘ before .taken)
    (others : ∀ account, account ≠ .taken → after account = before account) :
    ∃ lanes', Books pq' lanes' fresh journal after := by
  obtain ⟨p, first, rest, shrunk, _, lane, result, represents, keeps⟩ :=
    PriorityQueue.pop_spec books.represents ready
  obtain ⟨rfl, rfl⟩ : first = task ∧ shrunk = pq' :=
    Prod.mk.inj (Option.some.inj (result.symm.trans popped))
  have queued : lanes.Queued first := ⟨p, by simp [lane]⟩
  exact ⟨_,
    { represents := represents
      distinct := by rw [others .pending (by decide)]; exact books.distinct
      created := by rw [others .pending (by decide)]; exact books.created
      accepted := by
        rw [books.accepted, taken, Lanes.contents_dropHead lane, Multiset.add_cons,
          Multiset.cons_add, Multiset.cons_add, Multiset.cons_add]
      called := by rw [others .running (by decide)]; exact books.called
      returned := by rw [others .returning (by decide)]; exact books.returned
      rejected := by rw [others .rejected (by decide)]; exact books.rejected
      finished := by rw [others .finished (by decide)]; exact books.finished
      allocated := by
        intro other member
        apply keeps_allocated keeps
        rw [taken, others .pending (by decide), Multiset.add_cons] at member
        rcases Multiset.mem_cons.mp member with same | old
        · obtain ⟨record, found⟩ := books.represents.allocated queued
          simp [same, found]
        · exact books.allocated other old
      stamps := books.keeps_stamps keeps }⟩

/-- A worker calls the function of its task. -/
theorem call (books : Books pq lanes fresh journal before)
    (taken : before .taken = task ::ₘ after .taken)
    (running : after .running = task ::ₘ before .running)
    (others : ∀ account, account ≠ .taken → account ≠ .running → after account = before account) :
    Books pq lanes fresh { journal with called := task :: journal.called } after where
  represents := books.represents
  distinct := by rw [others .pending (by decide) (by decide)]; exact books.distinct
  created := by rw [others .pending (by decide) (by decide)]; exact books.created
  accepted := by
    rw [books.accepted, taken, ← Multiset.cons_coe, Multiset.add_cons, Multiset.add_cons,
      Multiset.cons_add]
  called := by rw [running, ← Multiset.cons_coe, books.called, Multiset.add_cons]
  returned := by rw [others .returning (by decide) (by decide)]; exact books.returned
  rejected := by rw [others .rejected (by decide) (by decide)]; exact books.rejected
  finished := by rw [others .finished (by decide) (by decide)]; exact books.finished
  allocated := by
    intro other member
    apply books.allocated
    rw [others .pending (by decide) (by decide)] at member
    rw [taken, Multiset.add_cons]
    exact Multiset.mem_cons_of_mem member
  stamps := books.stamps

/-- The function of a task returns. -/
theorem complete (books : Books pq lanes fresh journal before)
    (running : before .running = task ::ₘ after .running)
    (finished : after .finished = task ::ₘ before .finished)
    (others : ∀ account, account ≠ .running → account ≠ .finished →
      after account = before account) :
    Books pq lanes fresh { journal with completed := task :: journal.completed } after where
  represents := books.represents
  distinct := by rw [others .pending (by decide) (by decide)]; exact books.distinct
  created := by rw [others .pending (by decide) (by decide)]; exact books.created
  accepted := by rw [others .taken (by decide) (by decide)]; exact books.accepted
  called := by rw [books.called, running, ← Multiset.cons_coe, Multiset.add_cons, Multiset.cons_add]
  returned := by rw [others .returning (by decide) (by decide)]; exact books.returned
  rejected := by rw [others .rejected (by decide) (by decide)]; exact books.rejected
  finished := by
    intro other member
    rw [finished] at member
    rcases Multiset.mem_cons.mp member with same | old
    · simp [same]
    · simp [books.finished other old]
  allocated := by
    rw [others .pending (by decide) (by decide), others .taken (by decide) (by decide)]
    exact books.allocated
  stamps := books.stamps

/-- `task_destroy` frees a block that nobody else uses. -/
theorem free (books : Books pq lanes fresh journal before) (unqueued : ¬ lanes.Queued task)
    (unused : task ∉ before .pending + before .taken) :
    Books { pq with heap := Function.update pq.heap task none } lanes fresh journal before := by
  apply books.rewrite (books.represents.write unqueued none)
  · intro other member
    have different : other ≠ task := fun same => unused (same ▸ member)
    simpa [different] using books.allocated other member
  · intro other record there
    by_cases same : other = task
    · subst same
      simp at there
    · exact books.stamps (by simpa [same] using there)

/-- Holdings that the journal already covers may be dropped. -/
theorem drop (books : Books pq lanes fresh journal before)
    (rejected : after .rejected ≤ before .rejected) (finished : after .finished ≤ before .finished)
    (others : ∀ account, account ≠ .rejected → account ≠ .finished →
      after account = before account) : Books pq lanes fresh journal after where
  represents := books.represents
  distinct := by rw [others .pending (by decide) (by decide)]; exact books.distinct
  created := by rw [others .pending (by decide) (by decide)]; exact books.created
  accepted := by rw [others .taken (by decide) (by decide)]; exact books.accepted
  called := by rw [others .running (by decide) (by decide)]; exact books.called
  returned := by rw [others .returning (by decide) (by decide)]; exact books.returned
  rejected task member := books.rejected task (Multiset.mem_of_le rejected member)
  finished task member := books.finished task (Multiset.mem_of_le finished member)
  allocated := by
    rw [others .pending (by decide) (by decide), others .taken (by decide) (by decide)]
    exact books.allocated
  stamps := books.stamps

theorem free_rejected (books : Books pq lanes fresh journal before) (held : task ∈ before .rejected) :
    Books { pq with heap := Function.update pq.heap task none } lanes fresh journal before := by
  have refused := books.rejected task held
  apply books.free
  · intro queued
    exact books.refused_not_accepted refused (books.queued_accepted queued)
  · intro member
    rcases Multiset.mem_add.mp member with pending | taken
    · exact books.refused_not_pending refused pending
    · exact books.refused_not_accepted refused (books.taken_accepted taken)

theorem free_finished (books : Books pq lanes fresh journal before) (held : task ∈ before .finished) :
    Books { pq with heap := Function.update pq.heap task none } lanes fresh journal before := by
  have called : task ∈ journal.called := by
    rw [← Multiset.mem_coe, books.called]
    simp [books.finished task held]
  have accepted : task ∈ journal.accepted := by
    rw [← Multiset.mem_coe, books.accepted]
    simp [called]
  obtain ⟨unqueued, untaken⟩ := books.called_apart called
  apply books.free unqueued
  intro member
  rcases Multiset.mem_add.mp member with pending | taken
  · exact books.pending_not_accepted pending accepted
  · exact untaken taken

theorem promote {src dst : Priority} {now : Timespec} {promoteMs : Int} {promoted : Bool}
    (books : Books pq lanes fresh journal before) (different : src ≠ dst)
    (result : pq.promoteLocked src dst now promoteMs = some (promoted, pq')) :
    ∃ lanes', Books pq' lanes' fresh journal before := by
  obtain ⟨moved, final, promotion, represents, keeps, _⟩ :=
    PriorityQueue.promoteLocked_spec books.represents different now promoteMs
  obtain ⟨rfl, rfl⟩ : moved = promoted ∧ final = pq' :=
    Prod.mk.inj (Option.some.inj (promotion.symm.trans result))
  refine ⟨lanes.promote (pq.due now promoteMs) src dst, { books with
    represents := represents
    accepted := ?_
    allocated := fun task member => keeps_allocated keeps (books.allocated task member)
    stamps := books.keeps_stamps keeps }⟩
  rw [Lanes.contents_promote different]
  exact books.accepted

/-- `pq_destroy` frees the queued tasks and no others. -/
theorem destroyQueue {tasks : List Addr} (books : Books pq lanes fresh journal before)
    (result : pq.pqDestroy = some (tasks, pq')) :
    ∃ lanes', Books pq' lanes' fresh
      { journal with destroyed := tasks ++ journal.destroyed } before := by
  obtain ⟨final, destroyed, represents, heap⟩ := PriorityQueue.pqDestroy_spec books.represents
  obtain ⟨rfl, rfl⟩ : _ = tasks ∧ final = pq' :=
    Prod.mk.inj (Option.some.inj (destroyed.symm.trans result))
  have emptied := PriorityQueue.destroyed_contents lanes
  have queued : ∀ {task}, task ∈ lanes .low ++ lanes .medium ++ lanes .high → lanes.Queued task := by
    intro task member
    rw [← Lanes.mem_contents, ← emptied]
    exact Multiset.mem_coe.mpr member
  refine ⟨Lanes.empty, { books with
    represents := represents
    accepted := ?_
    allocated := ?_
    stamps := ?_ }⟩
  · rw [books.accepted, Lanes.contents_empty, zero_add, ← emptied, Multiset.coe_add]
  · intro task member
    have kept : task ∉ lanes .low ++ lanes .medium ++ lanes .high := by
      intro inside
      rcases Multiset.mem_add.mp member with pending | taken
      · exact books.pending_not_queued pending (queued inside)
      · exact books.taken_not_queued taken (queued inside)
    rw [heap, PriorityQueue.freed, if_neg kept]
    exact books.allocated task member
  · intro task record there
    rw [heap] at there
    simp only [PriorityQueue.freed] at there
    split at there
    · cases there
    · exact books.stamps there

end Books

section Program

variable {ι : Type} [DecidableEq ι] {me : ι} {memory after : Memory ι} {pc next : Pc}
  {rest : Account → Multiset Addr}

attribute [local simp] Pc.share Pc.phase SubmitPc.phase WorkerPc.phase Phase.share

/-- The books of a memory, with what the threads hold. -/
def Memory.Balanced (memory : Memory ι) (shares : Account → Multiset Addr) : Prop :=
  ∃ lanes, Books memory.pq lanes memory.fresh memory.journal shares

omit [DecidableEq ι] in
theorem balanced_of_same (balanced : memory.Balanced (pc.share + rest)) (pq : after.pq = memory.pq)
    (fresh : after.fresh = memory.fresh) (journal : after.journal = memory.journal)
    (same : next.share = pc.share) : after.Balanced (next.share + rest) := by
  rw [Memory.Balanced, pq, fresh, journal, same]
  exact balanced

theorem submit_balanced {pc : SubmitPc} (writes : Writes me memory (.submit pc) after next)
    (balanced : memory.Balanced ((Pc.submit pc).share + rest)) : after.Balanced (next.share + rest) := by
  have ⟨lanes, books⟩ := balanced
  cases writes with
  | announce | count | uncount | createFails | fail =>
      exact balanced_of_same balanced rfl rfl rfl (by funext account; cases account <;> rfl)
  | create args =>
      have zero : Timespec.zero.Reading := by decide
      refine ⟨lanes, books.create zero ?_ fun account _ => ?_⟩
      · simp
        rfl
      · cases account <;> simp_all
  | stamp ticket record now found =>
      have mine : ticket.task ∈ ((Pc.submit (.stamp ticket)).share + rest) .pending := by simp
      have same : (Pc.submit (.lockQueue ticket)).share = (Pc.submit (.stamp ticket)).share := by
        funext account
        cases account <;> rfl
      rw [same]
      exact ⟨lanes, books.stamp found mine now.2⟩
  | full ticket =>
      refine ⟨lanes, books.refuse ?_ ?_ fun account _ _ => ?_⟩
      · simp
      · simp
      · cases account <;> simp_all
  | insert ticket max pq room inserted =>
      refine books.insert inserted ?_ ?_ fun account _ _ => ?_
      · simp
      · simp
      · cases account <;> simp_all
  | leave ticket =>
      refine ⟨lanes, books.leave ?_ fun account _ => ?_⟩
      · simp
      · cases account <;> simp_all
  | discard ticket =>
      have held : ticket.task ∈ ((Pc.submit (.discard ticket)).share + rest) .rejected := by simp
      refine ⟨lanes, (books.free_rejected held).drop ?_ ?_ fun account _ _ => ?_⟩
      · simpa using Multiset.le_cons_self _ _
      · simp
      · cases account <;> simp_all

theorem worker_balanced {pc : WorkerPc} (writes : Writes me memory (.worker pc) after next)
    (balanced : memory.Balanced ((Pc.worker pc).share + rest)) : after.Balanced (next.share + rest) := by
  have ⟨lanes, books⟩ := balanced
  cases writes with
  | popEmpty | setBusy | clearBusy | decrement | decrementLast =>
      exact balanced_of_same balanced rfl rfl rfl (by funext account; cases account <;> rfl)
  | pop task pq ready popped =>
      refine books.pop ready popped ?_ fun account _ => ?_
      · simp
      · cases account <;> simp_all
  | call task =>
      refine ⟨lanes, books.call ?_ ?_ fun account _ _ => ?_⟩
      · simp
      · simp
      · cases account <;> simp_all
  | running task =>
      refine ⟨lanes, books.complete ?_ ?_ fun account _ _ => ?_⟩
      · simp
      · simp
      · cases account <;> simp_all
  | destroy task =>
      have held : task ∈ ((Pc.worker (.destroy task)).share + rest) .finished := by simp
      refine ⟨lanes, (books.free_finished held).drop ?_ ?_ fun account _ _ => ?_⟩
      · simp
      · simpa using Multiset.le_cons_self _ _
      · cases account <;> simp_all

/-- Every write keeps the books balanced. -/
theorem writes_balanced (writes : Writes me memory pc after next)
    (balanced : memory.Balanced (pc.share + rest)) : after.Balanced (next.share + rest) := by
  cases pc with
  | submit pc => exact submit_balanced writes balanced
  | worker pc => exact worker_balanced writes balanced
  | setMaxTasks maxTasks =>
      obtain ⟨lanes, books⟩ := balanced
      cases writes
      exact ⟨lanes, books.rewrite (books.represents.setMaxTasks maxTasks) books.allocated books.stamps⟩
  | aging pc =>
      obtain ⟨lanes, books⟩ := balanced
      cases writes with
      | promote scan promoteMs now promoted pq result =>
          exact books.promote (by cases scan <;> decide) result
  | destroy pc =>
      have ⟨lanes, books⟩ := balanced
      cases writes with
      | storeShutdown | storePaused => exact balanced
      | destroyQueue tasks pq result => exact books.destroyQueue result
      | free => exact ⟨lanes, { books with }⟩
  | _ => cases writes <;> exact balanced

omit [DecidableEq ι] in
theorem init_balanced (roles : ι → Role) (idCount : Nat) :
    (threadPoolInit roles idCount).memory.Balanced 0 :=
  ⟨Lanes.empty,
    { represents := PriorityQueue.represents_init _
      distinct := by simp [threadPoolInit]
      created := by simp [threadPoolInit]
      accepted := by simp [threadPoolInit]
      called := by simp [threadPoolInit]
      returned := by simp [threadPoolInit]
      rejected := by simp
      finished := by simp
      allocated := by simp
      stamps := by simp [threadPoolInit, PriorityQueue.pqInit] }⟩

variable [Fintype ι] {allowed : PoolConfig ι → Label ι Input → Prop} {config : PoolConfig ι}
  {roles : ι → Role} {idCount : Nat}

theorem moves_balanced {after : PoolConfig ι} {label : Label ι Input}
    (moves : Moves pool config label after)
    (balanced : config.memory.Balanced (holding config Phase.share)) :
    after.memory.Balanced (holding after Phase.share) := by
  rcases moves_holding Phase.share moves with ⟨memory, total⟩ | ⟨i, pc, next, rest, _, writes, old, new⟩ |
    ⟨tid, memory, total⟩
  · rwa [memory, total]
  · rw [old] at balanced
    rw [new]
    exact writes_balanced writes balanced
  · rw [memory, total]
    exact balanced

/-- In every reachable state each task is in exactly one place. -/
theorem reachable_balanced (reaches : Reaches pool allowed (threadPoolInit roles idCount) config) :
    config.memory.Balanced (holding config Phase.share) := by
  apply reaches.invariant fun config => config.memory.Balanced (holding config Phase.share)
  · rw [holding_init Phase.share (by funext account; cases account <;> rfl)]
    exact init_balanced roles idCount
  · intro config label after _ balanced _ moves
    exact moves_balanced moves balanced

end Program

end ThreadPool.Pool
