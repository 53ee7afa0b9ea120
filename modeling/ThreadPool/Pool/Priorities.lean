import ThreadPool.Pool.SubmitNotes

namespace ThreadPool.Pool

open Foundation

/-! # The priority of a task before it is queued

The priority that a submit call was given stands in the record of its task until the task
is pushed: of all accesses only the aging scan writes a priority, and it finds the tasks in
the queue.
-/

/-- The ticket of a submit call whose task is not pushed yet. -/
def Pc.pending : Pc → Option Ticket
  | .submit (.count ticket) => some ticket
  | .submit (.checkAging ticket) => some ticket
  | .submit (.stamp ticket) => some ticket
  | .submit (.lockQueue ticket) => some ticket
  | .submit (.loadCap ticket) => some ticket
  | .submit (.insert ticket _) => some ticket
  | _ => none

section Writes

variable {ι : Type} [DecidableEq ι] {me : ι} {memory after : Memory ι} {pc next : Pc}
  {rest : Account → Multiset Addr} {lanes : Lanes Priority Addr} {ticket : Ticket} {task : Addr}

/-- The record of the task has the priority that the submit call was given. -/
def Memory.Labels (memory : Memory ι) (ticket : Ticket) : Prop :=
  (memory.pq.heap ticket.task).map Task.priority = some ticket.priority

omit [DecidableEq ι] in
theorem pending_share (pending : pc.pending = some ticket) : ticket.task ∈ pc.share .pending := by
  cases pc with
  | submit pc =>
      cases pc with
      | count | checkAging | stamp | lockQueue | loadCap | insert =>
          cases pending
          exact Multiset.mem_singleton_self _
      | _ => cases pending
  | _ => cases pending

attribute [local simp] Pc.share Pc.phase SubmitPc.phase WorkerPc.phase Phase.share

/-- No write changes the priority of a task that a submit call still has to push. -/
theorem writes_priority (writes : Writes me memory pc after next)
    (books : Books memory.pq lanes memory.fresh memory.journal (pc.share + rest))
    (pending : task ∈ (pc.share + rest) .pending) :
    (after.pq.heap task).map Task.priority = (memory.pq.heap task).map Task.priority := by
  have unqueued := books.pending_not_queued pending
  cases writes with
  | create args =>
      have old : task ≠ memory.fresh := by
        rintro rfl
        exact lt_irrefl _ (books.created _ (Multiset.mem_add.mpr (.inl (Multiset.mem_add.mpr (.inl pending)))))
      simp [Memory.createTask, PriorityQueue.store, old]
  | stamp ticket record now found =>
      by_cases mine : task = ticket.task
      · simp [PriorityQueue.store, mine, found]
      · simp [PriorityQueue.store, mine]
  | insert ticket max pq room inserted => exact PriorityQueue.pqInsertLocked_priority inserted task
  | pop popped pq ready result => exact PriorityQueue.popHighest_priority result task
  | discard ticket =>
      have refused := books.rejected ticket.task (by simp)
      have other : task ≠ ticket.task := by
        rintro rfl
        exact books.refused_not_pending refused pending
      simp [Memory.taskDestroy, other]
  | destroy finished =>
      have completed := books.finished finished (by simp)
      have accepted := books.executed_accepted (Multiset.mem_add.mpr (.inr completed))
      have other : task ≠ finished := by
        rintro rfl
        exact books.pending_not_accepted pending accepted
      simp [Memory.taskDestroy, other]
  | promote scan promoteMs now promoted pq result =>
      have different : scan.src ≠ scan.dst := by cases scan <;> decide
      obtain ⟨moved, final, promotion, _, _, _, frame⟩ :=
        PriorityQueue.promoteLocked_spec books.represents different now promoteMs
      obtain ⟨rfl, rfl⟩ : moved = promoted ∧ final = pq :=
        Prod.mk.inj (Option.some.inj (promotion.symm.trans result))
      exact congrArg _ (frame task fun due => unqueued ⟨_, (List.takeWhile_sublist _).subset due⟩)
  | destroyQueue tasks pq result =>
      obtain ⟨final, destroyed, _, heap⟩ := PriorityQueue.pqDestroy_spec books.represents
      obtain ⟨rfl, rfl⟩ : _ = tasks ∧ final = pq :=
        Prod.mk.inj (Option.some.inj (destroyed.symm.trans result))
      have kept : task ∉ lanes .low ++ lanes .medium ++ lanes .high := by
        intro member
        rw [← Multiset.mem_coe, PriorityQueue.destroyed_contents, Lanes.mem_contents] at member
        exact unqueued member
      rw [heap, PriorityQueue.freed, if_neg kept]
  | _ => rfl

omit [DecidableEq ι] in
theorem syncs_pending (syncs : Syncs pc next) : next.pending = pc.pending := by
  cases syncs <;> rfl

omit [DecidableEq ι] in
theorem reads_pending (reads : Reads memory pc next) : next.pending = pc.pending := by
  cases reads with
  | call _ _ entry => cases entry <;> rfl
  | _ => rfl

/-- A ticket stays as it is until its task is pushed, and the record agrees with it from the
start. -/
theorem goes_pending (goes : Goes me memory pc after next) (pending : next.pending = some ticket) :
    pc.pending = some ticket ∨ after.Labels ticket := by
  cases goes with
  | sync syncs => exact .inl ((syncs_pending syncs).symm.trans pending)
  | read behind reads =>
      rw [reads_pending reads, behind.same syncs_pending] at pending
      exact .inl pending
  | write behind writes =>
      rw [← behind.same syncs_pending]
      cases writes with
      | create args =>
          cases pending
          exact .inr (by simp [Memory.Labels, Memory.createTask, PriorityQueue.store, taskCreate])
      | count | stamp => exact .inl pending
      | _ => cases pending
  | create | createFails | created => cases pending

end Writes

section Reachable

variable {ι : Type} [DecidableEq ι] [Fintype ι] {config after : PoolConfig ι} {label : Label ι Input}
  {allowed : PoolConfig ι → Label ι Input → Prop} {roles : ι → Role} {idCount : Nat}

theorem moves_priority {task : Addr} (moves : Moves pool config label after)
    (balanced : config.memory.Balanced (holding config Phase.share))
    (pending : task ∈ holding config Phase.share .pending) :
    (after.memory.pq.heap task).map Task.priority = (config.memory.pq.heap task).map Task.priority := by
  obtain ⟨lanes, books⟩ := balanced
  rcases moves_holding Phase.share moves with ⟨memory, _⟩ | ⟨i, pc, next, rest, _, writes, old, _⟩ |
    ⟨tid, memory, _⟩
  · rw [memory]
  · rw [old] at books pending
    exact writes_priority writes books pending
  · rw [memory]

/-- Every task that is about to be pushed has the priority that its submit call was given. -/
theorem reachable_labelled (reaches : Reaches pool allowed (threadPoolInit roles idCount) config)
    (i : ι) {ticket : Ticket} (pending : (config.point i).pending = some ticket) :
    config.memory.Labels ticket := by
  revert i ticket
  apply reaches.invariant fun config => ∀ i, ∀ {ticket}, (config.point i).pending = some ticket →
    config.memory.Labels ticket
  · intro i ticket pending
    change (roles i).start.pending = some ticket at pending
    cases role : roles i <;> rw [role] at pending <;> cases pending
  · intro config label after reached labelled _ moves i ticket pending
    have known : (config.point i).pending = some ticket ∨ after.memory.Labels ticket := by
      rcases moves_goes moves i with same | goes
      · rw [same] at pending
        exact .inl pending
      · exact goes_pending goes pending
    rcases known with old | new
    · have held := share_held config i (pending_share old)
      exact (moves_priority moves (reachable_balanced reached) held).trans (labelled i old)
    · exact new

end Reachable

end ThreadPool.Pool
