import ThreadPool.Pool.Books

namespace ThreadPool.Pool

open Foundation

/-! # The counters of the pool

`total_task_in_system` counts the tasks that are queued, in the hands of a worker, or
between the increment and the push of a submit call; `in_flight_submits` counts the
submit calls. Both are 32-bit counters and are exact up to wrap-around.
-/

/-- The share of a thread in `total_task_in_system`. -/
def Phase.counts : Phase → Nat
  | .counted _ => 1
  | .refused _ => 1
  | .taken _ => 1
  | .running _ => 1
  | .finished _ => 1
  | .retiring => 1
  | _ => 0

/-- The share of a thread in `in_flight_submits`. -/
def Phase.inFlight : Phase → Nat
  | .announced => 1
  | .created _ => 1
  | .counted _ => 1
  | .inserted _ => 1
  | .refused _ => 1
  | .uncounted _ => 1
  | _ => 0

theorem insert_counts {pq pq' : PriorityQueue} {task : Addr}
    (inserted : pq.pqInsertLocked task = some pq') :
    pq'.size = pq.size + 1 ∧ pq'.maxTasks = pq.maxTasks := by
  simp only [PriorityQueue.pqInsertLocked, Option.bind_eq_bind, Option.bind_eq_some_iff,
    Option.pure_def] at inserted
  obtain ⟨record, _, linked⟩ := inserted
  split at linked
  · cases linked
    exact ⟨rfl, rfl⟩
  · simp only [Option.bind_eq_some_iff, Option.some.injEq] at linked
    obtain ⟨last, _, _, rfl, rfl⟩ := linked
    exact ⟨rfl, rfl⟩

theorem pop_counts {pq pq' : PriorityQueue} {lanes : Lanes Priority Addr} {task : Addr}
    (represents : pq.Represents lanes) (ready : pq.readyMask ≠ 0)
    (popped : pq.popHighest = some (task, pq')) :
    pq.size = pq'.size + 1 ∧ pq'.maxTasks = pq.maxTasks := by
  obtain ⟨p, first, rest, shrunk, _, lane, result, after, keeps⟩ :=
    PriorityQueue.pop_spec represents ready
  obtain ⟨rfl, rfl⟩ : first = task ∧ shrunk = pq' :=
    Prod.mk.inj (Option.some.inj (result.symm.trans popped))
  refine ⟨?_, keeps.maxTasks⟩
  rw [represents.size, after.size, Lanes.contents_dropHead lane, Multiset.card_cons]

theorem promote_counts {pq pq' : PriorityQueue} {lanes : Lanes Priority Addr} {src dst : Priority}
    {now : Timespec} {promoteMs : Int} {promoted : Bool} (represents : pq.Represents lanes)
    (different : src ≠ dst)
    (result : pq.promoteLocked src dst now promoteMs = some (promoted, pq')) :
    pq'.size = pq.size ∧ pq'.maxTasks = pq.maxTasks := by
  obtain ⟨moved, final, promotion, after, keeps, _⟩ :=
    PriorityQueue.promoteLocked_spec represents different now promoteMs
  obtain ⟨rfl, rfl⟩ : moved = promoted ∧ final = pq' :=
    Prod.mk.inj (Option.some.inj (promotion.symm.trans result))
  refine ⟨?_, keeps.maxTasks⟩
  rw [represents.size, after.size, Lanes.contents_promote different]

theorem destroy_size {pq pq' : PriorityQueue} {lanes : Lanes Priority Addr} {tasks : List Addr}
    (represents : pq.Represents lanes) (result : pq.pqDestroy = some (tasks, pq')) :
    pq'.size = 0 ∧ tasks.length = pq.size := by
  obtain ⟨final, destroyed, after, _⟩ := PriorityQueue.pqDestroy_spec represents
  obtain ⟨rfl, rfl⟩ : _ = tasks ∧ final = pq' :=
    Prod.mk.inj (Option.some.inj (destroyed.symm.trans result))
  constructor
  · rw [after.size, Lanes.contents_empty, Multiset.card_zero]
  · rw [represents.size, ← PriorityQueue.destroyed_contents, Multiset.coe_card]

/-- No synchronisation leads to the increment of the counter. -/
theorem behind_count {pc : Pc} {ticket : Ticket} (behind : Behind pc (.submit (.count ticket))) :
    pc = .submit (.count ticket) := by
  rcases behind with same | syncs
  · exact same
  · cases syncs

section Program

variable {ι : Type} [DecidableEq ι] {me : ι} {memory after : Memory ι} {pc next : Pc}

/-- The tasks outside the hands of the threads that the counter covers; those that
`pq_destroy` frees are never uncounted. -/
def Memory.countedTasks (memory : Memory ι) : Nat :=
  memory.pq.size + memory.journal.destroyed.length

/-- How a write moves the counter and what it counts. -/
theorem writes_total {lanes : Lanes Priority Addr} (writes : Writes me memory pc after next)
    (represents : memory.pq.Represents lanes) :
    (after.totalTaskInSystem = memory.totalTaskInSystem ∧
      after.countedTasks + next.phase.counts = memory.countedTasks + pc.phase.counts) ∨
    ((∃ ticket, pc = .submit (.count ticket)) ∧ after = memory.addTotal 1 ∧
      next.phase.counts = pc.phase.counts + 1) ∨
    (after = memory.addTotal (-1) ∧ next.phase.counts + 1 = pc.phase.counts) := by
  cases writes with
  | count ticket => exact .inr (.inl ⟨⟨ticket, rfl⟩, rfl, rfl⟩)
  | uncount | decrement | decrementLast => exact .inr (.inr ⟨rfl, rfl⟩)
  | insert ticket max pq room inserted =>
      refine .inl ⟨rfl, ?_⟩
      have size := (insert_counts inserted).1
      simp only [Memory.countedTasks, Pc.phase, SubmitPc.phase, Phase.counts]
      omega
  | pop task pq ready popped =>
      refine .inl ⟨rfl, ?_⟩
      have size := (pop_counts represents ready popped).1
      simp only [Memory.countedTasks, Pc.phase, WorkerPc.phase, Phase.counts]
      omega
  | promote scan promoteMs now promoted pq result =>
      refine .inl ⟨rfl, ?_⟩
      have size := (promote_counts represents (by cases scan <;> decide) result).1
      simp only [Memory.countedTasks, Pc.phase, size]
  | destroyQueue tasks pq result =>
      refine .inl ⟨rfl, ?_⟩
      have size := destroy_size represents result
      simp only [Memory.countedTasks, Pc.phase, List.length_append, size.1, size.2]
      omega
  | _ => exact .inl ⟨rfl, rfl⟩

theorem writes_inFlight (writes : Writes me memory pc after next) :
    (after.inFlightSubmits = memory.inFlightSubmits ∧ next.phase.inFlight = pc.phase.inFlight) ∨
    (after.inFlightSubmits = memory.inFlightSubmits + 1#32 ∧
      next.phase.inFlight = pc.phase.inFlight + 1) ∨
    (after.inFlightSubmits = memory.inFlightSubmits - 1#32 ∧
      next.phase.inFlight + 1 = pc.phase.inFlight) := by
  cases writes with
  | announce => exact .inr (.inl ⟨rfl, rfl⟩)
  | leave | fail => exact .inr (.inr ⟨rfl, rfl⟩)
  | _ => exact .inl ⟨rfl, rfl⟩

end Program

section Reachable

variable {ι : Type} [DecidableEq ι] [Fintype ι] {config after : PoolConfig ι} {label : Label ι Input}
  {allowed : PoolConfig ι → Label ι Input → Prop} {roles : ι → Role} {idCount : Nat}

/-- What `total_task_in_system` counts. -/
def tasksInSystem (config : PoolConfig ι) : Nat :=
  config.memory.countedTasks + holding config Phase.counts

/-- What `in_flight_submits` counts. -/
def submitsInFlight (config : PoolConfig ι) : Nat :=
  holding config Phase.inFlight

theorem moves_total {lanes : Lanes Priority Addr} (moves : Moves pool config label after)
    (represents : config.memory.pq.Represents lanes) :
    (after.memory.totalTaskInSystem = config.memory.totalTaskInSystem ∧
      tasksInSystem after = tasksInSystem config) ∨
    ((∃ i ticket, config.point i = .submit (.count ticket)) ∧
      after.memory = config.memory.addTotal 1 ∧ tasksInSystem after = tasksInSystem config + 1) ∨
    (after.memory = config.memory.addTotal (-1) ∧ tasksInSystem after + 1 = tasksInSystem config) := by
  rcases moves_holding Phase.counts moves with
    ⟨memory, held⟩ | ⟨i, pc, next, rest, behind, writes, before, later⟩ | ⟨tid, memory, held⟩
  · exact .inl ⟨by rw [memory], by rw [tasksInSystem, memory, held, tasksInSystem]⟩
  · rw [tasksInSystem, tasksInSystem, before, later]
    rcases writes_total writes represents with
      ⟨same, counts⟩ | ⟨⟨ticket, here⟩, written, counts⟩ | ⟨written, counts⟩
    · exact .inl ⟨same, by omega⟩
    · subst here
      refine .inr (.inl ⟨⟨i, ticket, behind_count behind⟩, written, ?_⟩)
      rw [written, counts]
      simp only [Memory.countedTasks, Memory.addTotal]
      omega
    · refine .inr (.inr ⟨written, ?_⟩)
      rw [written, ← counts]
      simp only [Memory.countedTasks, Memory.addTotal]
      omega
  · exact .inl ⟨by rw [memory], by rw [tasksInSystem, memory, held]; rfl⟩

/-- The counter is exact modulo the width of `int`. -/
theorem reachable_total (reaches : Reaches pool allowed (threadPoolInit roles idCount) config) :
    config.memory.totalTaskInSystem = wrap 32 (tasksInSystem config) := by
  apply reaches.invariant fun config => config.memory.totalTaskInSystem = wrap 32 (tasksInSystem config)
  · rw [tasksInSystem, holding_init Phase.counts rfl]
    change (0 : Int) = wrap 32 0
    rw [wrap_of_range_32] <;> decide
  · intro config label after reached counter _ moves
    obtain ⟨lanes, books⟩ := reachable_balanced reached
    rcases moves_total moves books.represents with ⟨same, tasks⟩ | ⟨_, written, tasks⟩ | ⟨written, tasks⟩
    · rw [same, tasks, counter]
    · rw [written, tasks, Memory.addTotal, counter, wrap_add_left]
      push_cast
      rfl
    · rw [written, Memory.addTotal, counter, wrap_add_left, ← tasks]
      push_cast
      rw [add_neg_cancel_right]

/-- Below the range of `int` the counter is exact. -/
theorem reachable_total_eq (reaches : Reaches pool allowed (threadPoolInit roles idCount) config)
    (few : tasksInSystem config < 2 ^ 31) :
    config.memory.totalTaskInSystem = tasksInSystem config := by
  rw [reachable_total reaches, wrap_of_range_32] <;> omega

theorem reachable_inFlight (reaches : Reaches pool allowed (threadPoolInit roles idCount) config) :
    config.memory.inFlightSubmits = BitVec.ofNat 32 (submitsInFlight config) := by
  apply reaches.invariant fun config =>
    config.memory.inFlightSubmits = BitVec.ofNat 32 (submitsInFlight config)
  · rw [submitsInFlight, holding_init Phase.inFlight rfl]
    rfl
  · intro config label after _ counter _ moves
    simp only [submitsInFlight] at counter ⊢
    rcases moves_holding Phase.inFlight moves with
      ⟨memory, held⟩ | ⟨i, pc, next, rest, _, writes, before, later⟩ | ⟨tid, memory, held⟩
    · rw [memory, held, counter]
    · rw [later]
      rw [before] at counter
      rcases writes_inFlight writes with ⟨same, calls⟩ | ⟨more, calls⟩ | ⟨less, calls⟩
      · rw [same, counter, calls]
      · rw [more, counter, calls, Nat.add_right_comm, BitVec.ofNat_add (_ + rest)]
      · rw [less, counter, ← calls, Nat.add_right_comm, BitVec.ofNat_add (_ + rest),
          BitVec.add_sub_cancel]
    · rw [memory, held]
      exact counter

end Reachable

end ThreadPool.Pool
