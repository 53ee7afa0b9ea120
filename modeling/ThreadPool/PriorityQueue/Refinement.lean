import Mathlib.Algebra.BigOperators.Ring.Finset
import Mathlib.Tactic.Abel
import ThreadPool.PriorityQueue.Runs

namespace ThreadPool.PriorityQueue

open Foundation

/-! # The queue refines three first-in first-out lists

`PriorityQueue.lanes` is the abstraction: it follows the links from the three
heads. `RefinesLanes` says what each operation does to the lists, and the task
accounts of a run balance what goes in against what comes out.
-/

variable {pq after start : PriorityQueue} {lanes lanes' : Lanes Priority Addr} {op : Op}
  {reply : Reply} {events : List Event} {heap : Addr → Option Task} {cursor : Option Addr}
  {path : List Addr} {fuel : Nat}

/-- `free` of every block in a list. -/
def freed (heap : Addr → Option Task) (blocks : List Addr) : Addr → Option Task :=
  fun a => if a ∈ blocks then none else heap a

@[simp] theorem freed_nil : freed heap [] = heap := by
  funext a
  simp [freed]

theorem freed_freed (first second : List Addr) :
    freed (freed heap first) second = freed heap (first ++ second) := by
  funext a
  by_cases left : a ∈ first <;> by_cases right : a ∈ second <;> simp [freed, left, right]

theorem chain_freed {blocks : List Addr} (apart : List.Disjoint blocks path)
    (chain : Chain (fun a => (heap a).map Task.next) cursor path) :
    Chain (fun a => (freed heap blocks a).map Task.next) cursor path := by
  apply segment_congr ?_ chain
  intro a member
  have outside : a ∉ blocks := fun inside => apart inside member
  simp [freed, outside]

theorem destroyLane_spec (chain : Chain (fun a => (heap a).map Task.next) cursor path)
    (enough : path.length ≤ fuel) : destroyLane fuel heap cursor = some (path, freed heap path) := by
  induction path generalizing fuel heap cursor with
  | nil =>
      have null : cursor = none := chain
      subst null
      simp [destroyLane]
  | cons node rest ih =>
      have nodup := chain.nodup
      obtain ⟨same, target, found, remaining⟩ := chain
      subst same
      obtain ⟨record, lookup, next⟩ := Option.map_eq_some_iff.mp found
      cases fuel with
      | zero => simp at enough
      | succ fuel =>
          have single : Function.update heap node none = freed heap [node] := by
            funext a
            by_cases same : a = node <;> simp [freed, same]
          have apart : List.Disjoint [node] rest := by
            simpa using (List.nodup_cons.mp nodup).1
          have later := ih (chain_freed apart remaining) (by simpa using enough)
          simp [destroyLane, lookup, next, single, later, freed_freed]

/-- `pq_destroy` hands every queued task to `task_destroy`, lane by lane, and
leaves an empty queue. -/
theorem pqDestroy_spec (rep : pq.Represents lanes) :
    ∃ after, pq.pqDestroy = some (lanes .low ++ lanes .medium ++ lanes .high, after) ∧
      after.Represents Lanes.empty ∧
      after.heap = freed pq.heap (lanes .low ++ lanes .medium ++ lanes .high) := by
  have low := destroyLane_spec (rep.chain .low) (rep.lane_length_le .low)
  have first : List.Disjoint (lanes .low) (lanes .medium) := rep.disjoint (by decide)
  have medium := destroyLane_spec (chain_freed first (rep.chain .medium)) (rep.lane_length_le .medium)
  have apart : List.Disjoint (lanes .low ++ lanes .medium) (lanes .high) :=
    List.disjoint_append_left.mpr ⟨rep.disjoint (by decide), rep.disjoint (by decide)⟩
  have high := destroyLane_spec (chain_freed apart (rep.chain .high)) (rep.lane_length_le .high)
  rw [freed_freed] at medium high
  refine ⟨_, by simp only [pqDestroy, low, medium, high, Option.bind_eq_bind, Option.bind_some]; rfl, ?_, rfl⟩
  exact { represents_init _ with chain := fun _ => rfl, tail := fun _ => rfl }

/-- What the operations do to the three lists of the queue. -/
structure RefinesLanes (pq : PriorityQueue) : Prop where
  push : ∀ {task record}, pq.heap task = some record → ¬ pq.lanes.Queued task →
    ∃ after, pq.exec (.push (some task)) = some (.done, after) ∧
      after.lanes = pq.lanes.push record.priority task
  tryPush : ∀ {task record}, pq.heap task = some record → ¬ pq.lanes.Queued task →
    pq.atCapacity pq.maxTasks = false →
    ∃ after, pq.exec (.tryPush (some task)) = some (.pushed true, after) ∧
      after.lanes = pq.lanes.push record.priority task
  rejected : ∀ {task after}, pq.exec (.tryPush task) = some (.pushed false, after) → after = pq
  pop : ∀ {op}, op.IsPop → ¬ (∀ p, pq.lanes p = []) →
    ∃ p task rest after, pq.lanes.Top p ∧ pq.lanes p = task :: rest ∧
      pq.exec op = some (.popped (some task), after) ∧ after.lanes = pq.lanes.dropHead p
  popNonblock : (∃ after, pq.exec .popNonblock = some (.popped none, after)) ↔ ∀ p, pq.lanes p = []
  aging : ∀ pass, ∃ after, pq.exec (.aging pass) = some (.done, after) ∧
    after.lanes = pq.agedLanes pq.lanes pass
  size : (∑ p, (pq.lanes p).length) < 2 ^ 31 → pq.pqSize = ∑ p, ((pq.lanes p).length : Int)
  isEmpty : pq.pqIsEmpty = if ∀ p, pq.lanes p = [] then 1 else 0

theorem tryPush_rejected {task : Option Addr}
    (called : pq.exec (.tryPush task) = some (.pushed false, after)) : after = pq := by
  cases task with
  | none =>
      simp only [exec, pqTryPush, Option.map_some, Option.some.injEq, Prod.mk.injEq] at called
      exact called.2.symm
  | some task =>
      cases room : pq.atCapacity pq.maxTasks with
      | true =>
          simp only [exec, tryPush_full room, Option.map_some, Option.some.injEq,
            Prod.mk.injEq] at called
          exact called.2.symm
      | false =>
          cases inserted : pq.pqInsertLocked task with
          | none => simp [exec, pqTryPush, room, inserted] at called
          | some grown => simp [exec, pqTryPush, room, inserted] at called

theorem Represents.refinesLanes (rep : pq.Represents lanes) : pq.RefinesLanes := by
  have abstraction := rep.lanes_eq
  constructor
  case push =>
    intro task record found fresh
    rw [abstraction] at fresh ⊢
    obtain ⟨after, inserted, grown, _⟩ := insert_spec rep found fresh
    exact ⟨after, by rw [exec, pqPush, inserted]; rfl, grown.lanes_eq⟩
  case tryPush =>
    intro task record found fresh room
    rw [abstraction] at fresh ⊢
    obtain ⟨after, pushed, grown, _⟩ := tryPush_spec rep found fresh room
    exact ⟨after, by rw [exec, pushed]; rfl, grown.lanes_eq⟩
  case rejected => exact tryPush_rejected
  case pop =>
    intro op isPop filled
    rw [abstraction] at filled ⊢
    rcases pop_effect rep isPop with ⟨empty, _⟩ | ⟨p, task, rest, after, top, lane, popped, shrunk⟩
    · exact absurd (Lanes.contents_eq_zero.mp empty) filled
    · exact ⟨p, task, rest, after, top, lane, popped, shrunk.lanes_eq⟩
  case popNonblock =>
    rw [abstraction, ← Lanes.contents_eq_zero, ← rep.mask_eq_zero]
    constructor
    · rintro ⟨after, called⟩
      by_contra ready
      obtain ⟨p, task, rest, final, _, _, popped, _⟩ := pop_spec rep ready
      rw [exec, pqPopNonblock, if_neg ready, popped] at called
      cases called
    · intro empty
      exact ⟨pq, by rw [exec, pqPopNonblock, if_pos empty, PopOutcome.reply?]⟩
  case aging =>
    intro pass
    obtain ⟨after, aged, moved, _⟩ := pqAging_spec rep pass
    exact ⟨after, by rw [exec, aged]; rfl, by rw [moved.lanes_eq, abstraction]⟩
  case size =>
    intro below
    rw [abstraction] at below ⊢
    rw [pqSize, rep.size, Lanes.card_contents, wrap_of_range_32 (by omega) (by omega)]
    exact Nat.cast_sum Finset.univ fun p => (lanes p).length
  case isEmpty =>
    rw [abstraction, pqIsEmpty]
    simp only [rep.mask_eq_zero, Lanes.contents_eq_zero]

theorem contents_agedLanes (pq : PriorityQueue) (lanes : Lanes Priority Addr) (pass : AgingPass) :
    (pq.agedLanes lanes pass).contents = lanes.contents := by
  have first : (pq.firstScan lanes pass).contents = lanes.contents := by
    rw [firstScan]
    split
    · rfl
    · exact Lanes.contents_promote Priority.medium_covBy_high.lt.ne
  rw [agedLanes]
  split
  · exact first
  · exact (Lanes.contents_promote Priority.low_covBy_medium.lt.ne).trans first

/-- A call moves tasks into the queue or out of it, and loses none. -/
theorem Effect.balance (effect : Effect pq lanes op reply lanes') :
    ((accepts (op, reply)).toList : Multiset Addr) + lanes.contents =
      ((removes (op, reply)).toList : Multiset Addr) + lanes'.contents := by
  cases effect with
  | write | pushNull | tryPushNull | tryPushFull | setMaxTasks => simp [accepts, removes]
  | push | tryPush => simp [accepts, removes, Lanes.contents_push]
  | popNull isPop => simp [accepts_pop isPop, removes]
  | popHead isPop _ lane => simp [accepts_pop isPop, removes, Lanes.contents_dropHead lane]
  | aging => simp [accepts, removes, contents_agedLanes]

theorem Run.balance (run : Run start events pq) (rep : start.Represents lanes) :
    ∃ lanes', pq.Represents lanes' ∧
      (acceptedTasks events : Multiset Addr) + lanes.contents =
        (poppedTasks events : Multiset Addr) + lanes'.contents := by
  induction run generalizing lanes with
  | nil => exact ⟨lanes, rep, by simp [acceptedTasks, poppedTasks]⟩
  | @cons pq next after op reply events allowed called _ ih =>
      obtain ⟨middle, effect, moved⟩ := rep.step allowed called
      obtain ⟨lanes', final, later⟩ := ih moved
      have accepted : acceptedTasks ((op, reply) :: events) =
          (accepts (op, reply)).toList ++ acceptedTasks events := by
        cases handed : accepts (op, reply) <;> simp [acceptedTasks, handed]
      have popped : poppedTasks ((op, reply) :: events) =
          (removes (op, reply)).toList ++ poppedTasks events := by
        cases taken : removes (op, reply) <;> simp [poppedTasks, taken]
      refine ⟨lanes', final, ?_⟩
      calc (acceptedTasks ((op, reply) :: events) : Multiset Addr) + lanes.contents
          = (acceptedTasks events : Multiset Addr) +
              (((accepts (op, reply)).toList : Multiset Addr) + lanes.contents) := by
            rw [accepted, ← Multiset.coe_add]; abel
        _ = ((removes (op, reply)).toList : Multiset Addr) +
              ((acceptedTasks events : Multiset Addr) + middle.contents) := by
            rw [effect.balance]; abel
        _ = (poppedTasks ((op, reply) :: events) : Multiset Addr) + lanes'.contents := by
            rw [later, popped, ← Multiset.coe_add]; abel

theorem destroyed_contents (lanes : Lanes Priority Addr) :
    ((lanes .low ++ lanes .medium ++ lanes .high : List Addr) : Multiset Addr) = lanes.contents := by
  have levels : (Finset.univ : Finset Priority) = {.low, .medium, .high} := rfl
  rw [Lanes.contents, levels, Finset.sum_insert (by decide), Finset.sum_insert (by decide),
    Finset.sum_singleton, ← Multiset.coe_add, ← Multiset.coe_add, add_assoc]

theorem nodup_destroyed (separate : lanes.Separate) :
    (lanes .low ++ lanes .medium ++ lanes .high).Nodup := by
  have first : List.Disjoint (lanes .low) (lanes .medium) := separate.disjoint (by decide)
  have second : List.Disjoint (lanes .low ++ lanes .medium) (lanes .high) :=
    List.disjoint_append_left.mpr ⟨separate.disjoint (by decide), separate.disjoint (by decide)⟩
  exact ((separate.nodup _).append (separate.nodup _) first).append (separate.nodup _) second

/-- Every reachable queue refines its three lists, and a run that ends in
`pq_destroy` pops or destroys each accepted task exactly once. -/
theorem run_refines_lanes (run : Run (pqInit heap) events pq) :
    pq.RefinesLanes ∧
      ∃ destroyed after, pq.pqDestroy = some (destroyed, after) ∧ destroyed.Nodup ∧
        (∀ task, task ∈ destroyed ↔ pq.lanes.Queued task) ∧ (∀ p, after.lanes p = []) ∧
        ∀ task, (acceptedTasks events).count task =
          (poppedTasks events).count task + destroyed.count task := by
  obtain ⟨lanes, rep, balance⟩ := run.balance (represents_init heap)
  obtain ⟨after, destroyed, empty, _⟩ := pqDestroy_spec rep
  refine ⟨rep.refinesLanes, _, after, destroyed, nodup_destroyed rep.separate, ?_, ?_, ?_⟩
  · intro task
    rw [rep.lanes_eq, ← Lanes.mem_contents, ← destroyed_contents, Multiset.mem_coe]
  · intro p
    rw [empty.lanes_eq]
    rfl
  · intro task
    rw [Lanes.contents_empty, add_zero, ← destroyed_contents] at balance
    have counts := congrArg (Multiset.count task) balance
    rwa [Multiset.count_add, Multiset.coe_count, Multiset.coe_count, Multiset.coe_count] at counts

theorem run_refines_lanes_promotionCalls : ∃ events pq,
    (pqInit fun _ => none).runOps promotionCalls = some (events, pq) ∧ pq.RefinesLanes ∧
      ∃ destroyed after, pq.pqDestroy = some (destroyed, after) ∧ destroyed.Nodup ∧
        (∀ task, task ∈ destroyed ↔ pq.lanes.Queued task) ∧ (∀ p, after.lanes p = []) ∧
        ∀ task, (acceptedTasks events).count task =
          (poppedTasks events).count task + destroyed.count task := by
  obtain ⟨events, pq, result⟩ := promotionCalls_run
  exact ⟨events, pq, result, run_refines_lanes (Run.of_runOps result)⟩

end ThreadPool.PriorityQueue
