import ThreadPool.Foundation.Chain
import ThreadPool.Task

namespace ThreadPool.Baseline

open Foundation

/-! # The queue of the baseline pool

`struct baseline_queue_t`: a singly linked list with pointers to both ends. It represents
the list of tasks that its links visit; `q_push` appends to that list and
`q_pop_until_shutdown` takes its head.
-/

/-- `struct baseline_task_t`, without its `task_id`, which the pool neither sets nor reads. -/
structure Task where
  func : Nat
  arg : Nat
  next : Option Addr

structure Queue where
  heap : Addr → Option Task
  head : Option Addr
  tail : Option Addr

namespace Queue

def store (queue : Queue) (addr : Addr) (record : Task) : Queue :=
  { queue with heap := Function.update queue.heap addr (some record) }

def link (queue : Queue) (addr : Addr) : Option (Option Addr) :=
  (queue.heap addr).map Task.next

/-- The critical section of `q_push`. -/
def qPush (queue : Queue) (task : Addr) : Option Queue :=
  match queue.tail with
  | some last => do
      let record ← queue.heap last
      return { queue.store last { record with next := some task } with tail := some task }
  | none => some { queue with head := some task, tail := some task }

/-- The critical section of `q_pop_until_shutdown` behind its loop. -/
def qPop (queue : Queue) : Option (Addr × Queue) := do
  let task ← queue.head
  let record ← queue.heap task
  return (task,
    { queue with head := record.next, tail := if record.next = none then none else queue.tail })

structure Represents (queue : Queue) (tasks : List Addr) : Prop where
  chain : Chain queue.link queue.head tasks
  tail : queue.tail = tasks.getLast?

variable {queue after : Queue} {tasks : List Addr} {task : Addr} {record : Task}

theorem link_store (queue : Queue) (addr : Addr) (record : Task) :
    (queue.store addr record).link = Function.update queue.link addr (some record.next) := by
  funext other
  by_cases same : other = addr
  · subst same
    simp [link, store]
  · simp [link, store, same]

theorem Represents.head_eq (represents : queue.Represents tasks) : queue.head = tasks.head? :=
  represents.chain.start_eq

/-- The queue depends on the blocks of its own tasks only. -/
theorem Represents.frame (represents : queue.Represents tasks) (head : after.head = queue.head)
    (tail : after.tail = queue.tail) (links : ∀ addr ∈ tasks, after.link addr = queue.link addr) :
    after.Represents tasks := by
  constructor
  · rw [head]
    exact segment_congr links represents.chain
  · rw [tail, represents.tail]

theorem qPush_represents (represents : queue.Represents tasks) (fresh : task ∉ tasks)
    (ends : queue.link task = some none) (pushed : queue.qPush task = some after) :
    after.Represents (tasks ++ [task]) ∧ ∀ addr ∉ tasks, after.link addr = queue.link addr := by
  rcases List.eq_nil_or_concat' tasks with rfl | ⟨front, last, rfl⟩
  · have tail : queue.tail = none := represents.tail
    simp only [qPush, tail, Option.some.injEq] at pushed
    subst pushed
    exact ⟨⟨⟨rfl, none, ends, rfl⟩, rfl⟩, fun _ _ => rfl⟩
  · have tail : queue.tail = some last := by rw [represents.tail, List.getLast?_concat]
    simp only [qPush, tail, Option.bind_eq_bind, Option.bind_eq_some_iff, Option.pure_def,
      Option.some.injEq] at pushed
    obtain ⟨record, found, rfl⟩ := pushed
    have nodup := represents.chain.nodup
    have links : (queue.store last { record with next := some task }).link =
        Function.update queue.link last (some (some task)) := link_store ..
    constructor
    · constructor
      · have single : last ∉ front := by
          intro member
          exact (List.nodup_append.mp nodup).2.2 last member last (by simp) rfl
        have same : Function.update queue.link task (some none) = queue.link :=
          Function.update_eq_self_iff.mpr ends.symm
        have grown := represents.chain.append_node fresh single
        rw [same, ← links] at grown
        exact grown
      · exact (List.getLast?_concat ..).symm
    · intro addr outside
      have different : addr ≠ last := by
        rintro rfl
        exact outside (by simp)
      exact (congrFun links addr).trans (Function.update_of_ne different ..)

theorem qPop_represents (represents : queue.Represents tasks)
    (popped : queue.qPop = some (task, after)) :
    ∃ rest, tasks = task :: rest ∧ after.Represents rest ∧ after.heap = queue.heap := by
  simp only [qPop, Option.bind_eq_bind, Option.bind_eq_some_iff, Option.pure_def, Option.some.injEq,
    Prod.mk.injEq] at popped
  obtain ⟨first, head, record, found, rfl, rfl⟩ := popped
  cases tasks with
  | nil =>
      have empty : queue.head = none := represents.chain
      rw [empty] at head
      cases head
  | cons node rest =>
      obtain rfl : node = first := by
        have start := represents.head_eq
        rw [head] at start
        exact (Option.some.inj start).symm
      obtain ⟨target, linked, chain⟩ := represents.chain.tail
      obtain rfl : record.next = target := by simpa [link, found] using linked
      refine ⟨rest, rfl, ⟨chain, ?_⟩, rfl⟩
      have start := chain.start_eq
      cases rest with
      | nil => exact if_pos start
      | cons second others =>
          refine (if_neg ?_).trans represents.tail
          rw [start]
          exact Option.some_ne_none second

end Queue

end ThreadPool.Baseline
