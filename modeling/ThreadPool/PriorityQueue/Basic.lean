import ThreadPool.Foundation.Chain
import ThreadPool.Foundation.Lanes
import ThreadPool.Task

namespace ThreadPool

open Foundation

/-! # The priority queue

`struct priority_queue_t` together with the heap its tasks live in, and the
operations of `priority_queue.c`. A dereference of a null or unallocated
pointer has no result, so every operation is partial; the loops carry fuel.
The mutex and the condition variable belong to the pool model, which splits
the operations at the points where other threads can act.
-/

structure PriorityQueue where
  heap : Addr → Option Task
  heads : Priority → Option Addr
  tails : Priority → Option Addr
  readyMask : BitVec 32
  size : Nat
  depth : Nat
  maxTasks : Nat

namespace PriorityQueue

/-- `pq_init`: every field is cleared; the heap is whatever the program holds. -/
def pqInit (heap : Addr → Option Task) : PriorityQueue :=
  { heap, heads := fun _ => none, tails := fun _ => none, readyMask := 0, size := 0, depth := 0,
    maxTasks := 0 }

def store (pq : PriorityQueue) (addr : Addr) (record : Task) : PriorityQueue :=
  { pq with heap := Function.update pq.heap addr (some record) }

def link (pq : PriorityQueue) (addr : Addr) : Option (Option Addr) :=
  (pq.heap addr).map Task.next

/-- The lanes met by following the links, for at most `size` nodes. -/
def lanes (pq : PriorityQueue) : Lanes Priority Addr :=
  fun p => walk pq.link pq.size (pq.heads p)

/-- `mask |= (1UL << p)`: the 64-bit result is truncated to the field. -/
def setBit (mask : BitVec 32) (p : Priority) : BitVec 32 :=
  (mask.setWidth 64 ||| (1#64 <<< p.index)).setWidth 32

/-- `mask &= ~(1UL << p)`. -/
def clearBit (mask : BitVec 32) (p : Priority) : BitVec 32 :=
  (mask.setWidth 64 &&& ~~~(1#64 <<< p.index)).setWidth 32

/-- `_get_highest_priority`; the mask is not zero when it is called. -/
def getHighestPriority (mask : BitVec 32) : Nat :=
  32 - mask.clz.toNat - 1

def pqInsertLocked (pq : PriorityQueue) (task : Addr) : Option PriorityQueue := do
  let record ← pq.heap task
  let p := record.priority
  let pq := pq.store task { record with next := none }
  let pq ← match pq.tails p with
    | none => some { pq with
        heads := Function.update pq.heads p (some task)
        tails := Function.update pq.tails p (some task) }
    | some last => do
        let lastRecord ← pq.heap last
        some { pq.store last { lastRecord with next := some task } with
          tails := Function.update pq.tails p (some task) }
  return { pq with
    readyMask := setBit pq.readyMask p
    size := pq.size + 1
    depth := pq.depth + 1 }

def pqPush (pq : PriorityQueue) (task : Option Addr) : Option PriorityQueue :=
  match task with
  | none => some pq
  | some task => pq.pqInsertLocked task

/-- The capacity test of `pq_try_push`, on the cap it has loaded. -/
def atCapacity (pq : PriorityQueue) (max : Nat) : Bool :=
  max != 0 && decide (pq.size ≥ max)

def pqTryPush (pq : PriorityQueue) (task : Option Addr) : Option (Bool × PriorityQueue) :=
  match task with
  | none => some (false, pq)
  | some task =>
      if pq.atCapacity pq.maxTasks then some (false, pq)
      else (pq.pqInsertLocked task).map fun pq => (true, pq)

def pqSetMaxTasks (pq : PriorityQueue) (maxTasks : Nat) : PriorityQueue :=
  { pq with maxTasks }

/-- `heads[p] = next`, with the tail and the ready bit of a lane that becomes
empty cleared. -/
def setHead (pq : PriorityQueue) (p : Priority) (next : Option Addr) : PriorityQueue :=
  match next with
  | none => { pq with
      heads := Function.update pq.heads p none
      tails := Function.update pq.tails p none
      readyMask := clearBit pq.readyMask p }
  | some next => { pq with heads := Function.update pq.heads p (some next) }

def pqPopLocked (pq : PriorityQueue) (p : Priority) : Option (Addr × PriorityQueue) := do
  let task ← pq.heads p
  let record ← pq.heap task
  let pq := pq.setHead p record.next
  let pq := pq.store task { record with next := none }
  return (task, { pq with size := pq.size - 1, depth := pq.depth - 1 })

/-- The common tail of the pop variants once the mask is known to be non-zero. -/
def popHighest (pq : PriorityQueue) : Option (Addr × PriorityQueue) := do
  let p ← Priority.ofIndex? (getHighestPriority pq.readyMask)
  pq.pqPopLocked p

/-- `_shutdown_requested`, on a possibly null flag. -/
def shutdownRequested (flag : Option Bool) : Bool :=
  flag.getD false

/-- What a pop hands to its caller: it may also stay blocked on `not_empty`. -/
inductive PopOutcome where
  | returns (task : Option Addr) (pq : PriorityQueue)
  | blocks
  | faults

def PopOutcome.ofPopped : Option (Addr × PriorityQueue) → PopOutcome
  | some (task, pq) => .returns (some task) pq
  | none => .faults

/-- `pq_pop_until_shutdown`, with the flag value it reads when the queue is
empty. -/
def pqPopUntilShutdown (pq : PriorityQueue) (flag : Option Bool) : PopOutcome :=
  if pq.readyMask = 0 then
    if shutdownRequested flag then .returns none pq else .blocks
  else .ofPopped pq.popHighest

def pqPop (pq : PriorityQueue) : PopOutcome :=
  pq.pqPopUntilShutdown none

def pqPopNonblock (pq : PriorityQueue) : PopOutcome :=
  if pq.readyMask = 0 then .returns none pq
  else .ofPopped pq.popHighest

/-- `pq_size`: the 64-bit count is returned as an `int`. -/
def pqSize (pq : PriorityQueue) : Int :=
  wrap 32 pq.size

def pqIsEmpty (pq : PriorityQueue) : Int :=
  if pq.readyMask = 0 then 1 else 0

/-- The deadline test applied to the task at an address. -/
def due (pq : PriorityQueue) (now : Timespec) (promoteTimeMs : Int) (addr : Addr) : Bool :=
  match pq.heap addr with
  | some record => hasPassedMs record.submitTime now promoteTimeMs
  | none => false

/-- The loop that advances `prefix_tail` while the next task is due. -/
def findPrefixTail (pq : PriorityQueue) (now : Timespec) (promoteTimeMs : Int) :
    Nat → Addr → Option Addr
  | 0, _ => none
  | fuel + 1, prefixTail => do
      let record ← pq.heap prefixTail
      match record.next with
      | none => some prefixTail
      | some next => do
          let nextRecord ← pq.heap next
          if hasPassedMs nextRecord.submitTime now promoteTimeMs then
            findPrefixTail pq now promoteTimeMs fuel next
          else some prefixTail

/-- The loop that writes the new priority from the first node of the prefix to
its last one. -/
def relabelPrefix (dst : Priority) (prefixTail : Addr) :
    Nat → PriorityQueue → Addr → Option PriorityQueue
  | 0, _, _ => none
  | fuel + 1, pq, node => do
      let record ← pq.heap node
      let pq := pq.store node { record with priority := dst }
      if node = prefixTail then some pq
      else do
        let next ← record.next
        relabelPrefix dst prefixTail fuel pq next

/-- `heads[dst] = prefix_head`, with the tail of an empty lane set and the
ready bit raised. -/
def graftHead (pq : PriorityQueue) (dst : Priority) (prefixHead prefixTail : Addr) :
    PriorityQueue :=
  match pq.tails dst with
  | none => { pq with
      heads := Function.update pq.heads dst (some prefixHead)
      tails := Function.update pq.tails dst (some prefixTail)
      readyMask := setBit pq.readyMask dst }
  | some _ => { pq with
      heads := Function.update pq.heads dst (some prefixHead)
      readyMask := setBit pq.readyMask dst }

/-- The splice of `pq_aging_promote_prefix`, once the prefix is known. -/
def splicePrefix (pq : PriorityQueue) (src dst : Priority) (prefixHead prefixTail : Addr) :
    Option PriorityQueue := do
  let tailRecord ← pq.heap prefixTail
  let pq := pq.setHead src tailRecord.next
  let pq ← relabelPrefix dst prefixTail pq.size pq prefixHead
  let tailRecord ← pq.heap prefixTail
  let pq := pq.store prefixTail { tailRecord with next := pq.heads dst }
  return pq.graftHead dst prefixHead prefixTail

/-- The section of `pq_aging_promote_prefix` under the mutex: whether anything
was promoted, and the queue afterwards. -/
def promoteLocked (pq : PriorityQueue) (src dst : Priority) (now : Timespec)
    (promoteTimeMs : Int) : Option (Bool × PriorityQueue) :=
  match pq.heads src with
  | none => some (false, pq)
  | some prefixHead => do
      let record ← pq.heap prefixHead
      if hasPassedMs record.submitTime now promoteTimeMs then
        let prefixTail ← pq.findPrefixTail now promoteTimeMs pq.size prefixHead
        let pq ← pq.splicePrefix src dst prefixHead prefixTail
        return (true, pq)
      else some (false, pq)

def pqAgingPromotePrefix (pq : PriorityQueue) (src dst : Priority) (shutdown : Bool)
    (now : Timespec) (promoteTimeMs : Int) : Option (Bool × PriorityQueue) :=
  if shutdown then some (false, pq) else pq.promoteLocked src dst now promoteTimeMs

/-- What one aging pass observes: a clock reading for each scan and the three
values of the shutdown flag. -/
structure AgingPass where
  now₁ : Timespec
  now₂ : Timespec
  shutdown₁ : Bool := false
  shutdownBetween : Bool := false
  shutdown₂ : Bool := false
  promoteTimeMs : Int

def pqAging (pq : PriorityQueue) (pass : AgingPass) : Option PriorityQueue := do
  let (_, pq) ← pq.pqAgingPromotePrefix .medium .high pass.shutdown₁ pass.now₁ pass.promoteTimeMs
  if pass.shutdownBetween then return pq
  let (_, pq) ← pq.pqAgingPromotePrefix .low .medium pass.shutdown₂ pass.now₂ pass.promoteTimeMs
  return pq

/-- The inner loop of `pq_destroy`: the tasks it hands to `task_destroy`, in
order, and the heap after their blocks are freed. -/
def destroyLane : Nat → (Addr → Option Task) → Option Addr →
    Option (List Addr × (Addr → Option Task))
  | _, heap, none => some ([], heap)
  | 0, _, some _ => none
  | fuel + 1, heap, some curr => do
      let record ← heap curr
      let (rest, heap) ← destroyLane fuel (Function.update heap curr none) record.next
      return (curr :: rest, heap)

/-- `pq_destroy`, with the list of destroyed tasks. -/
def pqDestroy (pq : PriorityQueue) : Option (List Addr × PriorityQueue) := do
  let (low, heap) ← destroyLane pq.size pq.heap (pq.heads .low)
  let (medium, heap) ← destroyLane pq.size heap (pq.heads .medium)
  let (high, heap) ← destroyLane pq.size heap (pq.heads .high)
  return (low ++ medium ++ high,
    { pq with heap, heads := fun _ => none, tails := fun _ => none, readyMask := 0, size := 0,
              depth := 0 })

end PriorityQueue

end ThreadPool
