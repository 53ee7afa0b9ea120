import ThreadPool.PriorityQueue.Basic

namespace ThreadPool.PriorityQueue

open Foundation

/-! # The representation invariant

`Represents` ties the six redundant views of the queue (heads, tails, links,
mask, size and depth) to one list per lane. Each operation is shown to succeed
on a represented queue and to change the lists as a levelled queue does.
-/

variable {pq after : PriorityQueue} {lanes : Lanes Priority Addr} {task node : Addr} {record : Task}
  {p src dst : Priority} {now : Timespec} {promoteTimeMs : Int}

structure Represents (pq : PriorityQueue) (lanes : Lanes Priority Addr) : Prop where
  chain : ∀ p, Chain pq.link (pq.heads p) (lanes p)
  tail : ∀ p, pq.tails p = (lanes p).getLast?
  disjoint : ∀ {p q}, p ≠ q → List.Disjoint (lanes p) (lanes q)
  priority : ∀ p, ∀ a ∈ lanes p, ∃ record, pq.heap a = some record ∧ record.priority = p
  mask : ∀ bit, pq.readyMask.getLsbD bit = true ↔ ∃ p : Priority, p.index = bit ∧ lanes p ≠ []
  size : pq.size = lanes.contents.card
  depth : pq.depth = lanes.contents.card

/-- What no queue operation changes in a task. -/
def core (record : Task) : Nat × Nat × Nat × Timespec :=
  (record.taskId, record.func, record.arg, record.submitTime)

/-- An operation that rewrites links and priorities only. -/
structure KeepsTasks (before after : PriorityQueue) : Prop where
  heap : ∀ a, (after.heap a).map core = (before.heap a).map core
  maxTasks : after.maxTasks = before.maxTasks

theorem KeepsTasks.refl (pq : PriorityQueue) : pq.KeepsTasks pq :=
  ⟨fun _ => rfl, rfl⟩

theorem KeepsTasks.trans {first second third : PriorityQueue}
    (left : first.KeepsTasks second) (right : second.KeepsTasks third) : first.KeepsTasks third :=
  ⟨fun a => (right.heap a).trans (left.heap a), right.maxTasks.trans left.maxTasks⟩

theorem KeepsTasks.allocated (keeps : pq.KeepsTasks after) (found : pq.heap node = some record) :
    ∃ kept, after.heap node = some kept ∧ core kept = core record := by
  have same := keeps.heap node
  rw [found] at same
  cases kept : after.heap node with
  | none => simp [kept] at same
  | some value =>
      rw [kept] at same
      exact ⟨value, rfl, Option.some.inj same⟩

theorem KeepsTasks.due (keeps : pq.KeepsTasks after) :
    after.due now promoteTimeMs = pq.due now promoteTimeMs := by
  funext a
  have same := keeps.heap a
  unfold PriorityQueue.due
  cases before : pq.heap a with
  | none => cases later : after.heap a <;> simp_all
  | some record =>
      cases later : after.heap a with
      | none => simp_all
      | some kept =>
          rw [before, later] at same
          have cores : core kept = core record := Option.some.inj same
          simp only [core, Prod.mk.injEq] at cores
          simp only [cores.2.2.2]

@[simp] theorem store_heads (pq : PriorityQueue) : (pq.store node record).heads = pq.heads := rfl

@[simp] theorem setHead_heap (pq : PriorityQueue) (next : Option Addr) :
    (pq.setHead p next).heap = pq.heap := by
  cases next <;> rfl

@[simp] theorem setHead_link (pq : PriorityQueue) (next : Option Addr) :
    (pq.setHead p next).link = pq.link := by
  cases next <;> rfl

@[simp] theorem setHead_heads (pq : PriorityQueue) (next : Option Addr) :
    (pq.setHead p next).heads = Function.update pq.heads p next := by
  cases next <;> rfl

@[simp] theorem setHead_size (pq : PriorityQueue) (next : Option Addr) :
    (pq.setHead p next).size = pq.size := by
  cases next <;> rfl

@[simp] theorem setHead_depth (pq : PriorityQueue) (next : Option Addr) :
    (pq.setHead p next).depth = pq.depth := by
  cases next <;> rfl

@[simp] theorem setHead_maxTasks (pq : PriorityQueue) (next : Option Addr) :
    (pq.setHead p next).maxTasks = pq.maxTasks := by
  cases next <;> rfl

theorem setHead_tails (pq : PriorityQueue) (next : Option Addr) :
    (pq.setHead p next).tails = if next = none then Function.update pq.tails p none else pq.tails := by
  cases next <;> rfl

theorem setHead_mask (pq : PriorityQueue) (next : Option Addr) :
    (pq.setHead p next).readyMask =
      if next = none then clearBit pq.readyMask p else pq.readyMask := by
  cases next <;> rfl

theorem link_store (pq : PriorityQueue) :
    (pq.store node record).link = Function.update pq.link node (some record.next) := by
  funext a
  by_cases same : a = node
  · subst same
    simp [link, store]
  · simp [link, store, same]

theorem link_eq_of_heap (found : pq.heap node = some record) : pq.link node = some record.next := by
  simp [link, found]

theorem getLsbD_setBit (mask : BitVec 32) (p : Priority) (bit : Nat) :
    (setBit mask p).getLsbD bit = true ↔ mask.getLsbD bit = true ∨ p.index = bit := by
  have index := p.index_lt
  have inside : mask.getLsbD bit = true → bit < 32 := mask.lt_of_getLsbD
  simp only [setBit, BitVec.getLsbD_setWidth, BitVec.getLsbD_or, BitVec.getLsbD_shiftLeft,
    BitVec.getLsbD_one, Bool.and_eq_true, Bool.or_eq_true, decide_eq_true_eq, Bool.not_eq_true',
    decide_eq_false_iff_not]
  grind

theorem getLsbD_clearBit (mask : BitVec 32) (p : Priority) (bit : Nat) :
    (clearBit mask p).getLsbD bit = true ↔ mask.getLsbD bit = true ∧ p.index ≠ bit := by
  have index := p.index_lt
  have inside : mask.getLsbD bit = true → bit < 32 := mask.lt_of_getLsbD
  simp only [clearBit, BitVec.getLsbD_setWidth, BitVec.getLsbD_and, BitVec.getLsbD_not,
    BitVec.getLsbD_shiftLeft, BitVec.getLsbD_one, Bool.and_eq_true, decide_eq_true_eq,
    Bool.not_eq_eq_eq_not]
  grind

namespace Represents

theorem separate (rep : pq.Represents lanes) : lanes.Separate :=
  ⟨fun p => (rep.chain p).nodup, rep.disjoint⟩

theorem heads_eq (rep : pq.Represents lanes) (p : Priority) : pq.heads p = (lanes p).head? :=
  (rep.chain p).start_eq

theorem lane_length_le (rep : pq.Represents lanes) (p : Priority) : (lanes p).length ≤ pq.size := by
  rw [rep.size, Lanes.card_contents]
  exact Finset.single_le_sum (f := fun level => (lanes level).length) (fun _ _ => Nat.zero_le _)
    (Finset.mem_univ p)

/-- The lanes of a represented queue are computed by following its links. -/
theorem lanes_eq (rep : pq.Represents lanes) : pq.lanes = lanes := by
  funext p
  exact walk_eq_of_chain (rep.chain p) (rep.lane_length_le p)

theorem allocated (rep : pq.Represents lanes) (queued : lanes.Queued node) :
    ∃ record, pq.heap node = some record := by
  obtain ⟨p, member⟩ := queued
  obtain ⟨record, found, _⟩ := rep.priority p node member
  exact ⟨record, found⟩

theorem mask_eq_zero (rep : pq.Represents lanes) : pq.readyMask = 0 ↔ lanes.contents = 0 := by
  rw [Lanes.contents_eq_zero]
  have bits : pq.readyMask = 0 ↔ ∀ bit, pq.readyMask.getLsbD bit = false := by
    refine ⟨fun zero bit => by simp [zero], fun zero => BitVec.eq_of_getLsbD_eq fun bit _ => ?_⟩
    simp [zero bit]
  rw [bits]
  refine ⟨fun clear p => ?_, fun empty bit => ?_⟩
  · by_contra nonempty
    have set := (rep.mask p.index).mpr ⟨p, rfl, nonempty⟩
    simp [clear] at set
  · by_contra set
    obtain ⟨p, _, nonempty⟩ := (rep.mask bit).mp (by simpa using set)
    exact nonempty (empty p)

end Represents

theorem mask_push (rep : pq.Represents lanes) (bit : Nat) :
    (setBit pq.readyMask p).getLsbD bit = true ↔
      ∃ q : Priority, q.index = bit ∧ lanes.push p task q ≠ [] := by
  rw [getLsbD_setBit, rep.mask bit]
  simp only [Lanes.push_ne_nil]
  grind

theorem relink_priority (found : pq.heap node = some record) (target : Option Addr) (a : Addr) :
    ((pq.store node { record with next := target }).heap a).map Task.priority =
      (pq.heap a).map Task.priority := by
  by_cases here : a = node
  · subst here
    simp [store, found]
  · simp [store, here]

theorem relink_core (found : pq.heap node = some record) (target : Option Addr) (a : Addr) :
    ((pq.store node { record with next := target }).heap a).map core = (pq.heap a).map core := by
  by_cases here : a = node
  · subst here
    simp [store, found, core]
  · simp [store, here]

/-- The lanes after an insertion, from what happens to the one lane it touches. -/
theorem Represents.insert (rep : pq.Represents lanes) (fresh : ¬ lanes.Queued task)
    (found : pq.heap task = some record)
    (priorities : ∀ a, (after.heap a).map Task.priority = (pq.heap a).map Task.priority)
    (grown : Chain after.link (after.heads record.priority) (lanes record.priority ++ [task]))
    (links : ∀ q, q ≠ record.priority → ∀ a ∈ lanes q, after.link a = pq.link a)
    (heads : ∀ q, q ≠ record.priority → after.heads q = pq.heads q)
    (tails : after.tails = Function.update pq.tails record.priority (some task))
    (mask : after.readyMask = setBit pq.readyMask record.priority)
    (size : after.size = pq.size + 1) (depth : after.depth = pq.depth + 1) :
    after.Represents (lanes.push record.priority task) := by
  have card : (lanes.push record.priority task).contents.card = lanes.contents.card + 1 := by
    rw [Lanes.contents_push, Multiset.card_cons]
  have labelled : ∀ {a old}, pq.heap a = some old →
      ∃ kept, after.heap a = some kept ∧ kept.priority = old.priority := by
    intro a old lookup
    have same := priorities a
    rw [lookup] at same
    simpa using same
  refine ⟨?_, ?_, (Lanes.separate_push rep.separate fresh).disjoint, ?_, ?_, ?_, ?_⟩
  · intro q
    by_cases same : q = record.priority
    · subst same
      simpa using grown
    · rw [Lanes.push_of_ne same, heads q same]
      exact segment_congr (links q same) (rep.chain q)
  · intro q
    by_cases same : q = record.priority
    · subst same
      simp [tails]
    · rw [Lanes.push_of_ne same, tails, Function.update_of_ne same]
      exact rep.tail q
  · intro q a member
    rcases Lanes.mem_push.mp member with old | ⟨atLane, new⟩
    · obtain ⟨kept, lookup, level⟩ := rep.priority q a old
      obtain ⟨later, stored, same⟩ := labelled lookup
      exact ⟨later, stored, same.trans level⟩
    · subst new
      obtain ⟨later, stored, same⟩ := labelled found
      exact ⟨later, stored, same.trans atLane.symm⟩
  · intro bit
    rw [mask]
    exact mask_push rep bit
  · rw [size, card, rep.size]
  · rw [depth, card, rep.depth]

theorem pqInsertLocked_empty (found : pq.heap task = some record)
    (tails : pq.tails record.priority = none) :
    pq.pqInsertLocked task = some { pq.store task { record with next := none } with
      heads := Function.update pq.heads record.priority (some task)
      tails := Function.update pq.tails record.priority (some task)
      readyMask := setBit pq.readyMask record.priority
      size := pq.size + 1
      depth := pq.depth + 1 } := by
  simp [pqInsertLocked, found, tails, store]

theorem pqInsertLocked_append {last : Addr} {lastRecord : Task} (found : pq.heap task = some record)
    (tails : pq.tails record.priority = some last) (lookup : pq.heap last = some lastRecord)
    (different : last ≠ task) :
    pq.pqInsertLocked task = some { (pq.store task { record with next := none }).store last
        { lastRecord with next := some task } with
      tails := Function.update pq.tails record.priority (some task)
      readyMask := setBit pq.readyMask record.priority
      size := pq.size + 1
      depth := pq.depth + 1 } := by
  simp [pqInsertLocked, found, tails, store, different, lookup]

/-- `_pq_insert_locked` appends a task that is not queued to its lane. -/
theorem insert_spec (rep : pq.Represents lanes) (found : pq.heap task = some record)
    (fresh : ¬ lanes.Queued task) :
    ∃ after, pq.pqInsertLocked task = some after ∧
      after.Represents (lanes.push record.priority task) ∧ pq.KeepsTasks after := by
  have outside : ∀ {q a}, a ∈ lanes q → a ≠ task := by
    intro q a member same
    exact fresh ⟨q, same ▸ member⟩
  rcases List.eq_nil_or_concat (lanes record.priority) with empty | ⟨front, last, lane⟩
  · have tails : pq.tails record.priority = none := by
      rw [rep.tail, empty]
      rfl
    refine ⟨_, pqInsertLocked_empty found tails, ?_, relink_core found none, rfl⟩
    refine rep.insert fresh found (relink_priority found none) ?_ ?_ ?_ rfl rfl rfl rfl
    · change Chain (pq.store task { record with next := none }).link _ _
      rw [link_store, empty]
      exact ⟨Function.update_self .., none, Function.update_self .., rfl⟩
    · intro q different a member
      change (pq.store task { record with next := none }).link a = _
      rw [link_store, Function.update_of_ne (outside member)]
    · intro q different
      exact Function.update_of_ne different ..
  · rw [List.concat_eq_append] at lane
    have tails : pq.tails record.priority = some last := by
      rw [rep.tail, lane]
      simp
    have queued : last ∈ lanes record.priority := by simp [lane]
    obtain ⟨lastRecord, lookup, level⟩ := rep.priority _ last queued
    have different : last ≠ task := outside queued
    have lookupLater : (pq.store task { record with next := none }).heap last = some lastRecord := by
      simpa [store, different] using lookup
    have links : ((pq.store task { record with next := none }).store last
        { lastRecord with next := some task }).link =
        Function.update (Function.update pq.link task (some none)) last (some (some task)) := by
      rw [link_store, link_store]
    refine ⟨_, pqInsertLocked_append found tails lookup different, ?_, fun a => ?_, rfl⟩
    · refine rep.insert fresh found (fun a => ?_) ?_ ?_ ?_ rfl rfl rfl rfl
      · exact (relink_priority lookupLater (some task) a).trans (relink_priority found none a)
      · change Chain ((pq.store task _).store last _).link (pq.heads _) _
        rw [links, lane]
        have nodup := (rep.chain record.priority).nodup
        rw [lane] at nodup
        refine Chain.append_node (lane ▸ rep.chain record.priority) ?_ ?_
        · exact fun member => fresh ⟨_, lane ▸ member⟩
        · exact fun member => List.disjoint_of_nodup_append nodup member (by simp)
      · intro q apart a member
        change ((pq.store task _).store last _).link a = _
        have notLast : a ≠ last := fun same => rep.disjoint apart member (same ▸ queued)
        rw [links, Function.update_of_ne notLast, Function.update_of_ne (outside member)]
      · intro q _
        rfl
    · exact (relink_core lookupLater (some task) a).trans (relink_core found none a)

/-- An insertion writes links only. -/
theorem pqInsertLocked_priority (inserted : pq.pqInsertLocked task = some after) (a : Addr) :
    (after.heap a).map Task.priority = (pq.heap a).map Task.priority := by
  simp only [pqInsertLocked, Option.bind_eq_bind, Option.bind_eq_some_iff] at inserted
  obtain ⟨record, found, result⟩ := inserted
  refine Eq.trans ?_ (relink_priority found none a)
  split at result
  · cases result
    rfl
  · simp only [Option.bind_eq_some_iff] at result
    obtain ⟨lastRecord, lookup, _, linked, result⟩ := result
    cases linked
    cases result
    exact relink_priority lookup (some task) a

/-- The leading-zero count selects the highest bit of a three-bit mask. -/
theorem getHighestPriority_spec : ∀ mask : BitVec 3, mask ≠ 0 →
    (mask.setWidth 32).getLsbD (getHighestPriority (mask.setWidth 32)) = true ∧
      ∀ bit : Fin 3, getHighestPriority (mask.setWidth 32) < bit.val →
        (mask.setWidth 32).getLsbD bit.val = false := by
  decide

theorem Represents.top (rep : pq.Represents lanes) (ready : pq.readyMask ≠ 0) :
    ∃ p, Priority.ofIndex? (getHighestPriority pq.readyMask) = some p ∧ lanes.Top p := by
  have narrow : pq.readyMask = (pq.readyMask.setWidth 3).setWidth 32 := by
    apply BitVec.eq_of_getLsbD_eq
    intro bit _
    rw [BitVec.getLsbD_setWidth, BitVec.getLsbD_setWidth]
    cases set : pq.readyMask.getLsbD bit with
    | false => simp
    | true =>
        obtain ⟨p, index, _⟩ := (rep.mask bit).mp set
        have small := p.index_lt
        simp
        omega
  have nonzero : pq.readyMask.setWidth 3 ≠ 0 := by
    intro zero
    rw [zero] at narrow
    exact ready narrow
  obtain ⟨set, clear⟩ := getHighestPriority_spec _ nonzero
  rw [← narrow] at set clear
  obtain ⟨p, index, nonempty⟩ := (rep.mask _).mp set
  refine ⟨p, by rw [← index, p.ofIndex?_index], nonempty, fun higher above => ?_⟩
  by_contra occupied
  have bit := (rep.mask higher.index).mpr ⟨higher, rfl, occupied⟩
  have order : p.index < higher.index := above
  have absent := clear ⟨higher.index, higher.index_lt⟩ (by rw [← index]; exact order)
  rw [absent] at bit
  exact Bool.false_ne_true bit

theorem dropHead_ne_nil {rest : List Addr} (lane : lanes p = task :: rest) {q : Priority} :
    lanes.dropHead p q ≠ [] ↔ lanes q ≠ [] ∧ (q = p → rest ≠ []) := by
  by_cases same : q = p
  · subst same
    simp [lane]
  · simp [Lanes.dropHead_of_ne same, same]

/-- The lanes after the head of one lane is unlinked. -/
theorem Represents.remove_chain {rest : List Addr} (rep : pq.Represents lanes)
    (lane : lanes p = task :: rest) (links : ∀ a, a ≠ task → after.link a = pq.link a)
    (heads : after.heads = Function.update pq.heads p rest.head?) (q : Priority) :
    Chain after.link (after.heads q) (lanes.dropHead p q) := by
  have kept : ∀ a ∈ lanes.dropHead p q, after.link a = pq.link a :=
    fun a member => links a (Lanes.ne_of_mem_dropHead rep.separate lane member)
  refine segment_congr kept ?_
  by_cases same : q = p
  · subst same
    obtain ⟨target, found, remaining⟩ := (lane ▸ rep.chain q : Chain _ _ (task :: rest)).tail
    rw [heads, Function.update_self, Lanes.dropHead_self, lane, List.tail_cons,
      ← Chain.start_eq remaining]
    exact remaining
  · rw [heads, Function.update_of_ne same, Lanes.dropHead_of_ne same]
    exact rep.chain q

theorem Represents.remove {rest : List Addr} (rep : pq.Represents lanes)
    (lane : lanes p = task :: rest)
    (priorities : ∀ a, (after.heap a).map Task.priority = (pq.heap a).map Task.priority)
    (links : ∀ a, a ≠ task → after.link a = pq.link a)
    (heads : after.heads = Function.update pq.heads p rest.head?)
    (tails : after.tails = if rest = [] then Function.update pq.tails p none else pq.tails)
    (mask : after.readyMask = if rest = [] then clearBit pq.readyMask p else pq.readyMask)
    (size : after.size = pq.size - 1) (depth : after.depth = pq.depth - 1) :
    after.Represents (lanes.dropHead p) := by
  have card : lanes.contents.card = (lanes.dropHead p).contents.card + 1 := by
    rw [Lanes.contents_dropHead lane, Multiset.card_cons]
  refine ⟨rep.remove_chain lane links heads, ?_, (Lanes.separate_dropHead rep.separate).disjoint,
    ?_, ?_, ?_, ?_⟩
  · intro q
    by_cases same : q = p
    · subst same
      rw [Lanes.dropHead_self, lane, List.tail_cons, tails]
      cases rest with
      | nil => simp
      | cons next others =>
          rw [if_neg (by simp), rep.tail, lane, List.getLast?_cons_cons]
    · rw [Lanes.dropHead_of_ne same, tails, ← rep.tail]
      split
      · exact Function.update_of_ne same ..
      · rfl
  · intro q a member
    obtain ⟨old, found, level⟩ := rep.priority q a (Lanes.mem_dropHead member)
    have same := priorities a
    rw [found, Option.map_some, level] at same
    simpa using same
  · intro bit
    simp only [dropHead_ne_nil lane]
    rw [mask]
    split
    · rename_i last
      rw [getLsbD_clearBit, rep.mask bit]
      have injective := @Priority.index_injective
      grind
    · rename_i more
      rw [rep.mask bit]
      grind
  · rw [size, rep.size, card, Nat.add_sub_cancel]
  · rw [depth, rep.depth, card, Nat.add_sub_cancel]

theorem pqPopLocked_eq (head : pq.heads p = some task) (found : pq.heap task = some record) :
    pq.pqPopLocked p = some (task, { (pq.setHead p record.next).store task
        { record with next := none } with size := pq.size - 1, depth := pq.depth - 1 }) := by
  simp [pqPopLocked, head, found, store]

/-- Every pop variant takes the head of the highest non-empty lane. -/
theorem pop_spec (rep : pq.Represents lanes) (ready : pq.readyMask ≠ 0) :
    ∃ p task rest after, lanes.Top p ∧ lanes p = task :: rest ∧
      pq.popHighest = some (task, after) ∧ after.Represents (lanes.dropHead p) ∧
      pq.KeepsTasks after := by
  obtain ⟨p, index, top⟩ := rep.top ready
  obtain ⟨task, rest, lane⟩ := List.exists_cons_of_ne_nil top.1
  obtain ⟨record, found, level⟩ := rep.priority p task (by simp [lane])
  have head : pq.heads p = some task := by rw [rep.heads_eq, lane]; rfl
  have next : record.next = rest.head? := by
    obtain ⟨target, linked, remaining⟩ := (lane ▸ rep.chain p : Chain _ _ (task :: rest)).tail
    rw [link_eq_of_heap found] at linked
    rw [Option.some.inj linked, Chain.start_eq remaining]
  have last : record.next = none ↔ rest = [] := by
    rw [next, List.head?_eq_none_iff]
  have selected : pq.popHighest = pq.pqPopLocked p := by
    rw [popHighest, index]
    rfl
  have advanced : (pq.setHead p record.next).heap task = some record := by simpa using found
  refine ⟨p, task, rest, _, top, lane, selected.trans (pqPopLocked_eq head found), ?_, ?_, ?_⟩
  · refine rep.remove lane ?_ ?_ ?_ ?_ ?_ rfl rfl
    · intro a
      exact (relink_priority advanced none a).trans (by simp)
    · intro a different
      change ((pq.setHead p record.next).store task { record with next := none }).link a = _
      rw [link_store, Function.update_of_ne different, setHead_link]
    · change (pq.setHead p record.next).heads = _
      rw [setHead_heads, next]
    · change (pq.setHead p record.next).tails = _
      simp only [setHead_tails, last]
    · change (pq.setHead p record.next).readyMask = _
      simp only [setHead_mask, last]
  · intro a
    exact (relink_core advanced none a).trans (by simp)
  · exact setHead_maxTasks pq record.next

/-- A pop writes links only. -/
theorem popHighest_priority (popped : pq.popHighest = some (task, after)) (a : Addr) :
    (after.heap a).map Task.priority = (pq.heap a).map Task.priority := by
  simp only [popHighest, pqPopLocked, Option.bind_eq_bind, Option.bind_eq_some_iff] at popped
  obtain ⟨p, _, head, _, record, found, result⟩ := popped
  obtain ⟨rfl, rfl⟩ := Prod.mk.inj (Option.some.inj result)
  have advanced : (pq.setHead p record.next).heap head = some record := by simpa using found
  exact (relink_priority advanced none a).trans (by simp)

end ThreadPool.PriorityQueue
