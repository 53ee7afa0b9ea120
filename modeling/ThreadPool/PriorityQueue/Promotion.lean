import ThreadPool.PriorityQueue.Representation

namespace ThreadPool.PriorityQueue

open Foundation

/-! # The aging splice

The loops of `pq_aging_promote_prefix` are replaced by list functions: the
prefix they delimit is the longest due prefix of the source lane. The splice
then acts on a represented queue as `Lanes.promote`.
-/

variable {pq after : PriorityQueue} {lanes : Lanes Priority Addr} {node prefixTail : Addr}
  {record : Task} {p src dst : Priority} {now : Timespec} {promoteTimeMs : Int} {fuel : Nat}
  {path rest : List Addr} {start stop : Option Addr}

theorem link_eq_some {target : Option Addr} :
    pq.link node = some target ↔ ∃ record, pq.heap node = some record ∧ record.next = target := by
  simp [link]

theorem due_eq (found : pq.heap node = some record) :
    pq.due now promoteTimeMs node = hasPassedMs record.submitTime now promoteTimeMs := by
  simp [due, found]

/-- The scan stops at the last task of the due prefix. -/
theorem findPrefixTail_spec (chain : Chain pq.link (some node) (node :: rest))
    (enough : rest.length < fuel) :
    pq.findPrefixTail now promoteTimeMs fuel node =
      (node :: rest.takeWhile (pq.due now promoteTimeMs)).getLast? := by
  induction rest generalizing node fuel with
  | nil =>
      obtain ⟨target, linked, remaining⟩ := chain.tail
      obtain ⟨record, found, next⟩ := link_eq_some.mp linked
      have ended : target = none := remaining
      cases fuel with
      | zero => simp at enough
      | succ fuel => simp [findPrefixTail, found, next, ended]
  | cons following more ih =>
      obtain ⟨target, linked, remaining⟩ := chain.tail
      obtain ⟨record, found, next⟩ := link_eq_some.mp linked
      have onward : target = some following := remaining.1
      subst onward
      obtain ⟨_, again, _⟩ := remaining.tail
      obtain ⟨nextRecord, lookup, _⟩ := link_eq_some.mp again
      cases fuel with
      | zero => simp at enough
      | succ fuel =>
          have shorter : more.length < fuel := by simpa using enough
          simp only [findPrefixTail, found, next, lookup, Option.bind_eq_bind, Option.bind_some]
          rw [List.takeWhile_cons, due_eq lookup]
          split
          · rw [ih remaining shorter, List.getLast?_cons_cons]
          · rfl

/-- The queue with a new priority on every task of `path`. -/
def relabelled (pq : PriorityQueue) (dst : Priority) (path : List Addr) : PriorityQueue :=
  { pq with heap := fun a =>
      if a ∈ path then (pq.heap a).map fun record => { record with priority := dst } else pq.heap a }

theorem relabelled_link (pq : PriorityQueue) (dst : Priority) (path : List Addr) :
    (pq.relabelled dst path).link = pq.link := by
  funext a
  by_cases member : a ∈ path
  · cases found : pq.heap a <;> simp [link, relabelled, member, found]
  · simp [link, relabelled, member]

theorem relabelled_core (pq : PriorityQueue) (dst : Priority) (path : List Addr) (a : Addr) :
    ((pq.relabelled dst path).heap a).map core = (pq.heap a).map core := by
  by_cases member : a ∈ path
  · cases found : pq.heap a <;> simp [relabelled, member, found, core]
  · simp [relabelled, member]

theorem relabelled_cons (found : pq.heap node = some record) (fresh : node ∉ rest) :
    (pq.store node { record with priority := dst }).relabelled dst rest =
      pq.relabelled dst (node :: rest) := by
  unfold relabelled store
  congr 1
  funext a
  by_cases here : a = node
  · subst here
    simp [fresh, found]
  · simp [here]

theorem relabelled_nil (pq : PriorityQueue) (dst : Priority) : pq.relabelled dst [] = pq := by
  simp [relabelled]

theorem relabelPrefix_spec (segment : Segment pq.link (some node) (node :: rest) stop)
    (nodup : (node :: rest).Nodup) (last : (node :: rest).getLast? = some prefixTail)
    (enough : rest.length < fuel) :
    relabelPrefix dst prefixTail fuel pq node = some (pq.relabelled dst (node :: rest)) := by
  induction rest generalizing node pq fuel with
  | nil =>
      obtain ⟨_, target, linked, _⟩ := segment
      obtain ⟨record, found, _⟩ := link_eq_some.mp linked
      have same : node = prefixTail := by simpa using last
      cases fuel with
      | zero => simp at enough
      | succ fuel =>
          subst same
          rw [← relabelled_cons found (by simp), relabelled_nil]
          simp [relabelPrefix, found]
  | cons following more ih =>
      obtain ⟨_, target, linked, remaining⟩ := segment
      obtain ⟨record, found, next⟩ := link_eq_some.mp linked
      have onward : target = some following := remaining.1
      subst onward
      have fresh := (List.nodup_cons.mp nodup).1
      have inside : prefixTail ∈ following :: more := by
        rw [List.getLast?_cons_cons] at last
        exact List.mem_of_getLast? last
      have different : node ≠ prefixTail := fun same => fresh (same ▸ inside)
      have links : (pq.store node { record with priority := dst }).link = pq.link := by
        rw [link_store, next, ← linked, Function.update_eq_self]
      cases fuel with
      | zero => simp at enough
      | succ fuel =>
          have continued := @ih (pq.store node { record with priority := dst }) following fuel
            (links ▸ remaining) (List.nodup_cons.mp nodup).2
            (by rwa [List.getLast?_cons_cons] at last) (by simpa using enough)
          rw [← relabelled_cons found fresh, ← continued]
          simp [relabelPrefix, found, different, next]

theorem relabelled_priority (dst : Priority) (path : List Addr) {a : Addr}
    (found : pq.heap a = some record) :
    ∃ kept, (pq.relabelled dst path).heap a = some kept ∧
      kept.priority = if a ∈ path then dst else record.priority := by
  by_cases member : a ∈ path <;> simp [relabelled, member, found]

theorem relabelled_heap (other : PriorityQueue) (same : other.heap = pq.heap) :
    (other.relabelled dst path).heap = (pq.relabelled dst path).heap := by
  simp [relabelled, same]

section Graft

variable (pq : PriorityQueue) (dst : Priority) (head last : Addr)

@[simp] theorem graftHead_heap : (pq.graftHead dst head last).heap = pq.heap := by
  unfold graftHead
  split <;> rfl

@[simp] theorem graftHead_link : (pq.graftHead dst head last).link = pq.link := by
  unfold graftHead
  split <;> rfl

@[simp] theorem graftHead_heads :
    (pq.graftHead dst head last).heads = Function.update pq.heads dst (some head) := by
  unfold graftHead
  split <;> rfl

@[simp] theorem graftHead_mask :
    (pq.graftHead dst head last).readyMask = setBit pq.readyMask dst := by
  unfold graftHead
  split <;> rfl

@[simp] theorem graftHead_counts : (pq.graftHead dst head last).size = pq.size ∧
    (pq.graftHead dst head last).depth = pq.depth ∧
    (pq.graftHead dst head last).maxTasks = pq.maxTasks := by
  unfold graftHead
  split <;> exact ⟨rfl, rfl, rfl⟩

theorem graftHead_tails : (pq.graftHead dst head last).tails =
    if pq.tails dst = none then Function.update pq.tails dst (some last) else pq.tails := by
  unfold graftHead
  split
  · rename_i empty
    rw [if_pos empty]
  · rename_i occupied
    rw [if_neg (by simp [occupied])]

end Graft

/-- The queue after the splice, in closed form. -/
def spliced (pq : PriorityQueue) (src dst : Priority) (prefixHead prefixTail : Addr)
    (path : List Addr) (next : Option Addr) (tailRecord : Task) : PriorityQueue :=
  (((pq.setHead src next).relabelled dst path).store prefixTail
    { tailRecord with next := pq.heads dst }).graftHead dst prefixHead prefixTail

theorem splicePrefix_eq {front post : List Addr} {prefixHead : Addr} {tailRecord : Task}
    (rep : pq.Represents lanes) (different : src ≠ dst)
    (lane : lanes src = front ++ [prefixTail] ++ post)
    (head : (front ++ [prefixTail]).head? = some prefixHead)
    (found : (pq.relabelled dst (front ++ [prefixTail])).heap prefixTail = some tailRecord) :
    pq.splicePrefix src dst prefixHead prefixTail =
      some (pq.spliced src dst prefixHead prefixTail (front ++ [prefixTail]) post.head? tailRecord) := by
  obtain ⟨middle, before, behind⟩ := segment_append.mp (lane ▸ rep.chain src :
    Segment pq.link (pq.heads src) (front ++ [prefixTail] ++ post) none)
  have after : middle = post.head? := Chain.start_eq behind
  subst after
  obtain ⟨oldRecord, lookup, next⟩ := link_eq_some.mp before.link_last
  have nodup : (front ++ [prefixTail]).Nodup := by
    have whole := (rep.chain src).nodup
    rw [lane] at whole
    exact (List.nodup_append.mp whole).1
  obtain ⟨inner, split⟩ : ∃ inner, front ++ [prefixTail] = prefixHead :: inner := by
    cases form : front ++ [prefixTail] with
    | nil => simp at form
    | cons first inner =>
        rw [form] at head
        exact ⟨inner, by rw [Option.some.inj head]⟩
  have bound : inner.length < pq.size := by
    have length := rep.lane_length_le src
    rw [lane, split] at length
    simp at length
    omega
  have start : pq.heads src = some prefixHead := by
    rw [rep.heads_eq, lane, split]
    rfl
  have relabel : relabelPrefix dst prefixTail pq.size (pq.setHead src post.head?) prefixHead =
      some ((pq.setHead src post.head?).relabelled dst (front ++ [prefixTail])) := by
    rw [start, split] at before
    rw [split] at nodup ⊢
    rw [← setHead_link (p := src) pq post.head?] at before
    exact relabelPrefix_spec before nodup (by rw [← split]; simp) bound
  have stored : ((pq.setHead src post.head?).relabelled dst (front ++ [prefixTail])).heap prefixTail =
      some tailRecord := by
    rw [relabelled_heap _ (setHead_heap pq post.head?)]
    exact found
  have target : ((pq.setHead src post.head?).relabelled dst (front ++ [prefixTail])).heads dst =
      pq.heads dst := by
    change (pq.setHead src post.head?).heads dst = _
    rw [setHead_heads, Function.update_of_ne different.symm]
  simp only [splicePrefix, lookup, next, Option.bind_eq_bind, Option.bind_some, setHead_size, relabel,
    stored, target, Option.pure_def, spliced]

theorem promote_ne_nil {due : Addr → Bool} {front post : List Addr} (different : src ≠ dst)
    (moved : (lanes src).takeWhile due = front ++ [prefixTail])
    (kept : (lanes src).dropWhile due = post) {q : Priority} :
    lanes.promote due src dst q ≠ [] ↔ (lanes q ≠ [] ∧ (q = src → post ≠ [])) ∨ q = dst := by
  by_cases atDst : q = dst
  · subst atDst
    simp [moved]
  · by_cases atSrc : q = src
    · subst atSrc
      rw [Lanes.promote_source different, kept]
      have nonempty : post ≠ [] → lanes q ≠ [] := by
        intro more empty
        exact more (by rw [← kept, empty]; rfl)
      grind
    · simp [Lanes.promote_of_ne atSrc atDst, atSrc, atDst]

section Splice

variable {front post : List Addr} {prefixHead : Addr} {tailRecord : Task} {due : Addr → Bool}
  (rep : pq.Represents lanes) (different : src ≠ dst)
  (moved : (lanes src).takeWhile due = front ++ [prefixTail])
  (kept : (lanes src).dropWhile due = post)

include moved kept in
theorem splice_lane : lanes src = front ++ [prefixTail] ++ post := by
  rw [← moved, ← kept, List.takeWhile_append_dropWhile]

theorem spliced_link (path : List Addr) (next : Option Addr) :
    (pq.spliced src dst prefixHead prefixTail path next tailRecord).link =
      Function.update pq.link prefixTail (some (pq.heads dst)) := by
  rw [spliced, graftHead_link, link_store, relabelled_link, setHead_link]

theorem spliced_heads (path : List Addr) (next : Option Addr) :
    (pq.spliced src dst prefixHead prefixTail path next tailRecord).heads =
      Function.update (Function.update pq.heads src next) dst (some prefixHead) := by
  rw [spliced, graftHead_heads, store_heads]
  exact congrArg (fun heads => Function.update heads dst (some prefixHead)) (setHead_heads pq _)

include different in
theorem spliced_tails (path : List Addr) (next : Option Addr) :
    (pq.spliced src dst prefixHead prefixTail path next tailRecord).tails =
      if pq.tails dst = none then
        Function.update (pq.setHead src next).tails dst (some prefixTail)
      else (pq.setHead src next).tails := by
  have base : (((pq.setHead src next).relabelled dst path).store prefixTail
      { tailRecord with next := pq.heads dst }).tails = (pq.setHead src next).tails := rfl
  have same : (pq.setHead src next).tails dst = pq.tails dst := by
    rw [setHead_tails]
    split
    · exact Function.update_of_ne different.symm ..
    · rfl
  rw [spliced, graftHead_tails, base, same]

include rep different moved kept in
/-- The prefix runs into the old head of the target lane; every other lane
keeps its nodes and their links. -/
theorem splice_chain (head : (front ++ [prefixTail]).head? = some prefixHead) (q : Priority) :
    Chain (pq.spliced src dst prefixHead prefixTail (front ++ [prefixTail]) post.head? tailRecord).link
      ((pq.spliced src dst prefixHead prefixTail (front ++ [prefixTail]) post.head?
        tailRecord).heads q) (lanes.promote due src dst q) := by
  have lane := splice_lane moved kept
  have nodup := (rep.chain src).nodup
  rw [lane] at nodup
  have parts := List.nodup_append.mp nodup
  have single : prefixTail ∉ front := fun member =>
    List.disjoint_of_nodup_append parts.1 member (by simp)
  have atSource : prefixTail ∈ lanes src := by simp [lane]
  obtain ⟨middle, before, behind⟩ := segment_append.mp (lane ▸ rep.chain src :
    Segment pq.link (pq.heads src) (front ++ [prefixTail] ++ post) none)
  have after : middle = post.head? := Chain.start_eq behind
  subst after
  have start : pq.heads src = some prefixHead := by
    rw [rep.heads_eq, lane, List.head?_append, head]
    rfl
  rw [spliced_link, spliced_heads]
  by_cases atDst : q = dst
  · subst atDst
    rw [Function.update_self, Lanes.promote_target, moved, ← start]
    refine segment_append.mpr ⟨pq.heads q, before.relink_last single, ?_⟩
    refine segment_congr (fun a member => Function.update_of_ne (fun same => ?_) ..) (rep.chain q)
    exact rep.disjoint different atSource (same ▸ member)
  · rw [Function.update_of_ne atDst]
    by_cases atSrc : q = src
    · subst atSrc
      rw [Function.update_self, Lanes.promote_source different, kept]
      refine segment_congr (fun a member => Function.update_of_ne (fun same => ?_) ..) behind
      exact List.disjoint_of_nodup_append nodup (a := prefixTail) (by simp) (same ▸ member)
    · rw [Function.update_of_ne atSrc, Lanes.promote_of_ne atSrc atDst]
      refine segment_congr (fun a member => Function.update_of_ne (fun same => ?_) ..) (rep.chain q)
      exact rep.disjoint atSrc member (same ▸ atSource)

include rep different moved kept in
theorem splice_tail (q : Priority) :
    (pq.spliced src dst prefixHead prefixTail (front ++ [prefixTail]) post.head? tailRecord).tails q =
      (lanes.promote due src dst q).getLast? := by
  have lane := splice_lane moved kept
  rw [spliced_tails different]
  by_cases atDst : q = dst
  · subst atDst
    rw [Lanes.promote_target, moved, List.getLast?_append, rep.tail]
    cases last : (lanes q).getLast? with
    | none => simp
    | some tail =>
        rw [if_neg (by simp), setHead_tails]
        split
        · rw [Function.update_of_ne different.symm, rep.tail, last]
          rfl
        · rw [rep.tail, last]
          rfl
  · have outer : (if pq.tails dst = none then
        Function.update (pq.setHead src post.head?).tails dst (some prefixTail)
        else (pq.setHead src post.head?).tails) q = (pq.setHead src post.head?).tails q := by
      split
      · exact Function.update_of_ne atDst ..
      · rfl
    rw [outer, setHead_tails]
    by_cases atSrc : q = src
    · subst atSrc
      rw [Lanes.promote_source different, kept]
      cases post with
      | nil => simp
      | cons first more =>
          rw [if_neg (by simp), rep.tail, lane, List.getLast?_append_of_ne_nil _ (by simp)]
    · rw [Lanes.promote_of_ne atSrc atDst, ← rep.tail]
      split
      · exact Function.update_of_ne atSrc ..
      · rfl

include rep different moved in
theorem splice_priority
    (found : (pq.relabelled dst (front ++ [prefixTail])).heap prefixTail = some tailRecord)
    (q : Priority) (a : Addr) (member : a ∈ lanes.promote due src dst q) :
    ∃ record, (pq.spliced src dst prefixHead prefixTail (front ++ [prefixTail]) post.head?
      tailRecord).heap a = some record ∧ record.priority = q := by
  have labelled : ∀ {a old}, pq.heap a = some old → ∃ kept,
      (pq.spliced src dst prefixHead prefixTail (front ++ [prefixTail]) post.head?
        tailRecord).heap a = some kept ∧
      kept.priority = if a ∈ front ++ [prefixTail] then dst else old.priority := by
    intro a old lookup
    obtain ⟨kept, stored, level⟩ := relabelled_priority dst (front ++ [prefixTail]) lookup
    rw [spliced, graftHead_heap]
    by_cases same : a = prefixTail
    · subst same
      have record : kept = tailRecord := Option.some.inj (stored.symm.trans found)
      exact ⟨_, Function.update_self .., by rw [← level, record]⟩
    · refine ⟨kept, ?_, level⟩
      change Function.update ((pq.setHead src post.head?).relabelled dst _).heap prefixTail _ a = _
      rw [Function.update_of_ne same, relabelled_heap _ (setHead_heap pq post.head?), stored]
  have nodup := (rep.chain src).nodup
  rw [← List.takeWhile_append_dropWhile (p := due) (l := lanes src)] at nodup
  rcases (Lanes.mem_promote different).mp member with ⟨queued, stays⟩ | ⟨atDst, lifted⟩
  · obtain ⟨old, lookup, level⟩ := rep.priority q a queued
    obtain ⟨kept, stored, label⟩ := labelled lookup
    have outside : a ∉ front ++ [prefixTail] := by
      intro inside
      rw [← moved] at inside
      have atSrc := rep.separate.level_unique queued ((List.takeWhile_prefix due).subset inside)
      exact List.disjoint_of_nodup_append nodup inside (stays atSrc)
    exact ⟨kept, stored, by rw [label, if_neg outside, level]⟩
  · obtain ⟨old, lookup, _⟩ := rep.priority src a ((List.takeWhile_prefix due).subset lifted)
    obtain ⟨kept, stored, label⟩ := labelled lookup
    exact ⟨kept, stored, by rw [label, if_pos (moved ▸ lifted), atDst]⟩

include rep different moved kept in
theorem splice_mask (bit : Nat) :
    (pq.spliced src dst prefixHead prefixTail (front ++ [prefixTail]) post.head?
      tailRecord).readyMask.getLsbD bit = true ↔
      ∃ q : Priority, q.index = bit ∧ lanes.promote due src dst q ≠ [] := by
  have base : (pq.spliced src dst prefixHead prefixTail (front ++ [prefixTail]) post.head?
      tailRecord).readyMask = setBit (pq.setHead src post.head?).readyMask dst := by
    rw [spliced, graftHead_mask]
    rfl
  simp only [promote_ne_nil different moved kept]
  simp only [base, getLsbD_setBit, setHead_mask, List.head?_eq_none_iff]
  have injective := @Priority.index_injective
  split
  · rw [getLsbD_clearBit, rep.mask bit]
    grind
  · rw [rep.mask bit]
    grind

include rep different moved kept in
/-- A splice of the whole due prefix is a promotion of the lanes. -/
theorem Represents.splice (head : (front ++ [prefixTail]).head? = some prefixHead)
    (found : (pq.relabelled dst (front ++ [prefixTail])).heap prefixTail = some tailRecord) :
    (pq.spliced src dst prefixHead prefixTail (front ++ [prefixTail]) post.head?
      tailRecord).Represents (lanes.promote due src dst) := by
  have counts := graftHead_counts (((pq.setHead src post.head?).relabelled dst
    (front ++ [prefixTail])).store prefixTail { tailRecord with next := pq.heads dst })
    dst prefixHead prefixTail
  refine ⟨splice_chain rep different moved kept head, splice_tail rep different moved kept,
    (Lanes.separate_promote rep.separate different).disjoint,
    splice_priority rep different moved found, splice_mask rep different moved kept, ?_, ?_⟩
  · rw [Lanes.contents_promote different, ← rep.size]
    exact counts.1.trans (setHead_size pq _)
  · rw [Lanes.contents_promote different, ← rep.depth]
    exact counts.2.1.trans (setHead_depth pq _)

theorem splice_keeps
    (found : (pq.relabelled dst (front ++ [prefixTail])).heap prefixTail = some tailRecord) :
    pq.KeepsTasks (pq.spliced src dst prefixHead prefixTail (front ++ [prefixTail]) post.head?
      tailRecord) := by
  have stored : ((pq.setHead src post.head?).relabelled dst (front ++ [prefixTail])).heap prefixTail =
      some tailRecord := by
    rw [relabelled_heap _ (setHead_heap pq post.head?)]
    exact found
  constructor
  · intro a
    rw [spliced, graftHead_heap]
    exact (relink_core stored (pq.heads dst) a).trans
      ((relabelled_core _ dst _ a).trans (by rw [setHead_heap]))
  · rw [spliced]
    exact (graftHead_counts ..).2.2.trans (setHead_maxTasks pq _)

theorem splice_frame {a : Addr} (outside : a ∉ front ++ [prefixTail]) :
    (pq.spliced src dst prefixHead prefixTail (front ++ [prefixTail]) post.head?
      tailRecord).heap a = pq.heap a := by
  have notLast : a ≠ prefixTail := fun same => outside (by simp [same])
  rw [spliced, graftHead_heap, store]
  simp only [Function.update_of_ne notLast]
  rw [relabelled_heap _ (setHead_heap pq post.head?), relabelled]
  exact if_neg outside

end Splice

/-- The locked section of an aging scan lifts exactly the due prefix of the
source lane to the front of the target lane; blocks outside it are not written. -/
theorem promoteLocked_spec (rep : pq.Represents lanes) (different : src ≠ dst) (now : Timespec)
    (promoteTimeMs : Int) :
    ∃ promoted after, pq.promoteLocked src dst now promoteTimeMs = some (promoted, after) ∧
      after.Represents (lanes.promote (pq.due now promoteTimeMs) src dst) ∧ pq.KeepsTasks after ∧
      (promoted = true ↔ (lanes src).takeWhile (pq.due now promoteTimeMs) ≠ []) ∧
      ∀ a ∉ (lanes src).takeWhile (pq.due now promoteTimeMs), after.heap a = pq.heap a := by
  cases lane : lanes src with
  | nil =>
      have head : pq.heads src = none := by rw [rep.heads_eq, lane]; rfl
      have still : (lanes src).takeWhile (pq.due now promoteTimeMs) = [] := by simp [lane]
      refine ⟨false, pq, by simp [promoteLocked, head], ?_, .refl pq, by simp, fun _ _ => rfl⟩
      rwa [Lanes.promote_eq_self still]
  | cons first rest =>
      have head : pq.heads src = some first := by rw [rep.heads_eq, lane]; rfl
      obtain ⟨record, lookup, _⟩ := rep.priority src first (by simp [lane])
      by_cases passed : hasPassedMs record.submitTime now promoteTimeMs = true
      · have isDue : pq.due now promoteTimeMs first = true := (due_eq lookup).trans passed
        have taken : (lanes src).takeWhile (pq.due now promoteTimeMs) =
            first :: rest.takeWhile (pq.due now promoteTimeMs) := by
          rw [lane, List.takeWhile_cons_of_pos isDue]
        obtain ⟨front, prefixTail, split⟩ :=
          (List.eq_nil_or_concat (first :: rest.takeWhile (pq.due now promoteTimeMs))).resolve_left
            (by simp)
        rw [List.concat_eq_append] at split
        have chain : Chain pq.link (some first) (first :: rest) := by
          have whole := rep.chain src
          rwa [head, lane] at whole
        have bound : rest.length < pq.size := by
          have length := rep.lane_length_le src
          rw [lane, List.length_cons] at length
          exact length
        have scanned : pq.findPrefixTail now promoteTimeMs pq.size first = some prefixTail := by
          rw [findPrefixTail_spec chain bound, split]
          simp
        have moved := taken.trans split
        have inPrefix : prefixTail ∈ (lanes src).takeWhile (pq.due now promoteTimeMs) := by
          rw [moved]
          simp
        have inLane : prefixTail ∈ lanes src := (List.takeWhile_prefix _).subset inPrefix
        obtain ⟨old, oldFound, _⟩ := rep.priority src prefixTail inLane
        obtain ⟨tailRecord, found, _⟩ := relabelled_priority dst (front ++ [prefixTail]) oldFound
        have first? : (front ++ [prefixTail]).head? = some first := by rw [← split]; rfl
        have result := splicePrefix_eq rep different (splice_lane moved rfl) first? found
        refine ⟨true, _, ?_, rep.splice different moved rfl first? found, splice_keeps found, ?_, ?_⟩
        · simp [promoteLocked, head, lookup, passed, scanned, result]
        · simp [lane ▸ taken]
        · intro a outside
          rw [← lane, moved] at outside
          exact splice_frame outside
      · have notDue : ¬ pq.due now promoteTimeMs first = true := by rwa [due_eq lookup]
        have still : (lanes src).takeWhile (pq.due now promoteTimeMs) = [] := by
          rw [lane, List.takeWhile_cons_of_neg notDue]
        refine ⟨false, pq, by simp [promoteLocked, head, lookup, passed], ?_, .refl pq, ?_,
          fun _ _ => rfl⟩
        · rwa [Lanes.promote_eq_self still]
        · simp [← lane, still]

end ThreadPool.PriorityQueue
