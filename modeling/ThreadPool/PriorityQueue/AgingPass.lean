import ThreadPool.PriorityQueue.Refinement

namespace ThreadPool.PriorityQueue

open Foundation

/-! # One aging pass

With no shutdown in progress `pq_aging` is two splices. Their joint effect is
stated on the lanes, on the priority field of every block and on the counters.
-/

variable {pq after : PriorityQueue} {lanes aged : Lanes Priority Addr} {src dst p : Priority}
  {now now₁ now₂ : Timespec} {promoteTimeMs : Int} {early late : Addr → Bool} {task : Addr}

/-- A scan relabels the tasks it moves and no other block. -/
theorem scan_labels (rep : pq.Represents lanes) (different : src ≠ dst) (now : Timespec)
    (promoteTimeMs : Int) :
    ∃ promoted after,
      pq.pqAgingPromotePrefix src dst false now promoteTimeMs = some (promoted, after) ∧
      after.Represents (lanes.promote (pq.due now promoteTimeMs) src dst) ∧
      pq.KeepsTasks after ∧
      ∀ a, (after.heap a).map Task.priority =
        if a ∈ (lanes src).takeWhile (pq.due now promoteTimeMs) then some dst
        else (pq.heap a).map Task.priority := by
  obtain ⟨promoted, after, result, represents, keeps, _, frame⟩ :=
    promoteLocked_spec rep different now promoteTimeMs
  refine ⟨promoted, after, by simp [pqAgingPromotePrefix, result], represents, keeps, ?_⟩
  intro a
  by_cases moved : a ∈ (lanes src).takeWhile (pq.due now promoteTimeMs)
  · obtain ⟨record, found, level⟩ :=
      represents.priority dst a (Lanes.mem_promote_of_moved different moved)
    simp [moved, found, level]
  · rw [frame a moved, if_neg moved]

/-- The queue `after` is `pq` with the longest `early` prefix of the medium lane in front of
the high lane, and the longest `late` prefix of the low lane in front of what
remains of the medium one. -/
structure Aged (pq after : PriorityQueue) (lanes aged : Lanes Priority Addr)
    (early late : Addr → Bool) : Prop where
  represents : after.Represents aged
  high : aged .high = (lanes .medium).takeWhile early ++ lanes .high
  medium : aged .medium = (lanes .low).takeWhile late ++ (lanes .medium).dropWhile early
  low : aged .low = (lanes .low).dropWhile late
  /-- Exactly the moved tasks are relabelled. -/
  labels : ∀ a, (after.heap a).map Task.priority =
    if a ∈ (lanes .medium).takeWhile early then some .high
    else if a ∈ (lanes .low).takeWhile late then some .medium
    else (pq.heap a).map Task.priority
  keeps : pq.KeepsTasks after
  /-- A task stays in its lane or rises to the next one. -/
  level : ∀ p, ∀ task ∈ lanes p, ∃ q, task ∈ aged q ∧ p ≤ q ∧ q.index ≤ p.index + 1
  contents : aged.contents = lanes.contents
  size : after.size = pq.size
  depth : after.depth = pq.depth

/-- Two promotions in this order never carry a task past two levels: what the
first one lifts is out of reach of the second. -/
theorem promote_promote_level (lanes : Lanes Priority Addr) (early late : Addr → Bool)
    (member : task ∈ lanes p) :
    ∃ q, task ∈ (lanes.promote early .medium .high).promote late .low .medium q ∧
      p ≤ q ∧ q.index ≤ p.index + 1 := by
  have lower := Priority.low_covBy_medium.lt
  have upper := Priority.medium_covBy_high.lt
  have low : lanes.promote early .medium .high .low = lanes .low :=
    Lanes.promote_of_ne lower.ne (lower.trans upper).ne
  by_cases first : task ∈ (lanes .medium).takeWhile early ∧ p = .medium
  · obtain ⟨taken, rfl⟩ := first
    refine ⟨.high, ?_, upper.le, by decide⟩
    rw [Lanes.promote_of_ne (lower.trans upper).ne.symm upper.ne.symm]
    exact Lanes.mem_promote_of_moved upper.ne taken
  · have kept : task ∈ lanes.promote early .medium .high p :=
      Lanes.mem_promote_of_stays upper.ne member fun same taken => first ⟨taken, same⟩
    by_cases second : task ∈ (lanes .low).takeWhile late ∧ p = .low
    · obtain ⟨taken, rfl⟩ := second
      refine ⟨.medium, Lanes.mem_promote_of_moved lower.ne ?_, lower.le, by decide⟩
      rwa [low]
    · refine ⟨p, Lanes.mem_promote_of_stays lower.ne kept fun same taken => ?_, le_rfl, by omega⟩
      rw [low] at taken
      exact second ⟨taken, same⟩

theorem pqAging_aged (rep : pq.Represents lanes) (now₁ now₂ : Timespec) (promoteTimeMs : Int) :
    ∃ after, pq.pqAging { now₁, now₂, promoteTimeMs } = some after ∧
      Aged pq after lanes ((lanes.promote (pq.due now₁ promoteTimeMs) .medium .high).promote
          (pq.due now₂ promoteTimeMs) .low .medium)
        (pq.due now₁ promoteTimeMs) (pq.due now₂ promoteTimeMs) := by
  have lower := Priority.low_covBy_medium.lt
  have upper := Priority.medium_covBy_high.lt
  obtain ⟨_, first, scanned, firstRep, firstKeeps, firstLabels⟩ :=
    scan_labels rep upper.ne now₁ promoteTimeMs
  obtain ⟨_, after, again, represents, keeps, labels⟩ :=
    scan_labels firstRep lower.ne now₂ promoteTimeMs
  have low : lanes.promote (pq.due now₁ promoteTimeMs) .medium .high .low = lanes .low :=
    Lanes.promote_of_ne lower.ne (lower.trans upper).ne
  -- the scans rewrite no stamp, so the second one tests what the first one left
  rw [firstKeeps.due] at represents labels
  have contents : ((lanes.promote (pq.due now₁ promoteTimeMs) .medium .high).promote
      (pq.due now₂ promoteTimeMs) .low .medium).contents = lanes.contents :=
    (Lanes.contents_promote lower.ne).trans (Lanes.contents_promote upper.ne)
  refine ⟨after, by simp [pqAging, scanned, again], {
    represents
    high := ?_
    medium := ?_
    low := ?_
    labels := ?_
    keeps := firstKeeps.trans keeps
    level := fun p task member => promote_promote_level lanes _ _ member
    contents
    size := by rw [represents.size, contents, rep.size]
    depth := by rw [represents.depth, contents, rep.depth] }⟩
  · rw [Lanes.promote_of_ne (lower.trans upper).ne.symm upper.ne.symm, Lanes.promote_target]
  · rw [Lanes.promote_target, low, Lanes.promote_source upper.ne]
  · rw [Lanes.promote_source lower.ne, low]
  · intro a
    rw [labels, firstLabels, low]
    by_cases lifted : a ∈ (lanes .medium).takeWhile (pq.due now₁ promoteTimeMs)
    · have notLow : a ∉ (lanes .low).takeWhile (pq.due now₂ promoteTimeMs) := fun taken =>
        rep.disjoint lower.ne ((List.takeWhile_prefix _).subset taken)
          ((List.takeWhile_prefix _).subset lifted)
      simp [lifted, notLow]
    · simp [lifted]

/-- The effect of an aging pass on a represented queue. The test that delimits
the prefixes is the elapsed-time test on every task whose stamp is a clock
value, as long as the threshold fits a `long` in nanoseconds. -/
theorem aging_pass_effect (rep : pq.Represents lanes) (now₁ now₂ : Timespec) (promoteTimeMs : Int)
    (lower : -9223372036854775808 ≤ promoteTimeMs * 1000000)
    (upper : promoteTimeMs * 1000000 < 9223372036854775808) :
    (∃ after aged, pq.pqAging { now₁, now₂, promoteTimeMs } = some after ∧
      Aged pq after lanes aged (pq.due now₁ promoteTimeMs) (pq.due now₂ promoteTimeMs)) ∧
    ∀ task record now, pq.heap task = some record → record.submitTime.Reading → now.Reading →
      (pq.due now promoteTimeMs task = true ↔ Waited record.submitTime now promoteTimeMs) := by
  constructor
  · obtain ⟨after, result, aged⟩ := pqAging_aged rep now₁ now₂ promoteTimeMs
    exact ⟨after, _, result, aged⟩
  · intro task record now found stamped reading
    rw [due_eq found, hasPassedMs_iff stamped reading, wrap_of_range_64 lower upper, Waited]

/-- Two medium and two low tasks; at three seconds the first of each has waited two. -/
def twoLevelCalls : List Op :=
  [.write 1 (some (stamped .medium ⟨1, 0⟩)), .push (some 1),
   .write 2 (some (stamped .medium ⟨2, 0⟩)), .push (some 2),
   .write 3 (some (stamped .low ⟨1, 0⟩)), .push (some 3),
   .write 4 (some (stamped .low ⟨2, 0⟩)), .push (some 4)]

theorem aging_pass_effect_twoLevelCalls : ∃ events pq,
    (pqInit fun _ => none).runOps twoLevelCalls = some (events, pq) ∧
      (∃ after aged, pq.pqAging { now₁ := ⟨3, 0⟩, now₂ := ⟨3, 0⟩, promoteTimeMs := 2000 } =
          some after ∧
        Aged pq after pq.lanes aged (pq.due ⟨3, 0⟩ 2000) (pq.due ⟨3, 0⟩ 2000)) ∧
      ∀ task record now, pq.heap task = some record → record.submitTime.Reading → now.Reading →
        (pq.due now 2000 task = true ↔ Waited record.submitTime now 2000) := by
  have replies : ((pqInit fun _ => none).runOps twoLevelCalls).isSome = true := by decide
  obtain ⟨⟨events, pq⟩, result⟩ := Option.isSome_iff_exists.mp replies
  obtain ⟨lanes, rep⟩ := (Run.of_runOps result).represents (represents_init _)
  refine ⟨events, pq, result, ?_⟩
  rw [rep.lanes_eq]
  exact aging_pass_effect rep ⟨3, 0⟩ ⟨3, 0⟩ 2000 (by decide) (by decide)

end ThreadPool.PriorityQueue
