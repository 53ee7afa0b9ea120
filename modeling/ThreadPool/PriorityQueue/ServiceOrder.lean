import ThreadPool.PriorityQueue.Runs

namespace ThreadPool.PriorityQueue

open Foundation

/-! # Service order under aging

A task that entered at the same or a higher priority stays ahead of a later one
through pushes, pops and promotions, with one exception: a pass that promotes the
later task splices it in front of everything that waits in the lane above.
-/

variable {pq after start : PriorityQueue} {lanes lanes' : Lanes Priority Addr} {op : Op}
  {reply : Reply} {event : Event} {events : List Event} {heap : Addr → Option Task}
  {task x y : Addr} {p : Priority} {pass : AgingPass}

/-- The call `event` hands `task` to the queue; its priority is then `p`. -/
structure Enters (pq : PriorityQueue) (event : Event) (after : PriorityQueue) (task : Addr)
    (p : Priority) : Prop where
  call : Run pq [event] after
  accepted : accepts event = some task
  priority : (pq.heap task).map Task.priority = some p

/-- A scan of the pass promotes `y` into the lane in which `x` is queued. -/
def Splices (pq : PriorityQueue) (lanes : Lanes Priority Addr) (pass : AgingPass) (y x : Addr) :
    Prop :=
  (pass.shutdown₁ = false ∧ y ∈ (lanes .medium).takeWhile (pq.due pass.now₁ pass.promoteTimeMs) ∧
    x ∈ lanes .high) ∨
  (pass.shutdownBetween = false ∧ pass.shutdown₂ = false ∧
    y ∈ (pq.firstScan lanes pass .low).takeWhile (pq.due pass.now₂ pass.promoteTimeMs) ∧
    x ∈ pq.firstScan lanes pass .medium)

theorem firstScan_rises (pq : PriorityQueue) (pass : AgingPass) (member : x ∈ lanes p) :
    ∃ q, p ≤ q ∧ x ∈ pq.firstScan lanes pass q := by
  rw [firstScan]
  split
  · exact ⟨p, le_rfl, member⟩
  · exact Lanes.mem_promote_rises Priority.medium_covBy_high.lt member

theorem agedLanes_rises (member : x ∈ lanes p) : ∃ q, p ≤ q ∧ x ∈ pq.agedLanes lanes pass q := by
  obtain ⟨q, above, inFirst⟩ := firstScan_rises pq pass member
  rw [agedLanes]
  split
  · exact ⟨q, above, inFirst⟩
  · obtain ⟨r, higher, inSecond⟩ := Lanes.mem_promote_rises Priority.low_covBy_medium.lt inFirst
    exact ⟨r, above.trans higher, inSecond⟩

theorem separate_firstScan (separate : lanes.Separate) : (pq.firstScan lanes pass).Separate := by
  rw [firstScan]
  split
  · exact separate
  · exact Lanes.separate_promote separate Priority.medium_covBy_high.lt.ne

theorem agedLanes_ahead (separate : lanes.Separate) (ahead : lanes.Ahead x y)
    (noSplice : ¬ pq.Splices lanes pass y x) : (pq.agedLanes lanes pass).Ahead x y := by
  have first : (pq.firstScan lanes pass).Ahead x y := by
    rw [firstScan]
    split
    case isTrue => exact ahead
    case isFalse running =>
        apply Lanes.ahead_promote separate Priority.medium_covBy_high ahead
        intro spliced
        exact noSplice (.inl ⟨by simpa using running, spliced⟩)
  rw [agedLanes]
  split
  case isTrue => exact first
  case isFalse running =>
      obtain ⟨between, second⟩ : pass.shutdownBetween = false ∧ pass.shutdown₂ = false := by
        simpa using running
      apply Lanes.ahead_promote (separate_firstScan separate) Priority.low_covBy_medium first
      intro spliced
      exact noSplice (.inr ⟨between, second, spliced⟩)

/-- A queued task leaves its lane upwards, or by being popped. -/
theorem Effect.rises (effect : Effect pq lanes op reply lanes') (kept : removes (op, reply) ≠ some x)
    (member : x ∈ lanes p) : ∃ q, p ≤ q ∧ x ∈ lanes' q := by
  cases effect with
  | write | pushNull | tryPushNull | tryPushFull | popNull | setMaxTasks =>
      exact ⟨p, le_rfl, member⟩
  | push | tryPush => exact ⟨p, le_rfl, Lanes.mem_push.mpr (.inl member)⟩
  | popHead _ _ lane =>
      have different : x ≠ _ := fun same => kept (congrArg some same.symm)
      exact ⟨p, le_rfl, Lanes.mem_dropHead_of_ne lane different member⟩
  | aging => exact agedLanes_rises member

theorem Effect.ahead (effect : Effect pq lanes op reply lanes') (separate : lanes.Separate)
    (keptX : removes (op, reply) ≠ some x) (keptY : removes (op, reply) ≠ some y)
    (ahead : lanes.Ahead x y) :
    lanes'.Ahead x y ∨ ∃ pass, op = .aging pass ∧ reply = .done ∧ pq.Splices lanes pass y x := by
  cases effect with
  | write | pushNull | tryPushNull | tryPushFull | popNull | setMaxTasks => exact .inl ahead
  | push | tryPush => exact .inl (Lanes.ahead_push ahead)
  | popHead _ _ lane =>
      have notX : x ≠ _ := fun same => keptX (congrArg some same.symm)
      have notY : y ≠ _ := fun same => keptY (congrArg some same.symm)
      exact .inl (Lanes.ahead_dropHead lane notX notY ahead)
  | @aging pass =>
      by_cases spliced : pq.Splices lanes pass y x
      · exact .inr ⟨pass, rfl, rfl, spliced⟩
      · exact .inl (agedLanes_ahead separate ahead spliced)

theorem not_removed_of_not_mem_popped (kept : task ∉ poppedTasks (event :: events)) :
    removes event ≠ some task ∧ task ∉ poppedTasks events := by
  constructor
  · intro taken
    exact kept (by simp [poppedTasks, taken])
  · intro later
    cases taken : removes event with
    | none => exact kept (by simpa [poppedTasks, taken] using later)
    | some other =>
        apply kept
        simp only [poppedTasks, List.filterMap_cons_some taken]
        exact List.mem_cons_of_mem other later

theorem Run.rises (run : Run start events pq) (rep : start.Represents lanes) (member : x ∈ lanes p)
    (kept : x ∉ poppedTasks events) :
    ∃ lanes' q, pq.Represents lanes' ∧ p ≤ q ∧ x ∈ lanes' q := by
  induction run generalizing lanes p with
  | nil => exact ⟨lanes, p, rep, le_rfl, member⟩
  | cons allowed called _ ih =>
      obtain ⟨now, later⟩ := not_removed_of_not_mem_popped kept
      obtain ⟨middle, effect, moved⟩ := rep.step allowed called
      obtain ⟨q, above, there⟩ := effect.rises now member
      obtain ⟨lanes', r, final, higher, queued⟩ := ih moved there later
      exact ⟨lanes', r, final, above.trans higher, queued⟩

/-- `x` stays ahead of `y` until a pass splices `y` in front of it. -/
theorem Run.ahead (run : Run start events pq) (rep : start.Represents lanes)
    (ahead : lanes.Ahead x y) (keptX : x ∉ poppedTasks events) (keptY : y ∉ poppedTasks events) :
    (∃ lanes', pq.Represents lanes' ∧ lanes'.Ahead x y) ∨
      ∃ earlier pass rest middle, events = earlier ++ (.aging pass, .done) :: rest ∧
        Run start earlier middle ∧ middle.Splices middle.lanes pass y x := by
  induction run generalizing lanes with
  | nil => exact .inl ⟨lanes, rep, ahead⟩
  | @cons pq next after op reply events allowed called _ ih =>
      obtain ⟨nowX, laterX⟩ := not_removed_of_not_mem_popped keptX
      obtain ⟨nowY, laterY⟩ := not_removed_of_not_mem_popped keptY
      obtain ⟨middle, effect, moved⟩ := rep.step allowed called
      rcases effect.ahead rep.separate nowX nowY ahead with still | ⟨pass, rfl, rfl, spliced⟩
      · rcases ih moved still laterX laterY with final | ⟨earlier, pass, rest, state, split, reached, spliced⟩
        · exact .inl final
        · exact .inr ⟨(op, reply) :: earlier, pass, rest, state, by simp [split],
            .cons allowed called reached, spliced⟩
      · exact .inr ⟨[], pass, events, pq, rfl, .nil pq, by rwa [rep.lanes_eq]⟩

/-- A task that enters stands last in the lane of its priority. -/
theorem Enters.effect (enters : pq.Enters event after task p) (rep : pq.Represents lanes) :
    ¬ lanes.Queued task ∧ after.Represents (lanes.push p task) := by
  obtain ⟨call, accepted, priority⟩ := enters
  cases call with
  | cons allowed called rest =>
      cases rest
      obtain ⟨lanes', effect, moved⟩ := rep.step allowed called
      cases effect with
      | push found fresh | tryPush found fresh =>
          obtain rfl : _ = task := Option.some.inj accepted
          obtain rfl : _ = p := by simpa [found] using priority
          exact ⟨fresh, moved⟩
      | write | pushNull | tryPushNull | tryPushFull | setMaxTasks | aging => cases accepted
      | popNull isPop | popHead isPop =>
          rw [accepts_pop isPop] at accepted
          cases accepted

/-- A served task stands first in the highest non-empty lane. -/
theorem served_top (call : Run pq [event] after) (popped : removes event = some y)
    (rep : pq.Represents lanes) : ∃ p rest, lanes.Top p ∧ lanes p = y :: rest := by
  cases call with
  | cons allowed called rest =>
      cases rest
      obtain ⟨lanes', effect, moved⟩ := rep.step allowed called
      cases effect with
      | popHead isPop top lane =>
          obtain rfl : _ = y := Option.some.inj popped
          exact ⟨_, _, top, lane⟩
      | _ => cases popped

/-- A task is served while another one waits that entered before it, at its
priority or above, only if an aging pass has meanwhile promoted it into the lane
of that other task. -/
theorem overtaken_only_by_splice {s₀ s₁ s₂ s₃ s₄ s₅ : PriorityQueue}
    {before between since : List Event} {entryX entryY served : Event} {px py : Priority}
    (prior : Run (pqInit heap) before s₀) (entersX : s₀.Enters entryX s₁ x px)
    (meanwhile : Run s₁ between s₂) (keptX : x ∉ poppedTasks between)
    (entersY : s₂.Enters entryY s₃ y py) (order : py ≤ px)
    (later : Run s₃ since s₄) (waitingX : x ∉ poppedTasks since) (waitingY : y ∉ poppedTasks since)
    (call : Run s₄ [served] s₅) (popped : removes served = some y) :
    ∃ earlier pass rest middle, since = earlier ++ (.aging pass, .done) :: rest ∧
      Run s₃ earlier middle ∧ middle.Splices middle.lanes pass y x := by
  obtain ⟨lanes₀, rep₀⟩ := prior.represents (represents_init heap)
  obtain ⟨_, rep₁⟩ := entersX.effect rep₀
  have entered : x ∈ lanes₀.push px x px := by simp
  obtain ⟨lanes₂, level, rep₂, above, queued⟩ := meanwhile.rises rep₁ entered keptX
  obtain ⟨_, rep₃⟩ := entersY.effect rep₂
  have ahead : (lanes₂.push py y).Ahead x y := Lanes.ahead_of_push (order.trans above) queued
  rcases later.ahead rep₃ ahead waitingX waitingY with ⟨lanes₄, rep₄, still⟩ | spliced
  · obtain ⟨top, rest, isTop, lane⟩ := served_top call popped rep₄
    exact absurd still (Lanes.not_ahead_of_top rep₄.separate isTop lane)
  · exact spliced

/-- The queue after the first `n` calls of `promotionCalls`. -/
def promotionState (n : Nat) : PriorityQueue :=
  (((pqInit fun _ => none).runOps (promotionCalls.take n)).map Prod.snd).getD (pqInit fun _ => none)

def passAt (seconds : Int) : AgingPass :=
  { now₁ := ⟨seconds, 0⟩, now₂ := ⟨seconds, 0⟩, promoteTimeMs := 1000 }

theorem promotion_prior : Run (pqInit fun _ => none)
    [(.write 1 (some (stamped .medium ⟨1, 0⟩)), .done)] (promotionState 1) :=
  .cons (by decide) rfl (.nil _)

theorem promotion_enters_first :
    (promotionState 1).Enters (.push (some 1), .done) (promotionState 2) 1 .medium :=
  ⟨.cons (by decide) rfl (.nil _), rfl, rfl⟩

theorem promotion_between : Run (promotionState 2)
    [(.write 2 (some (stamped .medium ⟨2, 0⟩)), .done)] (promotionState 3) :=
  .cons (by decide) rfl (.nil _)

theorem promotion_enters_second :
    (promotionState 3).Enters (.tryPush (some 2), .pushed true) (promotionState 4) 2 .medium :=
  ⟨.cons (by decide) rfl (.nil _), rfl, rfl⟩

theorem promotion_passes : Run (promotionState 4)
    [(.aging (passAt 2), .done), (.aging (passAt 3), .done)] (promotionState 6) :=
  .cons trivial (show (promotionState 4).exec _ = some (.done, promotionState 5) from rfl)
    (.cons trivial rfl (.nil _))

theorem promotion_served :
    Run (promotionState 6) [(.popNonblock, .popped (some 2))] (promotionState 7) :=
  .cons trivial rfl (.nil _)

theorem overtaken_only_by_splice_promotion :
    ∃ earlier pass rest middle,
      [(Op.aging (passAt 2), Reply.done), (.aging (passAt 3), .done)] =
        earlier ++ (.aging pass, .done) :: rest ∧
      Run (promotionState 4) earlier middle ∧ middle.Splices middle.lanes pass 2 1 :=
  overtaken_only_by_splice promotion_prior promotion_enters_first promotion_between (by decide)
    promotion_enters_second le_rfl promotion_passes (by decide) (by decide) promotion_served rfl

/-- Task 1 enters at one second and task 2 at two seconds, both at medium priority;
two passes with a threshold of one second run at two and at three seconds. Task 2 is
then served while task 1 is still queued. -/
theorem equal_priority_overtaken :
    Run (pqInit fun _ => none) [(.write 1 (some (stamped .medium ⟨1, 0⟩)), .done)]
        (promotionState 1) ∧
      (promotionState 1).Enters (.push (some 1), .done) (promotionState 2) 1 .medium ∧
      Run (promotionState 2) [(.write 2 (some (stamped .medium ⟨2, 0⟩)), .done)]
        (promotionState 3) ∧
      (promotionState 3).Enters (.tryPush (some 2), .pushed true) (promotionState 4) 2 .medium ∧
      Run (promotionState 4) [(.aging (passAt 2), .done), (.aging (passAt 3), .done)]
        (promotionState 6) ∧
      Run (promotionState 6) [(.popNonblock, .popped (some 2))] (promotionState 7) ∧
      (promotionState 7).lanes.Queued 1 :=
  ⟨promotion_prior, promotion_enters_first, promotion_between, promotion_enters_second,
    promotion_passes, promotion_served, by decide⟩

end ThreadPool.PriorityQueue
