import ThreadPool.PriorityQueue.Promotion

namespace ThreadPool.PriorityQueue

open Foundation

/-! # Runs of the queue

A client calls the operations one after the other and, between the calls,
writes, allocates and frees blocks that are not queued. `Effect` says what each
call does to the lanes; everything about runs is derived from it.
-/

inductive Op where
  | write (addr : Addr) (record : Option Task)
  | push (task : Option Addr)
  | tryPush (task : Option Addr)
  | pop
  | popUntilShutdown (flag : Option Bool)
  | popNonblock
  | setMaxTasks (maxTasks : Nat)
  | aging (pass : AgingPass)

inductive Reply where
  | done
  | pushed (accepted : Bool)
  | popped (task : Option Addr)
deriving DecidableEq

abbrev Event := Op × Reply

/-- A pop that stays blocked or faults does not reply. -/
def PopOutcome.reply? : PopOutcome → Option (Reply × PriorityQueue)
  | .returns task pq => some (.popped task, pq)
  | .blocks => none
  | .faults => none

def exec (pq : PriorityQueue) : Op → Option (Reply × PriorityQueue)
  | .write addr record => some (.done, { pq with heap := Function.update pq.heap addr record })
  | .push task => (pq.pqPush task).map fun after => (.done, after)
  | .tryPush task => (pq.pqTryPush task).map fun result => (.pushed result.1, result.2)
  | .pop => pq.pqPop.reply?
  | .popUntilShutdown flag => (pq.pqPopUntilShutdown flag).reply?
  | .popNonblock => pq.pqPopNonblock.reply?
  | .setMaxTasks maxTasks => some (.done, pq.pqSetMaxTasks maxTasks)
  | .aging pass => (pq.pqAging pass).map fun after => (.done, after)

/-- The client may push an allocated task that is not queued, and may not touch
a queued one. -/
def Allowed (pq : PriorityQueue) : Op → Prop
  | .write addr _ => ¬ pq.lanes.Queued addr
  | .push (some task) => ¬ pq.lanes.Queued task ∧ (pq.heap task).isSome
  | .tryPush (some task) => ¬ pq.lanes.Queued task ∧ (pq.heap task).isSome
  | _ => True

instance (lanes : Lanes Priority Addr) (task : Addr) : Decidable (lanes.Queued task) :=
  inferInstanceAs (Decidable (∃ level, task ∈ lanes level))

instance (pq : PriorityQueue) : (op : Op) → Decidable (pq.Allowed op)
  | .write addr _ => inferInstanceAs (Decidable (¬ pq.lanes.Queued addr))
  | .push (some task) =>
      inferInstanceAs (Decidable (¬ pq.lanes.Queued task ∧ (pq.heap task).isSome))
  | .tryPush (some task) =>
      inferInstanceAs (Decidable (¬ pq.lanes.Queued task ∧ (pq.heap task).isSome))
  | .push none => .isTrue trivial
  | .tryPush none => .isTrue trivial
  | .pop => .isTrue trivial
  | .popUntilShutdown _ => .isTrue trivial
  | .popNonblock => .isTrue trivial
  | .setMaxTasks _ => .isTrue trivial
  | .aging _ => .isTrue trivial

inductive Run : PriorityQueue → List Event → PriorityQueue → Prop
  | nil (pq) : Run pq [] pq
  | cons {pq next after op reply events} :
      pq.Allowed op →
      pq.exec op = some (reply, next) →
      Run next events after →
      Run pq ((op, reply) :: events) after

/-- The events of a sequence of calls, when every call is allowed and replies. -/
def runOps (pq : PriorityQueue) : List Op → Option (List Event × PriorityQueue)
  | [] => some ([], pq)
  | op :: ops => do
      guard (pq.Allowed op)
      let (reply, next) ← pq.exec op
      let (events, after) ← next.runOps ops
      return ((op, reply) :: events, after)

/-- The task that a call hands over to the queue. -/
def accepts : Event → Option Addr
  | (.push task, _) => task
  | (.tryPush task, .pushed true) => task
  | _ => none

/-- The task that a call takes out of the queue. -/
def removes : Event → Option Addr
  | (_, .popped task) => task
  | _ => none

def acceptedTasks (events : List Event) : List Addr := events.filterMap accepts

def poppedTasks (events : List Event) : List Addr := events.filterMap removes

def Op.IsPop : Op → Prop
  | .pop => True
  | .popUntilShutdown _ => True
  | .popNonblock => True
  | _ => False

/-- The lanes after the first scan of an aging pass. -/
def firstScan (pq : PriorityQueue) (lanes : Lanes Priority Addr) (pass : AgingPass) :
    Lanes Priority Addr :=
  if pass.shutdown₁ then lanes
  else lanes.promote (pq.due pass.now₁ pass.promoteTimeMs) .medium .high

/-- The lanes after an aging pass. -/
def agedLanes (pq : PriorityQueue) (lanes : Lanes Priority Addr) (pass : AgingPass) :
    Lanes Priority Addr :=
  if pass.shutdownBetween || pass.shutdown₂ then pq.firstScan lanes pass
  else (pq.firstScan lanes pass).promote (pq.due pass.now₂ pass.promoteTimeMs) .low .medium

/-- What a call does to the lanes `lanes` of `pq`. -/
inductive Effect (pq : PriorityQueue) (lanes : Lanes Priority Addr) :
    Op → Reply → Lanes Priority Addr → Prop
  | write {addr record} : Effect pq lanes (.write addr record) .done lanes
  | pushNull : Effect pq lanes (.push none) .done lanes
  | push {task record} : pq.heap task = some record → ¬ lanes.Queued task →
      Effect pq lanes (.push (some task)) .done (lanes.push record.priority task)
  | tryPushNull : Effect pq lanes (.tryPush none) (.pushed false) lanes
  | tryPushFull {task} : pq.atCapacity pq.maxTasks = true →
      Effect pq lanes (.tryPush (some task)) (.pushed false) lanes
  | tryPush {task record} : pq.heap task = some record → ¬ lanes.Queued task →
      pq.atCapacity pq.maxTasks = false →
      Effect pq lanes (.tryPush (some task)) (.pushed true) (lanes.push record.priority task)
  | popNull {op} : op.IsPop → lanes.contents = 0 → Effect pq lanes op (.popped none) lanes
  | popHead {op p task rest} : op.IsPop → lanes.Top p → lanes p = task :: rest →
      Effect pq lanes op (.popped (some task)) (lanes.dropHead p)
  | setMaxTasks {maxTasks} : Effect pq lanes (.setMaxTasks maxTasks) .done lanes
  | aging {pass} : Effect pq lanes (.aging pass) .done (pq.agedLanes lanes pass)

variable {pq after start next : PriorityQueue} {lanes lanes' : Lanes Priority Addr}
  {op : Op} {reply : Reply} {events : List Event} {task : Addr} {record : Task}

theorem Run.of_runOps {ops : List Op} (result : pq.runOps ops = some (events, after)) :
    Run pq events after := by
  induction ops generalizing pq events with
  | nil =>
      simp only [runOps, Option.some.injEq, Prod.mk.injEq] at result
      obtain ⟨rfl, rfl⟩ := result
      exact .nil pq
  | cons op ops ih =>
      simp only [runOps, guard, Option.bind_eq_bind] at result
      split at result
      case isTrue allowed =>
          cases called : pq.exec op with
          | none => simp [called] at result
          | some outcome =>
              obtain ⟨reply, next⟩ := outcome
              cases remaining : next.runOps ops with
              | none => simp [called, remaining] at result
              | some tail =>
                  obtain ⟨later, final⟩ := tail
                  simp [called, remaining] at result
                  obtain ⟨rfl, rfl⟩ := result
                  exact .cons allowed called (ih remaining)
      case isFalse => simp at result

theorem accepts_pop (isPop : op.IsPop) : accepts (op, reply) = none := by
  cases op with
  | pop | popUntilShutdown | popNonblock => rfl
  | _ => exact isPop.elim

theorem represents_init (heap : Addr → Option Task) : (pqInit heap).Represents Lanes.empty where
  chain _ := rfl
  tail _ := rfl
  disjoint _ := by simp [Lanes.empty]
  priority _ a member := by simp [Lanes.empty] at member
  mask bit := by simp [pqInit, Lanes.empty]
  size := by simp [pqInit]
  depth := by simp [pqInit]

/-- The client's writes stay outside the lanes. -/
theorem Represents.write {addr : Addr} (rep : pq.Represents lanes) (fresh : ¬ lanes.Queued addr)
    (record : Option Task) :
    PriorityQueue.Represents { pq with heap := Function.update pq.heap addr record } lanes := by
  have outside : ∀ {p a}, a ∈ lanes p → a ≠ addr := by
    intro p a member same
    exact fresh ⟨p, same ▸ member⟩
  refine { rep with chain := ?_, priority := ?_ }
  · intro p
    apply segment_congr ?_ (rep.chain p)
    intro a member
    simp [link, outside member]
  · intro p a member
    obtain ⟨old, found, level⟩ := rep.priority p a member
    exact ⟨old, by simpa [outside member] using found, level⟩

theorem Represents.setMaxTasks (rep : pq.Represents lanes) (maxTasks : Nat) :
    (pq.pqSetMaxTasks maxTasks).Represents lanes :=
  { rep with chain := rep.chain }

theorem tryPush_spec (rep : pq.Represents lanes) (found : pq.heap task = some record)
    (fresh : ¬ lanes.Queued task) (room : pq.atCapacity pq.maxTasks = false) :
    ∃ after, pq.pqTryPush (some task) = some (true, after) ∧
      after.Represents (lanes.push record.priority task) ∧ pq.KeepsTasks after := by
  obtain ⟨after, inserted, grown, keeps⟩ := insert_spec rep found fresh
  exact ⟨after, by simp [pqTryPush, room, inserted], grown, keeps⟩

theorem tryPush_full (full : pq.atCapacity pq.maxTasks = true) :
    pq.pqTryPush (some task) = some (false, pq) := by
  simp [pqTryPush, full]

/-- On a queue that holds a task every pop variant returns; on an empty one it
returns null or stays blocked. -/
theorem pop_effect (rep : pq.Represents lanes) (isPop : op.IsPop) :
    (lanes.contents = 0 ∧ (pq.exec op = none ∨ pq.exec op = some (.popped none, pq))) ∨
      ∃ p task rest after, lanes.Top p ∧ lanes p = task :: rest ∧
        pq.exec op = some (.popped (some task), after) ∧ after.Represents (lanes.dropHead p) := by
  by_cases ready : pq.readyMask = 0
  · refine .inl ⟨rep.mask_eq_zero.mp ready, ?_⟩
    cases op with
    | pop => exact .inl (by simp [exec, pqPop, pqPopUntilShutdown, ready, shutdownRequested,
        PopOutcome.reply?])
    | popUntilShutdown flag =>
        cases requested : shutdownRequested flag with
        | true => exact .inr (by simp [exec, pqPopUntilShutdown, ready, requested, PopOutcome.reply?])
        | false => exact .inl (by simp [exec, pqPopUntilShutdown, ready, requested, PopOutcome.reply?])
    | popNonblock => exact .inr (by simp [exec, pqPopNonblock, ready, PopOutcome.reply?])
    | _ => exact isPop.elim
  · obtain ⟨p, task, rest, after, top, lane, popped, shrunk, _⟩ := pop_spec rep ready
    have blocking : ∀ flag, pq.pqPopUntilShutdown flag = .returns (some task) after := by
      intro flag
      rw [pqPopUntilShutdown, if_neg ready, popped, PopOutcome.ofPopped]
    have nonblock : pq.pqPopNonblock = .returns (some task) after := by
      rw [pqPopNonblock, if_neg ready, popped, PopOutcome.ofPopped]
    refine .inr ⟨p, task, rest, after, top, lane, ?_, shrunk⟩
    cases op with
    | pop => rw [exec, pqPop, blocking none, PopOutcome.reply?]
    | popUntilShutdown flag => rw [exec, blocking flag, PopOutcome.reply?]
    | popNonblock => rw [exec, nonblock, PopOutcome.reply?]
    | _ => exact isPop.elim

theorem scan_spec {src dst : Priority} (rep : pq.Represents lanes) (different : src ≠ dst)
    (shutdown : Bool) (now : Timespec) (promoteTimeMs : Int) :
    ∃ promoted after,
      pq.pqAgingPromotePrefix src dst shutdown now promoteTimeMs = some (promoted, after) ∧
      after.Represents
        (if shutdown then lanes else lanes.promote (pq.due now promoteTimeMs) src dst) ∧
      pq.KeepsTasks after := by
  cases shutdown with
  | true => exact ⟨false, pq, by simp [pqAgingPromotePrefix], by simpa using rep, .refl pq⟩
  | false =>
      obtain ⟨promoted, after, result, moved, keeps, _⟩ :=
        promoteLocked_spec rep different now promoteTimeMs
      exact ⟨promoted, after, by simp [pqAgingPromotePrefix, result], by simpa using moved, keeps⟩

theorem pqAging_spec (rep : pq.Represents lanes) (pass : AgingPass) :
    ∃ after, pq.pqAging pass = some after ∧ after.Represents (pq.agedLanes lanes pass) ∧
      pq.KeepsTasks after := by
  obtain ⟨_, first, scanned, firstRep, firstKeeps⟩ :=
    scan_spec rep Priority.medium_covBy_high.lt.ne pass.shutdown₁ pass.now₁ pass.promoteTimeMs
  obtain ⟨_, second, again, secondRep, secondKeeps⟩ :=
    scan_spec firstRep Priority.low_covBy_medium.lt.ne pass.shutdown₂ pass.now₂ pass.promoteTimeMs
  rw [firstKeeps.due] at secondRep
  cases between : pass.shutdownBetween with
  | true =>
      refine ⟨first, by simp [pqAging, scanned, between], ?_, firstKeeps⟩
      simpa [agedLanes, firstScan, between] using firstRep
  | false =>
      refine ⟨second, by simp [pqAging, scanned, between, again], ?_, firstKeeps.trans secondKeeps⟩
      simpa [agedLanes, firstScan, between] using secondRep

/-- An allowed call has its effect on the lanes and leaves them represented; the
only calls without a reply are pops blocked on an empty queue. -/
theorem exec_effect (rep : pq.Represents lanes) (allowed : pq.Allowed op) :
    (∃ reply after lanes', pq.exec op = some (reply, after) ∧ Effect pq lanes op reply lanes' ∧
      after.Represents lanes') ∨ (op.IsPop ∧ lanes.contents = 0 ∧ pq.exec op = none) := by
  have popCase : ∀ {op : Op}, op.IsPop → (∃ reply after lanes', pq.exec op = some (reply, after) ∧
      Effect pq lanes op reply lanes' ∧ after.Represents lanes') ∨
      (op.IsPop ∧ lanes.contents = 0 ∧ pq.exec op = none) := by
    intro op isPop
    rcases pop_effect rep isPop with
      ⟨empty, blocked | null⟩ | ⟨p, task, rest, after, top, lane, popped, shrunk⟩
    · exact .inr ⟨isPop, empty, blocked⟩
    · exact .inl ⟨_, _, _, null, .popNull isPop empty, rep⟩
    · exact .inl ⟨_, _, _, popped, .popHead isPop top lane, shrunk⟩
  cases op with
  | write addr record =>
      rw [Allowed, rep.lanes_eq] at allowed
      exact .inl ⟨_, _, _, rfl, .write, rep.write allowed record⟩
  | push task =>
      cases task with
      | none => exact .inl ⟨_, _, _, rfl, .pushNull, rep⟩
      | some task =>
          obtain ⟨fresh, allocated⟩ := allowed
          rw [rep.lanes_eq] at fresh
          obtain ⟨record, found⟩ := Option.isSome_iff_exists.mp allocated
          obtain ⟨after, inserted, grown, _⟩ := insert_spec rep found fresh
          exact .inl ⟨_, _, _, by rw [exec, pqPush, inserted]; rfl, .push found fresh, grown⟩
  | tryPush task =>
      cases task with
      | none => exact .inl ⟨_, _, _, rfl, .tryPushNull, rep⟩
      | some task =>
          obtain ⟨fresh, allocated⟩ := allowed
          rw [rep.lanes_eq] at fresh
          obtain ⟨record, found⟩ := Option.isSome_iff_exists.mp allocated
          cases room : pq.atCapacity pq.maxTasks with
          | true => exact .inl ⟨_, _, _, by rw [exec, tryPush_full room]; rfl, .tryPushFull room, rep⟩
          | false =>
              obtain ⟨after, pushed, grown, _⟩ := tryPush_spec rep found fresh room
              exact .inl ⟨_, _, _, by rw [exec, pushed]; rfl, .tryPush found fresh room, grown⟩
  | pop => exact popCase trivial
  | popUntilShutdown flag => exact popCase trivial
  | popNonblock => exact popCase trivial
  | setMaxTasks maxTasks => exact .inl ⟨_, _, _, rfl, .setMaxTasks, rep.setMaxTasks maxTasks⟩
  | aging pass =>
      obtain ⟨after, aged, moved, _⟩ := pqAging_spec rep pass
      exact .inl ⟨_, _, _, by rw [exec, aged]; rfl, .aging, moved⟩

theorem Represents.step (rep : pq.Represents lanes) (allowed : pq.Allowed op)
    (called : pq.exec op = some (reply, after)) :
    ∃ lanes', Effect pq lanes op reply lanes' ∧ after.Represents lanes' := by
  rcases exec_effect rep allowed with ⟨given, final, lanes', result, effect, moved⟩ | ⟨_, _, blocked⟩
  · rw [called, Option.some.injEq, Prod.mk.injEq] at result
    obtain ⟨rfl, rfl⟩ := result
    exact ⟨lanes', effect, moved⟩
  · rw [called] at blocked
    cases blocked

theorem Run.represents (run : Run start events pq) (rep : start.Represents lanes) :
    ∃ lanes', pq.Represents lanes' := by
  induction run generalizing lanes with
  | nil => exact ⟨lanes, rep⟩
  | cons allowed called _ ih =>
      obtain ⟨_, _, moved⟩ := rep.step allowed called
      exact ih moved

/-- In every reachable queue the heads, tails, links, ready mask and both counters
describe the same three lanes. -/
theorem run_representation {heap : Addr → Option Task} (run : Run (pqInit heap) events pq) :
    ∃ lanes, pq.Represents lanes ∧
      ∀ p, (lanes p).Nodup ∧ (pq.heads p = none ↔ lanes p = []) ∧
        (pq.tails p = none ↔ lanes p = []) := by
  obtain ⟨lanes, rep⟩ := run.represents (represents_init heap)
  refine ⟨lanes, rep, fun p => ⟨rep.separate.nodup p, ?_, ?_⟩⟩
  · rw [rep.heads_eq, List.head?_eq_none_iff]
  · rw [rep.tail, List.getLast?_eq_none_iff]

def stamped (priority : Priority) (submitTime : Timespec) : Task :=
  { taskCreate 0 1 0 priority with submitTime }

/-- Two tasks of the same priority are stamped one second apart, promoted by two
passes one second apart, and one of them is popped. -/
def promotionCalls : List Op :=
  [.write 1 (some (stamped .medium ⟨1, 0⟩)), .push (some 1),
   .write 2 (some (stamped .medium ⟨2, 0⟩)), .tryPush (some 2),
   .aging { now₁ := ⟨2, 0⟩, now₂ := ⟨2, 0⟩, promoteTimeMs := 1000 },
   .aging { now₁ := ⟨3, 0⟩, now₂ := ⟨3, 0⟩, promoteTimeMs := 1000 },
   .popNonblock]

theorem promotionCalls_run : ∃ events pq,
    (pqInit fun _ => none).runOps promotionCalls = some (events, pq) := by
  have replies : ((pqInit fun _ => none).runOps promotionCalls).isSome = true := by decide
  obtain ⟨⟨events, pq⟩, result⟩ := Option.isSome_iff_exists.mp replies
  exact ⟨events, pq, result⟩

theorem run_representation_promotionCalls : ∃ events pq,
    (pqInit fun _ => none).runOps promotionCalls = some (events, pq) ∧
      ∃ lanes, pq.Represents lanes ∧
        ∀ p, (lanes p).Nodup ∧ (pq.heads p = none ↔ lanes p = []) ∧
          (pq.tails p = none ↔ lanes p = []) := by
  obtain ⟨events, pq, result⟩ := promotionCalls_run
  exact ⟨events, pq, result, run_representation (Run.of_runOps result)⟩

end ThreadPool.PriorityQueue
