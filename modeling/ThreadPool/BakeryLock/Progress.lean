import Mathlib.Data.Finset.Max
import ThreadPool.BakeryLock
import ThreadPool.Foundation.Finishing
import ThreadPool.Foundation.Rounds

namespace ThreadPool.BakeryLock

open Foundation

/-! # Rounds and progress of the bakery lock

Labels grow by one with every round, and the rounds are limited by the counter. So no label
reaches `INT_MAX` in any run, and the order of service holds without an assumption on the
labels. Of the threads that wait the first one in this order gets on.
-/

variable {N : Nat}

/-! ## Rounds -/

def RoutinePc.round : RoutinePc N → Round
  | .testCount => .checking
  | .setShutdown => .closing
  | .unlock => .leaving
  | .testShutdown => .testing
  | .exited => .ended
  | _ => .working

def roundsView (state : State N) : Rounds (Fin N) :=
  state.rounds RoutinePc.round Memory.count Memory.shutdown

/-- The thread has written the label of its round, and has not counted it yet. -/
def RoutinePc.labelled : RoutinePc N → Nat
  | .checkFlag _ | .lessOther _ | .lessOwn _ _ | .equalOther _ | .equalOwn _ _ => 1
  | .readCount | .writeCount _ => 1
  | _ => 0

/-- No label is above the number of labels that were written. -/
def ceiling (state : State N) : Int :=
  state.shared.count + (∑ k, (state.point k).elim 0 RoutinePc.labelled : Nat)

/-- The largest label that the thread has seen while it chooses its own. -/
def RoutinePc.seen : RoutinePc N → Option Int
  | .maxTest _ max | .maxRead _ max | .writeLabel max => some max
  | _ => none

structure Tallied (state : State N) : Prop where
  ordered : Ordered state
  limited : Rounds.Limited iter (roundsView state)
  natural : 0 ≤ state.shared.count
  fresh : ∀ k temp, state.point k = some (.writeCount temp) → temp = state.shared.count
  labels : ∀ k, state.shared.label k ≤ ceiling state
  seen : ∀ k pc max, state.point k = some pc → pc.seen = some max → max ≤ ceiling state

section Tally

variable {state : State N} {k : Fin N} {after : Memory N} {pc next : RoutinePc N}

/-- A thread that counts is in its critical section, so no other one is about to decide. -/
theorem counts_alone {temp : Int} (ordered : Ordered state) (here : state.point k = some (.writeCount temp))
    (j : Fin N) : (roundsView state).stage j ≠ .checking ∧ (roundsView state).stage j ≠ .closing := by
  have mine : critical state k = true := by simp [critical, here, RoutinePc.critical]
  cases there : state.point j with
  | none => simp [roundsView, LaunchView.rounds, there]
  | some pc =>
      rw [roundsView, rounds_stage there]
      by_contra decides
      have other : critical state j = true := by
        cases pc <;> first | (simp [critical, there, RoutinePc.critical]; done) | simp [RoutinePc.round] at decides
      have same := critical_alone ordered other mine
      subst same
      rw [here] at there
      cases there
      simp [RoutinePc.round] at decides

theorem ceiling_le (state : State N) : ceiling state ≤ state.shared.count + N := by
  have few : ∑ k, (state.point k).elim 0 RoutinePc.labelled ≤ N := by
    refine (Finset.sum_le_card_nsmul _ _ 1 fun k _ => ?_).trans_eq (by simp)
    cases state.point k with
    | none => exact Nat.zero_le 1
    | some pc => cases pc <;> simp [RoutinePc.labelled]
  rw [ceiling]
  omega

theorem ceiling_move (here : state.point k = some pc) (after : Memory N) (next : RoutinePc N) :
    ceiling (state.move k after next) + state.shared.count + pc.labelled =
      ceiling state + after.count + next.labelled := by
  have split := sum_split (fun point => Option.elim point 0 RoutinePc.labelled) state.point k
  have moved := sum_update (fun point => Option.elim point 0 RoutinePc.labelled) state.point k (some next)
  rw [here] at split
  simp only [Option.elim_some] at split moved
  simp only [ceiling, LaunchView.move]
  omega

/-- What a step does to the counter and to the labels. -/
theorem steps_tally {id : Fin N} {memory : Memory N} (steps : Steps id memory pc after next) :
    (after.count = memory.count ∧ after.label = memory.label ∧ next.labelled = pc.labelled ∧
        (next.seen = pc.seen ∨ next.seen = none ∨ next.seen = some (-1) ∨ ∃ i, next.seen = some (memory.label i)) ∧
        ∀ temp, next = .writeCount temp → temp = memory.count) ∨
      (∃ max, pc = .writeLabel max ∧ next = .checkFlag 0 ∧ after.count = memory.count ∧
        after.label = Function.update memory.label id (wrap 32 (max + 1))) ∨
      ∃ temp, pc = .writeCount temp ∧ next = .testCount ∧ after.count = wrap 32 (temp + 1) ∧
        after.label = memory.label := by
  cases steps with
  | writeLabel => exact .inr (.inl ⟨_, rfl, rfl, rfl, rfl⟩)
  | writeCount => exact .inr (.inr ⟨_, rfl, rfl, rfl, rfl⟩)
  | readCount =>
      refine .inl ⟨rfl, rfl, rfl, .inl rfl, fun temp same => ?_⟩
      cases same
      rfl
  | setFlag => exact .inl ⟨rfl, rfl, rfl, .inr (.inr (.inl rfl)), by simp⟩
  | maxRead => exact .inl ⟨rfl, rfl, rfl, .inr (.inr (.inr ⟨_, rfl⟩)), by simp⟩
  | _ => exact .inl ⟨rfl, rfl, rfl, .inl rfl, by simp⟩

theorem Tallied.count_le (tallied : Tallied state) (k : Fin N) : state.shared.count ≤ iter + N := by
  have some : Nonempty (Fin N) := ⟨k⟩
  have bound := tallied.limited.bound
  rwa [Fintype.card_fin] at bound

/-- The label that a thread is about to write does not overflow. -/
theorem Tallied.bounded (tallied : Tallied state) (small : iter + 2 * N + 1 < intMax)
    (here : state.point k = some pc) : pc.bounded = true := by
  cases pc with
  | writeLabel max =>
      have seen := tallied.seen k _ max here rfl
      have top := ceiling_le state
      have count := tallied.count_le k
      exact decide_eq_true (by omega)
  | _ => rfl

/-- The increment of the counter loses nothing and does not overflow. -/
theorem exact_count {temp : Int} (tallied : Tallied state) (small : iter + 2 * N + 1 < intMax)
    (here : state.point k = some (.writeCount temp)) : wrap 32 (temp + 1) = state.shared.count + 1 := by
  have few := tallied.count_le k
  have natural := tallied.natural
  have some := Fin.pos k
  rw [tallied.fresh k temp here]
  simp only [intMax] at small
  exact wrap_of_range_32 (by omega) (by omega)

theorem rounds_step (tallied : Tallied state) (small : iter + 2 * N + 1 < intMax)
    (here : state.point k = some pc)
    (result : routine k pc state.table state.shared = some (after, next)) :
    (roundsView state).Step iter (roundsView (state.move k after next)) := by
  have stage : (roundsView state).stage k = pc.round := rounds_stage here
  unfold roundsView at stage ⊢
  cases pc with
  | writeCount temp =>
      cases result
      rw [rounds_move, exact_count tallied small here]
      exact .count k stage (counts_alone tallied.ordered here)
  | testCount =>
      simp only [routine] at result
      split at result
      case isTrue passed =>
        cases result
        rw [rounds_move]
        exact .exceed k stage fun _ => passed
      case isFalse under =>
        cases result
        rw [rounds_move]
        exact .stay k stage fun _ => not_lt.mp under
  | setShutdown =>
      cases result
      rw [rounds_move]
      exact .close k stage
  | unlock =>
      cases result
      rw [rounds_move]
      exact .leave k stage
  | testShutdown =>
      simp only [routine] at result
      split at result
      case isTrue closed =>
        cases result
        rw [rounds_move]
        exact .stop k stage closed
      case isFalse opened =>
        cases result
        rw [rounds_move]
        exact .again k stage (Bool.eq_false_of_not_eq_true opened)
  | exited => cases result
  | setFlag | maxTest | maxRead | writeLabel | checkFlag | lessOther | lessOwn | equalOther | equalOwn
  | readCount =>
      have still : next.round = .working ∧ after.count = state.shared.count ∧
          after.shutdown = state.shared.shutdown := by
        cases routine_steps result <;> exact ⟨rfl, rfl, rfl⟩
      rw [rounds_still (stage.trans still.1.symm) still.2.1 still.2.2]
      exact .still

theorem Tallied.access (tallied : Tallied state) (small : iter + 2 * N + 1 < intMax)
    (here : state.point k = some pc)
    (result : routine k pc state.table state.shared = some (after, next)) :
    Tallied (state.move k after next) := by
  have steps := routine_steps result
  have limited := (rounds_step tallied small here result).limited tallied.limited
  have ordered := tallied.ordered.access here (tallied.bounded small here) steps
  have top := ceiling_move here after next
  have low : 0 ≤ ceiling state := by
    have natural := tallied.natural
    rw [ceiling]
    omega
  rcases steps_tally steps with ⟨count, label, labelled, seen, reads⟩ | ⟨max, rfl, rfl, count, label⟩ |
    ⟨temp, rfl, rfl, count, label⟩
  · have same : ceiling (state.move k after next) = ceiling state := by omega
    refine ⟨ordered, limited, tallied.natural.trans_eq count.symm, fun j temp there => ?_, fun j => ?_,
      fun j other max there looked => ?_⟩
    · rw [move_point] at there
      refine Eq.trans ?_ count.symm
      split at there
      · exact reads temp (Option.some.inj there)
      · exact tallied.fresh j temp there
    · rw [same, show (state.move k after next).shared.label = _ from label]
      exact tallied.labels j
    · rw [same]
      rw [move_point] at there
      split at there
      · cases there
        rcases seen with kept | none | first | ⟨i, read⟩
        · exact tallied.seen k pc max here (kept.symm.trans looked)
        · cases none.symm.trans looked
        · cases first.symm.trans looked
          omega
        · cases read.symm.trans looked
          exact tallied.labels i
      · exact tallied.seen j other max there looked
  · have knows := tallied.ordered.knows k _ here
    have seen := tallied.seen k _ max here rfl
    have exact_label := label_exact knows.1 (of_decide_eq_true (tallied.bounded small here))
    have more : ceiling (state.move k after (.checkFlag 0)) = ceiling state + 1 := by
      simp only [RoutinePc.labelled] at top
      omega
    refine ⟨ordered, limited, tallied.natural.trans_eq count.symm, fun j temp there => ?_, fun j => ?_,
      fun j other max there looked => ?_⟩
    · rw [move_point] at there
      refine Eq.trans ?_ count.symm
      split at there
      · cases there
      · exact tallied.fresh j temp there
    · have old := tallied.labels j
      rw [more, show (state.move k after (.checkFlag 0)).shared.label = _ from label, Function.update_apply]
      split <;> omega
    · rw [more]
      rw [move_point] at there
      split at there
      · cases there
        cases looked
      · have old := tallied.seen j other max there looked
        omega
  · have counted := exact_count tallied small here
    have same : ceiling (state.move k after .testCount) = ceiling state := by
      simp only [RoutinePc.labelled] at top
      omega
    have grown : after.count = state.shared.count + 1 := count.trans counted
    refine ⟨ordered, limited, ?_, fun j value there => ?_, fun j => ?_,
      fun j other max there looked => ?_⟩
    · have natural := tallied.natural
      change 0 ≤ after.count
      omega
    · -- another thread about to write would be in its critical section too
      rw [move_point] at there
      split at there
      · cases there
      · rename_i other
        have both := critical_alone tallied.ordered (p := j) (q := k) (by rw [critical, there]; rfl)
          (by rw [critical, here]; rfl)
        exact absurd both other
    · rw [same, show (state.move k after .testCount).shared.label = _ from label]
      exact tallied.labels j
    · rw [same]
      rw [move_point] at there
      split at there
      · cases there
        cases looked
      · exact tallied.seen j other max there looked

theorem Tallied.begin (tallied : Tallied state) (idle : state.point k = none) :
    Tallied (state.move k state.shared .setFlag) := by
  have working : (roundsView state).stage k = RoutinePc.round (.setFlag : RoutinePc N) := by
    simp [roundsView, LaunchView.rounds, idle, RoutinePc.round]
  have same : ceiling (state.move k state.shared .setFlag) = ceiling state := by
    have split := sum_split (fun point => Option.elim point 0 RoutinePc.labelled) state.point k
    have moved := sum_update (fun point => Option.elim point 0 RoutinePc.labelled) state.point k (some .setFlag)
    rw [idle] at split
    simp only [Option.elim_some, Option.elim_none, RoutinePc.labelled] at split moved
    simp only [ceiling, LaunchView.move]
    omega
  refine ⟨tallied.ordered.begin idle, ?_, tallied.natural, fun j temp there => ?_, fun j => ?_,
    fun j other max there looked => ?_⟩
  · rw [roundsView, rounds_still working rfl rfl]
    exact tallied.limited
  · rw [move_point] at there
    split at there
    · cases there
    · exact tallied.fresh j temp there
  · rw [same]
    exact tallied.labels j
  · rw [same]
    rw [move_point] at there
    split at there
    · cases there
      cases looked
    · exact tallied.seen j other max there looked

theorem Tallied.step {label : Label (LaunchThread N) Bool} {final : State N} (tallied : Tallied state)
    (small : iter + 2 * N + 1 < intMax) (steps : state.Step (bakeryLock N) label final) : Tallied final := by
  have ordered : Ordered final :=
    tallied.ordered.step (fun k input pc _ here => tallied.bounded small here) steps
  cases steps with
  | still => exact tallied
  | store => exact ⟨ordered, tallied.limited, tallied.natural, tallied.fresh, tallied.labels, tallied.seen⟩
  | clear i idle =>
      refine ⟨ordered, tallied.limited, tallied.natural, tallied.fresh, fun k => ?_, tallied.seen⟩
      have natural := tallied.natural
      have low : 0 ≤ ceiling state := by
        rw [ceiling]
        omega
      change Function.update state.shared.label i 0 k ≤ ceiling state
      rw [Function.update_apply]
      split
      · exact low
      · exact tallied.labels k
  | begin k idle => exact tallied.begin idle
  | access k here result => exact tallied.access small here result

end Tally

section Reachable

variable [NeZero N]
  {allowed : LaunchConfig N (Memory N) (RoutinePc N) → Label (LaunchThread N) Bool → Prop}
  {config : LaunchConfig N (Memory N) (RoutinePc N)}

theorem reachable_tallied (small : iter + 2 * N + 1 < intMax)
    (reaches : Reaches (bakeryLock N).program allowed (start N) config) : Tallied (launchView config) := by
  refine Launcher.invariant reaches Tallied ?_ fun _ _ tallied _ steps => tallied.step small steps
  refine ⟨⟨fun _ => rfl, ?_, ?_⟩, ⟨fun _ => .inl (show (0 : Int) ≤ iter by decide), ?_, ?_, ?_⟩, le_rfl, ?_,
    fun _ => ?_, ?_⟩
  all_goals simp [roundsView, LaunchView.rounds, ceiling]

/-- With fewer than 2^30 threads no label of any run reaches `INT_MAX`, so at most one thread is
in its critical section in every state; at most `ITER + N_THREAD` rounds are counted, and a
thread exits only after more than `ITER`. -/
theorem bakery_lock_counts (small : iter + 2 * N + 1 < intMax)
    (reaches : Reaches (bakeryLock N).program allowed (start N) config) :
    (∀ label, LabelsBelowMax config label) ∧ (∀ k, config.memory.shared.label k ≤ iter + 2 * N) ∧
      (∀ p q, critical (launchView config) p = true → critical (launchView config) q = true → p = q) ∧
      config.memory.shared.count ≤ iter + N ∧
      ((∃ k, (launchView config).point k = some .exited) → iter < config.memory.shared.count) := by
  have tallied := reachable_tallied small reaches
  have count : config.memory.shared.count ≤ iter + N := tallied.count_le 0
  refine ⟨fun label => ?_, fun k => ?_, fun p q => critical_alone tallied.ordered, count, ?_⟩
  · cases label with
    | run thread input =>
        cases thread with
        | none => trivial
        | some k =>
            rw [LabelsBelowMax, Option.all_eq_true]
            exact fun pc here => tallied.bounded small here
    | pick | wake => trivial
  · have label := tallied.labels k
    have top := ceiling_le (launchView config)
    change config.memory.shared.label k ≤ _ at label
    change _ ≤ config.memory.shared.count + _ at top
    omega
  · rintro ⟨k, exited⟩
    have limited := tallied.limited
    exact (limited.closed (limited.ended k (rounds_stage exited))).1

end Reachable

/-- Two threads that take turns at every step, until the first one leaves alone. -/
def turns (first second : Fin 2) : List (Label (LaunchThread 2) Bool) :=
  List.replicate 8 (go none) ++ (List.replicate 188 [go (some first), go (some second)]).flatten ++
    List.replicate 8 (go (some first))

set_option maxRecDepth 10000 in
/-- Two contending threads exit after 16 or 17 rounds. -/
theorem bakery_lock_counts_contended : ∃ config,
    Reaches (bakeryLock 2).program (fun _ _ => True) (start 2) config ∧
      (∀ k, (launchView config).point k = some .exited) ∧
      16 ≤ config.memory.shared.count ∧ config.memory.shared.count ≤ 17 := by
  obtain ⟨config, reaches, exited⟩ := Reaches.of_schedule (bakeryLock 2).program
    (fun _ _ => True) (start 2) (turns 0 1)
    (fun config => ∀ k, (launchView config).point k = some .exited) (by decide +kernel)
  obtain ⟨_, _, _, most, least⟩ := bakery_lock_counts (by decide) reaches
  have least := least ⟨0, exited 0⟩
  simp only [iter] at most least
  exact ⟨config, reaches, exited, by omega, by omega⟩

/-! ## Progress -/

/-- The steps that are left in a round, without the turns of the waiting loop. -/
def RoutinePc.way : RoutinePc N → Nat
  | .testCount => 2 * N + 10
  | .setShutdown => 2 * N + 9
  | .unlock => 2 * N + 8
  | .testShutdown => 2 * N + 7
  | .setFlag => 2 * N + 6
  | .maxTest i _ => 2 * (N - i) + 5
  | .maxRead i _ => 2 * (N - i) + 4
  | .writeLabel _ => 4
  | .checkFlag _ | .lessOther _ | .lessOwn _ _ | .equalOther _ | .equalOwn _ _ => 3
  | .readCount => 2
  | .writeCount _ => 1
  | .exited => 0

/-- The rounds that are left, and the steps of the present ones. -/
def rank (state : State N) : Nat ×ₗ Nat :=
  toLex ((iter + N - state.shared.count).toNat, state.way RoutinePc.way)

section Progress

variable {state : State N} {k : Fin N} {after : Memory N} {pc next : RoutinePc N}

/-- A thread that does not wait goes on. -/
theorem busy_step (id : Fin N) (tId : Fin N → Fin N) (memory : Memory N) (busy : pc.waiting = false)
    (alive : pc ≠ .exited) :
    ∃ after next, routine id pc tId memory = some (after, next) ∧
      (next.way < pc.way ∧ after.count = memory.count ∨ ∃ temp, pc = .writeCount temp) := by
  cases pc with
  | maxTest i max =>
      by_cases below : i < N
      · by_cases larger : memory.label ⟨i, below⟩ > max
        · exact ⟨_, _, (dif_pos below).trans (if_pos larger), .inl ⟨Nat.lt_succ_self _, rfl⟩⟩
        · refine ⟨_, _, (dif_pos below).trans (if_neg larger), .inl ⟨?_, rfl⟩⟩
          simp only [RoutinePc.way]
          omega
      · refine ⟨_, _, dif_neg below, .inl ⟨?_, rfl⟩⟩
        simp only [RoutinePc.way]
        omega
  | maxRead i max =>
      refine ⟨_, _, rfl, .inl ⟨?_, rfl⟩⟩
      simp only [RoutinePc.way]
      omega
  | testCount =>
      by_cases passed : memory.count > iter
      · exact ⟨_, _, if_pos passed, .inl ⟨Nat.lt_succ_self _, rfl⟩⟩
      · exact ⟨_, _, if_neg passed, .inl ⟨by simp [RoutinePc.way], rfl⟩⟩
  | testShutdown =>
      by_cases closed : memory.shutdown = true
      · exact ⟨_, _, if_pos closed, .inl ⟨Nat.succ_pos _, rfl⟩⟩
      · exact ⟨_, _, if_neg closed, .inl ⟨Nat.lt_succ_self _, rfl⟩⟩
  | writeCount temp => exact ⟨_, _, rfl, .inr ⟨temp, rfl⟩⟩
  | exited => exact absurd rfl alive
  | checkFlag | lessOther | lessOwn | equalOther | equalOwn => cases busy
  | setFlag | writeLabel | readCount | setShutdown | unlock =>
      exact ⟨_, _, rfl, .inl ⟨Nat.lt_succ_self _, rfl⟩⟩

theorem rank_less (here : state.point k = some pc) (less : next.way < pc.way)
    (count : after.count = state.shared.count) : rank (state.move k after next) < rank state := by
  rw [rank, rank, show (state.move k after next).shared = after from rfl, count]
  exact Prod.Lex.right _ (way_move_lt here less after)

/-- The thread is the first one in the order of service. -/
def First (memory : Memory N) (k : Fin N) : Prop :=
  ∀ j, j ≠ k → memory.flag j = true →
    ¬ memory.label j < memory.label k ∧ ¬ (memory.label j = memory.label k ∧ j < k)

/-- The scan of the first thread finds nobody to wait for. -/
theorem scan_runs (first : First state.shared k) (left position : Nat) (rest : N ≤ position + left) :
    (state.move k state.shared (.checkFlag position)).Runs (bakeryLock N)
      (state.move k state.shared .readCount) := by
  induction left generalizing position with
  | zero => exact .hop (dif_neg (by omega)) .refl
  | succ left ih =>
      by_cases below : position < N
      · have goes := ih (position + 1) (by omega)
        by_cases own : position = k
        · exact .hop ((dif_pos below).trans (if_pos own)) goes
        · by_cases up : state.shared.flag ⟨position, below⟩ = true
          · have other : (⟨position, below⟩ : Fin N) ≠ k := fun same => own (congrArg Fin.val same)
            obtain ⟨less, tie⟩ := first _ other up
            refine .hop ((dif_pos below).trans ((if_neg own).trans (if_pos up))) ?_
            exact .hop rfl (.hop (if_neg less) (.hop rfl (.hop (if_neg tie) goes)))
          · exact .hop ((dif_pos below).trans ((if_neg own).trans (if_neg up))) goes
      · exact .hop (dif_neg below) .refl

/-- From any point of its waiting loop, also with labels that it has read before, the first
thread gets on. -/
theorem wait_runs (here : state.point k = some pc) (waits : pc.waiting = true)
    (first : First state.shared k) :
    state.Runs (bakeryLock N) (state.move k state.shared .readCount) := by
  have scan := fun position => scan_runs first N position (Nat.le_add_left _ _)
  have ties : ∀ j value, (state.move k state.shared (.equalOwn j value)).Runs (bakeryLock N)
      (state.move k state.shared .readCount) := by
    intro j value
    by_cases tie : value = state.shared.label k ∧ j < k
    · exact .hop (if_pos tie) (scan 0)
    · exact .hop (if_neg tie) (scan _)
  have compares : ∀ j value, (state.move k state.shared (.lessOwn j value)).Runs (bakeryLock N)
      (state.move k state.shared .readCount) := by
    intro j value
    by_cases less : value < state.shared.label k
    · exact .hop (if_pos less) (scan 0)
    · exact .hop (if_neg less) (.hop rfl (ties j _))
  refine .here here ?_
  cases pc with
  | checkFlag position => exact scan position
  | lessOther j => exact .hop rfl (compares j _)
  | lessOwn j value => exact compares j value
  | equalOther j => exact .hop rfl (ties j _)
  | equalOwn j value => exact ties j value
  | _ => cases waits

theorem way_of_waiting (waits : pc.waiting = true) : pc.way = 3 := by
  cases pc <;> first | rfl | cases waits

/-- Where every thread waits or has exited, the first one gets on. -/
theorem waiting_runs (ordered : Ordered state)
    (waiting : ∀ k pc, state.point k = some pc → pc.waiting = false → pc = .exited)
    (live : ∃ k pc, state.point k = some pc ∧ pc ≠ .exited) :
    ∃ final, state.Runs (bakeryLock N) final ∧ rank final < rank state := by
  have waits : ∀ {k pc}, state.point k = some pc → pc ≠ .exited → pc.waiting = true := by
    intro k pc here alive
    by_contra busy
    exact alive (waiting k pc here (Bool.eq_false_of_not_eq_true busy))
  obtain ⟨k, pc, here, alive⟩ := live
  have up : ∀ {k pc}, state.point k = some pc → pc ≠ .exited → state.shared.flag k = true := by
    intro k pc here alive
    have mine := waits here alive
    rw [ordered.flag k, here]
    cases pc <;> first | rfl | cases mine
  obtain ⟨front, member, least⟩ := Finset.exists_min_image
    (Finset.univ.filter fun k => state.shared.flag k = true) (fun k => toLex (state.shared.label k, k))
    ⟨k, Finset.mem_filter.mpr ⟨Finset.mem_univ k, up here alive⟩⟩
  have raised := (Finset.mem_filter.mp member).2
  have first : First state.shared front := by
    intro j other flag
    have order := least j (Finset.mem_filter.mpr ⟨Finset.mem_univ j, flag⟩)
    rw [Prod.Lex.toLex_le_toLex] at order
    rcases order with less | ⟨same, index⟩
    · exact ⟨not_lt.mpr less.le, fun tie => absurd tie.1 less.ne'⟩
    · exact ⟨not_lt.mpr same.le, fun tie => absurd tie.2 (not_lt.mpr index)⟩
  rw [ordered.flag front] at raised
  obtain ⟨pc, there, flag⟩ := (Option.any_eq_true ..).mp raised
  have mine : pc.waiting = true := waits there fun exited => by
    subst exited
    cases flag
  refine ⟨_, wait_runs there mine first, rank_less there ?_ rfl⟩
  rw [way_of_waiting mine]
  exact Nat.lt_succ_self 2

theorem progress (tallied : Tallied state) (small : iter + 2 * N + 1 < intMax)
    (live : ∃ k pc, state.point k = some pc ∧ pc ≠ .exited) :
    ∃ final, state.Runs (bakeryLock N) final ∧ rank final < rank state := by
  by_cases busy : ∃ k pc, state.point k = some pc ∧ pc.waiting = false ∧ pc ≠ .exited
  · obtain ⟨k, pc, here, busy, alive⟩ := busy
    obtain ⟨after, next, result, spends⟩ := busy_step k state.table state.shared busy alive
    refine ⟨_, .step k here result .refl, ?_⟩
    rcases spends with ⟨less, count⟩ | ⟨temp, rfl⟩
    · exact rank_less here less count
    · have counted := exact_count tallied small here
      have bound := (tallied.access small here result).count_le k
      have grown : after.count = state.shared.count + 1 := by
        cases result
        exact counted
      change after.count ≤ iter + N at bound
      refine Prod.Lex.left _ _ ?_
      change (iter + N - after.count).toNat < (iter + N - state.shared.count).toNat
      omega
  · push Not at busy
    exact waiting_runs tallied.ordered busy live

end Progress

section Finishing

variable [NeZero N]
  {allowed : LaunchConfig N (Memory N) (RoutinePc N) → Label (LaunchThread N) Bool → Prop}
  {config : LaunchConfig N (Memory N) (RoutinePc N)}

/-- From every state the program can finish: no order of steps leads into a deadlock, or into
waiting that no scheduling could end. -/
theorem bakery_lock_finishes (small : iter + 2 * N + 1 < intMax)
    (reaches : Reaches (bakeryLock N).program allowed (start N) config) :
    ∃ final, Reaches (bakeryLock N).program (fun _ _ => True) config final ∧
      Launcher.Finished (· = .exited) final := by
  refine Launcher.finishes rank (· = .exited) ?_ reaches
  intro config reached _ live
  exact progress (reachable_tallied small reached) small live

end Finishing

/-- Both threads have written their labels, and the second one waits for the first. -/
theorem bakery_lock_finishes_waiting : ∃ config final,
    Reaches (bakeryLock 2).program (fun _ _ => True) (start 2) config ∧
      waiting (launchView config) 0 = true ∧ waiting (launchView config) 1 = true ∧
      Reaches (bakeryLock 2).program (fun _ _ => True) config final ∧
      Launcher.Finished (· = .exited) final := by
  obtain ⟨config, reaches, first, second⟩ := Reaches.of_schedule (bakeryLock 2).program
    (fun _ _ => True) (start 2)
    (List.replicate 8 (go none) ++ List.replicate 8 (go (some 0)) ++ List.replicate 8 (go (some 1)))
    (fun config => waiting (launchView config) 0 = true ∧ waiting (launchView config) 1 = true) (by decide)
  obtain ⟨final, goes, finished⟩ := bakery_lock_finishes (by decide) reaches
  exact ⟨config, final, reaches, first, second, goes, finished⟩

end ThreadPool.BakeryLock
