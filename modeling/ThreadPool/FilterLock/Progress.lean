import Mathlib.Data.Finset.Max
import ThreadPool.FilterLock
import ThreadPool.Foundation.Finishing
import ThreadPool.Foundation.Rounds

namespace ThreadPool.FilterLock

open Foundation

/-! # Rounds and progress of the filter lock

After the counter has passed `ITER` every thread counts at most once more, and from every
state the threads can go on until all of them have exited: of the threads that wait on the
highest level one is not its victim, or there is only one.
-/

variable {N : Nat}

/-! ## Rounds -/

def RoutinePc.round : RoutinePc N → Round
  | .testCount => .checking
  | .setShutdown => .closing
  | .unlock => .leaving
  | .testShutdown => .testing
  | .exited => .ended
  | _ => .working

def roundsView (state : State N) : Rounds (Fin N) :=
  state.rounds RoutinePc.round (fun memory => memory.increments) Memory.shutdown

section Rounds

variable {state : State N} {k : Fin N} {after : Memory N} {pc next : RoutinePc N}

theorem round_nextLevel (i : Nat) : (nextLevel i : RoutinePc N).round = .working := by
  unfold nextLevel
  split <;> rfl

theorem steps_working {tId : Fin N → Fin N} {memory : Memory N} (steps : Steps k tId memory pc after next)
    (working : pc.round = .working) :
    (∃ temp, pc = .writeCount temp) ∨
      next.round = .working ∧ after.increments = memory.increments ∧ after.shutdown = memory.shutdown := by
  cases steps with
  | writeCount => exact .inl ⟨_, rfl⟩
  | alone | yield => exact .inr ⟨round_nextLevel _, rfl, rfl⟩
  | finish | goOn | setShutdown | unlock | exit | round => cases working
  | _ => exact .inr ⟨rfl, rfl, rfl⟩

/-- A thread that counts is in its critical section, so no other one is about to decide. -/
theorem counts_alone {temp : Int} (held : Held state) (here : state.point k = some (.writeCount temp))
    (j : Fin N) : (roundsView state).stage j ≠ .checking ∧ (roundsView state).stage j ≠ .closing := by
  have mine : critical state k = true := by simp [critical, here, RoutinePc.critical]
  cases there : state.point j with
  | none => simp [roundsView, LaunchView.rounds, there]
  | some pc =>
      rw [roundsView, rounds_stage there]
      by_contra decides
      have other : critical state j = true := by
        cases pc <;> first | (simp [critical, there, RoutinePc.critical]; done) | simp [RoutinePc.round] at decides
      have same := critical_alone held other mine
      subst same
      rw [here] at there
      cases there
      simp [RoutinePc.round] at decides

theorem rounds_step (held : Held state) (counted : Counted state)
    (limited : Rounds.Limited iter (roundsView state)) (here : state.point k = some pc)
    (result : routine k pc state.table state.shared = some (after, next)) :
    (roundsView state).Step iter (roundsView (state.move k after next)) := by
  have stage : (roundsView state).stage k = pc.round := rounds_stage here
  have exact_count : state.shared.shutdown = false → state.shared.count = state.shared.increments := by
    intro opened
    have few : (state.shared.increments : Int) ≤ iter + 1 := by
      rcases limited.opened opened with few | ⟨last, _⟩
      · exact few.trans (Int.le_add_one le_rfl)
      · exact last.le
    rw [counted.count]
    simp only [iter] at few
    exact wrap_of_range_32 (by omega) (by omega)
  unfold roundsView at stage ⊢
  cases pc with
  | writeCount temp =>
      cases result
      rw [rounds_move]
      exact .count k stage (counts_alone held here)
  | testCount =>
      simp only [routine] at result
      split at result
      case isTrue passed =>
        cases result
        rw [rounds_move]
        exact .exceed k stage fun opened => lt_of_lt_of_eq passed (exact_count opened)
      case isFalse under =>
        cases result
        rw [rounds_move]
        exact .stay k stage fun opened => (exact_count opened).symm.trans_le (not_lt.mp under)
  | setShutdown =>
      cases result
      rw [rounds_move]
      exact .close k stage
  | unlock =>
      cases result
      rw [rounds_move]
      exact .leave k stage
  | testShutdown =>
      simp only [routine] at result
      split at result
      case isTrue closed =>
        cases result
        rw [rounds_move]
        exact .stop k stage closed
      case isFalse opened =>
        cases result
        rw [rounds_move, round_nextLevel]
        exact .again k stage (Bool.eq_false_of_not_eq_true opened)
  | exited => cases result
  | setLevel | setVictim | scan | readLevel | readVictim | readCount =>
      rcases steps_working (routine_steps result) rfl with ⟨_, writes⟩ | ⟨working, increments, shutdown⟩
      · cases writes
      · rw [rounds_still (stage.trans working.symm) (congrArg Nat.cast increments) shutdown]
        exact .still

theorem limited_step {label : Label (LaunchThread N) Bool} {final : State N} (held : Held state)
    (counted : Counted state) (limited : Rounds.Limited iter (roundsView state))
    (steps : state.Step (filterLock N) label final) : Rounds.Limited iter (roundsView final) := by
  cases steps with
  | still | store | clear => exact limited
  | begin k idle =>
      have working : (roundsView state).stage k = (nextLevel 1 : RoutinePc N).round := by
        rw [round_nextLevel]
        simp [roundsView, LaunchView.rounds, idle]
      change Rounds.Limited iter (roundsView (state.move k state.shared (nextLevel 1)))
      rwa [roundsView, rounds_still working rfl rfl]
  | access k here result => exact (rounds_step held counted limited here result).limited limited

/-- `level` says where a thread is. -/
def Announced (state : State N) : Prop :=
  ∀ k, state.shared.level k = (state.point k).elim 0 RoutinePc.announced

theorem steps_announced {tId : Fin N → Fin N} {memory : Memory N} (steps : Steps k tId memory pc after next)
    (valid : pc.Valid) (level : memory.level k = pc.announced) : after.level k = next.announced := by
  cases steps with
  | setLevel => simp [RoutinePc.announced]
  | unlock => simp [RoutinePc.announced, RoutinePc.entered]
  | round => exact level.trans (entered_nextLevel (Fin.pos k)).2.2.symm
  | alone | yield => exact level.trans (entered_nextLevel valid.2).2.2.symm
  | _ => exact level

theorem announced_step {label : Label (LaunchThread N) Bool} {final : State N} (held : Held state)
    (announced : Announced state) (steps : state.Step (filterLock N) label final) : Announced final := by
  have moved : ∀ {k after next}, after.level k = next.announced →
      (∀ j, j ≠ k → after.level j = state.shared.level j) → Announced (state.move k after next) := by
    intro k after next mine others j
    rw [move_point]
    split
    case isTrue here =>
      subst here
      exact mine
    case isFalse other => exact (others j other).trans (announced j)
  cases steps with
  | still | store => exact announced
  | clear i idle =>
      intro k
      have zero : state.shared.level k = 0 := by simpa [idle k] using announced k
      simp only [idle k, Option.elim_none, filterLock]
      by_cases same : k = i
      · simp [same]
      · simp [same, zero]
  | begin k idle =>
      refine moved ?_ fun _ _ => rfl
      have zero : state.shared.level k = 0 := by simpa [idle] using announced k
      exact zero.trans (entered_nextLevel (Fin.pos k)).2.2.symm
  | access k here result =>
      have steps := routine_steps result
      have level := announced k
      rw [here] at level
      have valid := held.valid k _ here
      exact moved (steps_announced steps valid level) (steps_level steps valid level.ge).2

end Rounds

section Reachable

variable [NeZero N]
  {allowed : LaunchConfig N (Memory N) (RoutinePc N) → Label (LaunchThread N) Bool → Prop}
  {config : LaunchConfig N (Memory N) (RoutinePc N)}

theorem reachable_limited (reaches : Reaches (filterLock N).program allowed (start N) config) :
    Rounds.Limited iter (roundsView (launchView config)) := by
  refine Launcher.invariant reaches (fun state => Rounds.Limited iter (roundsView state)) ?_ ?_
  · refine ⟨fun _ => .inl (show ((0 : Nat) : Int) ≤ iter by decide), ?_, ?_, ?_⟩
    · intro closed
      cases closed
    · intro k closing
      cases closing
    · intro k ended
      cases ended
  · intro config label after reached _ limited _ steps
    exact limited_step (reachable_held reached) (reachable_counted reached) limited steps

theorem reachable_announced (reaches : Reaches (filterLock N).program allowed (start N) config) :
    Announced (launchView config) := by
  refine Launcher.invariant reaches Announced (fun _ => rfl) ?_
  intro config label after reached _ announced _ steps
  exact announced_step (reachable_held reached) announced steps

/-- In every state at most `ITER + N_THREAD` increments were made, and a thread exits only after
`ITER` of them. -/
theorem filter_lock_counts (reaches : Reaches (filterLock N).program allowed (start N) config) :
    config.memory.shared.increments ≤ iter + N ∧
      ((∃ k, (launchView config).point k = some .exited) → iter < config.memory.shared.increments) := by
  have limited := reachable_limited reaches
  constructor
  · have bound := limited.bound
    rwa [Fintype.card_fin] at bound
  · rintro ⟨k, exited⟩
    exact (limited.closed (limited.ended k (rounds_stage exited))).1

end Reachable

/-- Two threads that take turns at every step, until the second one leaves alone. -/
def turns (first second : Fin 2) : List (Label (LaunchThread 2) Bool) :=
  List.replicate 8 (go none) ++ (List.replicate 764 [go (some first), go (some second)]).flatten ++
    List.replicate 9 (go (some second))

set_option maxRecDepth 10000 in
/-- Two contending threads exit after 101 or 102 increments. -/
theorem filter_lock_counts_contended : ∃ config,
    Reaches (filterLock 2).program (fun _ _ => True) (start 2) config ∧
      (∀ k, (launchView config).point k = some .exited) ∧
      101 ≤ config.memory.shared.increments ∧ config.memory.shared.increments ≤ 102 := by
  obtain ⟨config, reaches, exited⟩ := Reaches.of_schedule (filterLock 2).program
    (fun _ _ => True) (start 2) (turns 0 1)
    (fun config => ∀ k, (launchView config).point k = some .exited) (by decide +kernel)
  obtain ⟨most, least⟩ := filter_lock_counts reaches
  have least := least ⟨0, exited 0⟩
  simp only [iter] at most least
  exact ⟨config, reaches, exited, by omega, by omega⟩

/-! ## Progress -/

/-- The level on which a thread waits. -/
def RoutinePc.waits : RoutinePc N → Option Nat
  | .scan i _ | .readLevel i _ _ | .readVictim i => some i
  | _ => none

/-- The steps that are left in a round, without the turns of the waiting loop. -/
def RoutinePc.way : RoutinePc N → Nat
  | .testCount => 3 * N + 5
  | .setShutdown => 3 * N + 4
  | .unlock => 3 * N + 3
  | .testShutdown => 3 * N + 2
  | .setLevel i => 3 * (N - i) + 4
  | .setVictim i => 3 * (N - i) + 3
  | .scan i _ | .readLevel i _ _ | .readVictim i => 3 * (N - i) + 2
  | .readCount => 2
  | .writeCount _ => 1
  | .exited => 0

/-- The rounds that are left, and the steps of the present ones. -/
def rank (state : State N) : Nat ×ₗ Nat :=
  toLex ((iter + N - state.shared.increments).toNat, state.way RoutinePc.way)

section Progress

variable {state : State N} {k : Fin N} {after : Memory N} {pc next : RoutinePc N} {i : Nat}

theorem way_nextLevel (below : i < N) : (nextLevel (i + 1) : RoutinePc N).way < 3 * (N - i) + 2 := by
  unfold nextLevel
  split
  case isTrue less =>
    simp only [RoutinePc.way]
    omega
  case isFalse =>
    simp only [RoutinePc.way]
    omega

/-- A thread that does not wait goes on. -/
theorem busy_step (id : Fin N) (tId : Fin N → Fin N) (memory : Memory N) (busy : pc.waits = none)
    (alive : pc ≠ .exited) :
    ∃ after next, routine id pc tId memory = some (after, next) ∧
      (next.way < pc.way ∧ after.increments = memory.increments ∨
        after.increments = memory.increments + 1) := by
  cases pc with
  | testCount =>
      by_cases passed : memory.count > iter
      · exact ⟨_, _, if_pos passed, .inl ⟨Nat.lt_succ_self _, rfl⟩⟩
      · exact ⟨_, _, if_neg passed, .inl ⟨by simp [RoutinePc.way], rfl⟩⟩
  | testShutdown =>
      by_cases closed : memory.shutdown = true
      · exact ⟨_, _, if_pos closed, .inl ⟨Nat.succ_pos _, rfl⟩⟩
      · exact ⟨_, _, if_neg closed, .inl ⟨way_nextLevel (Fin.pos id), rfl⟩⟩
  | writeCount temp => exact ⟨_, _, rfl, .inr rfl⟩
  | exited => exact absurd rfl alive
  | scan | readLevel | readVictim => cases busy
  | setLevel | setVictim | readCount | setShutdown | unlock =>
      exact ⟨_, _, rfl, .inl ⟨Nat.lt_succ_self _, rfl⟩⟩

theorem rank_less (here : state.point k = some pc) (less : next.way < pc.way)
    (increments : after.increments = state.shared.increments) :
    rank (state.move k after next) < rank state := by
  rw [rank, rank, show (state.move k after next).shared = after from rfl, increments]
  exact Prod.Lex.right _ (way_move_lt here less after)

/-- From any position of its scan a thread gets on that is not the victim of its level, or
finds the others lower. -/
theorem scan_runs (table : ∀ j, state.table j = j)
    (free : state.shared.victim i ≠ k ∨ ∀ j, j ≠ k → state.shared.level j < i) (left position : Nat)
    (rest : N ≤ position + left) :
    (state.move k state.shared (.scan i position)).Runs (filterLock N)
      (state.move k state.shared (nextLevel (i + 1))) := by
  induction left generalizing position with
  | zero => exact .hop (dif_neg (by omega)) .refl
  | succ left ih =>
      by_cases below : position < N
      · have goes := ih (position + 1) (by omega)
        by_cases own : position = k
        · exact .hop ((dif_pos below).trans (if_pos own)) goes
        · refine .hop ((dif_pos below).trans (if_neg own)) ?_
          rw [table]
          by_cases high : state.shared.level ⟨position, below⟩ ≥ i
          · have other : (⟨position, below⟩ : Fin N) ≠ k := fun same => own (congrArg Fin.val same)
            have yields : ¬ state.shared.victim i = k :=
              free.resolve_right fun lower => absurd high (not_le.mpr (lower _ other))
            exact .hop (if_pos high) (.hop (if_neg yields) .refl)
          · exact .hop (if_neg high) goes
      · exact .hop (dif_neg below) .refl

theorem wait_runs (here : state.point k = some pc) (waits : pc.waits = some i)
    (table : ∀ j, state.table j = j)
    (free : state.shared.victim i ≠ k ∨ ∀ j, j ≠ k → state.shared.level j < i) :
    state.Runs (filterLock N) (state.move k state.shared (nextLevel (i + 1))) := by
  have scan := fun position => scan_runs table free N position (Nat.le_add_left _ _)
  have decides : (state.move k state.shared (.readVictim i)).Runs (filterLock N)
      (state.move k state.shared (nextLevel (i + 1))) := by
    by_cases victim : state.shared.victim i = k
    · exact .hop (if_pos victim) (scan 0)
    · exact .hop (if_neg victim) .refl
  refine .here here ?_
  cases pc with
  | scan j position =>
      cases waits
      exact scan position
  | readLevel j x y =>
      cases waits
      by_cases high : state.shared.level y ≥ i
      · exact .hop (if_pos high) decides
      · exact .hop (if_neg high) (scan _)
  | readVictim j =>
      cases waits
      exact decides
  | _ => cases waits

theorem waits_spec (waits : pc.waits = some i) (valid : pc.Valid) :
    0 < i ∧ i < N ∧ pc.announced = i ∧ pc.way = 3 * (N - i) + 2 := by
  cases pc with
  | scan | readLevel | readVictim =>
      cases waits
      exact ⟨valid.1, valid.2, rfl, rfl⟩
  | _ => cases waits

/-- Where every thread waits or has exited, one of those on the highest level gets on. -/
theorem waiting_runs (held : Held state) (announced : Announced state) (table : ∀ j, state.table j = j)
    (waiting : ∀ k pc, state.point k = some pc → pc.waits = none → pc = .exited)
    (live : ∃ k pc, state.point k = some pc ∧ pc ≠ .exited) :
    ∃ final, state.Runs (filterLock N) final ∧ rank final < rank state := by
  have runs : ∀ {k pc i}, state.point k = some pc → pc.waits = some i →
      (state.shared.victim i ≠ k ∨ ∀ j, j ≠ k → state.shared.level j < i) →
      ∃ final, state.Runs (filterLock N) final ∧ rank final < rank state := by
    intro k pc i here waits free
    obtain ⟨_, below, _, way⟩ := waits_spec waits (held.valid k pc here)
    exact ⟨_, wait_runs here waits table free, rank_less here (way ▸ way_nextLevel below) rfl⟩
  obtain ⟨k, pc, here, alive⟩ := live
  obtain ⟨top, _, highest⟩ := Finset.exists_max_image Finset.univ state.shared.level ⟨k, Finset.mem_univ k⟩
  -- a thread on a level above zero waits there
  have on : ∀ j, 0 < state.shared.level j →
      ∃ pc, state.point j = some pc ∧ pc.waits = some (state.shared.level j) := by
    intro j positive
    have level := announced j
    cases there : state.point j with
    | none =>
        rw [there] at level
        exact absurd positive (level ▸ lt_irrefl 0)
    | some pc =>
        rw [there] at level
        refine ⟨pc, rfl, ?_⟩
        cases waits : pc.waits with
        | some i => rw [level, Option.elim_some, (waits_spec waits (held.valid j pc there)).2.2.1]
        | none =>
            rw [waiting j pc there waits] at level
            exact absurd positive (level ▸ lt_irrefl 0)
  obtain ⟨low, waits⟩ : ∃ i, pc.waits = some i :=
    Option.ne_none_iff_exists'.mp fun busy => alive (waiting k pc here busy)
  have positive : 0 < state.shared.level top := by
    obtain ⟨lowest, _, mine, _⟩ := waits_spec waits (held.valid k pc here)
    have level := announced k
    rw [here, Option.elim_some, mine] at level
    exact lt_of_lt_of_le (level ▸ lowest) (highest k (Finset.mem_univ k))
  obtain ⟨first, there, waits⟩ := on top positive
  by_cases victim : state.shared.victim (state.shared.level top) = top
  · by_cases second : ∃ j, j ≠ top ∧ state.shared.level top ≤ state.shared.level j
    · obtain ⟨j, other, high⟩ := second
      have level : state.shared.level j = state.shared.level top :=
        le_antisymm (highest j (Finset.mem_univ j)) high
      obtain ⟨pc', here', waits'⟩ := on j (level ▸ positive)
      refine runs here' waits' (.inl ?_)
      rw [level, victim]
      exact other.symm
    · push Not at second
      exact runs there waits (.inr second)
  · exact runs there waits (.inl victim)

theorem progress (held : Held state) (announced : Announced state) (counted : Counted state)
    (limited : Rounds.Limited iter (roundsView state)) (table : ∀ j, state.table j = j)
    (live : ∃ k pc, state.point k = some pc ∧ pc ≠ .exited) :
    ∃ final, state.Runs (filterLock N) final ∧ rank final < rank state := by
  by_cases busy : ∃ k pc, state.point k = some pc ∧ pc.waits = none ∧ pc ≠ .exited
  · obtain ⟨k, pc, here, busy, alive⟩ := busy
    obtain ⟨after, next, result, spends⟩ := busy_step k state.table state.shared busy alive
    refine ⟨_, .step k here result .refl, ?_⟩
    rcases spends with ⟨less, increments⟩ | increments
    · exact rank_less here less increments
    · have some : Nonempty (Fin N) := ⟨k⟩
      have bound := ((rounds_step held counted limited here result).limited limited).bound
      rw [Fintype.card_fin] at bound
      change (after.increments : Int) ≤ iter + N at bound
      refine Prod.Lex.left _ _ ?_
      change (iter + N - after.increments).toNat < (iter + N - state.shared.increments).toNat
      omega
  · push Not at busy
    exact waiting_runs held announced table busy live

end Progress

section Finishing

variable [NeZero N]
  {allowed : LaunchConfig N (Memory N) (RoutinePc N) → Label (LaunchThread N) Bool → Prop}
  {config : LaunchConfig N (Memory N) (RoutinePc N)}

/-- From every state the program can finish: no order of steps leads into a deadlock, or into
waiting that no scheduling could end. -/
theorem filter_lock_finishes (reaches : Reaches (filterLock N).program allowed (start N) config) :
    ∃ final, Reaches (filterLock N).program (fun _ _ => True) config final ∧
      Launcher.Finished (· = .exited) final := by
  refine Launcher.finishes rank (· = .exited) ?_ reaches
  intro config reached table live
  exact progress (reachable_held reached) (reachable_announced reached) (reachable_counted reached)
    (reachable_limited reached) table live

end Finishing

/-- The first thread is in its critical section, and the second one waits for it. -/
theorem filter_lock_finishes_waiting : ∃ config final,
    Reaches (filterLock 2).program (fun _ _ => True) (start 2) config ∧
      critical (launchView config) 0 = true ∧ (launchView config).point 1 = some (.readVictim 1) ∧
      Reaches (filterLock 2).program (fun _ _ => True) config final ∧
      Launcher.Finished (· = .exited) final := by
  obtain ⟨config, reaches, inside, waits⟩ := Reaches.of_schedule (filterLock 2).program
    (fun _ _ => True) (start 2)
    (List.replicate 7 (go none) ++ List.replicate 9 (go (some 0)) ++ List.replicate 6 (go (some 1)))
    (fun config => critical (launchView config) 0 = true ∧
      (launchView config).point 1 = some (.readVictim 1)) (by decide)
  obtain ⟨final, goes, finished⟩ := filter_lock_finishes reaches
  exact ⟨config, final, reaches, inside, waits, goes, finished⟩

end ThreadPool.FilterLock
