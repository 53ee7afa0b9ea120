import ThreadPool.Foundation.Filter
import ThreadPool.Foundation.Launch
import ThreadPool.Foundation.Word

namespace ThreadPool.FilterLock

open Foundation

/-! # The filter lock

`filter_lock.c` for any number `N` of threads in place of `N_THREAD`. Every read and every
write of a shared variable is one step. The scan of `check_k` goes through the table of
ids, which `main` fills while the threads already started run.
-/

variable {N : Nat}

def iter : Int := 100

structure Memory (N : Nat) where
  level : Fin N → Nat
  victim : Nat → Fin N
  count : Int
  shutdown : Bool
  /-- How often `count = temp + 1` was executed; the program never reads it. -/
  increments : Nat

/-- `routine` with `check_k` in place; `i` is the level, `k` the index in the scan, `x` the
id read from the table. -/
inductive RoutinePc (N : Nat) where
  | setLevel (i : Nat)
  | setVictim (i : Nat)
  | scan (i k : Nat)
  | readLevel (i : Nat) (k x : Fin N)
  | readVictim (i : Nat)
  | readCount
  | writeCount (temp : Int)
  | testCount
  | setShutdown
  | unlock
  | testShutdown
  | exited
deriving DecidableEq

/-- The next round of `for (i = 1; i < N_THREAD; i++)`, or the critical section. -/
def nextLevel (i : Nat) : RoutinePc N := if i < N then .setLevel i else .readCount

def routine (id : Fin N) :
    RoutinePc N → (Fin N → Fin N) → Memory N → Option (Memory N × RoutinePc N)
  | .setLevel i, _, memory =>
      some ({ memory with level := Function.update memory.level id i }, .setVictim i)
  | .setVictim i, _, memory =>
      some ({ memory with victim := Function.update memory.victim i id }, .scan i 0)
  | .scan i k, tId, memory =>
      if below : k < N then
        if k = id then some (memory, .scan i (k + 1))
        else some (memory, .readLevel i ⟨k, below⟩ (tId ⟨k, below⟩))
      else some (memory, nextLevel (i + 1))
  | .readLevel i k x, _, memory =>
      if memory.level x ≥ i then some (memory, .readVictim i) else some (memory, .scan i (k + 1))
  | .readVictim i, _, memory =>
      if memory.victim i = id then some (memory, .scan i 0) else some (memory, nextLevel (i + 1))
  | .readCount, _, memory => some (memory, .writeCount memory.count)
  | .writeCount temp, _, memory =>
      some ({ memory with count := wrap 32 (temp + 1), increments := memory.increments + 1 }, .testCount)
  | .testCount, _, memory =>
      if memory.count > iter then some (memory, .setShutdown) else some (memory, .unlock)
  | .setShutdown, _, memory => some ({ memory with shutdown := true }, .unlock)
  | .unlock, _, memory =>
      some ({ memory with level := Function.update memory.level id 0 }, .testShutdown)
  | .testShutdown, _, memory =>
      if memory.shutdown then some (memory, .exited) else some (memory, nextLevel 1)
  | .exited, _, _ => none

def filterLock (N : Nat) : Launcher N (Memory N) (RoutinePc N) where
  clear i memory := { memory with level := Function.update memory.level i 0 }
  first := nextLevel 1
  access := routine

/-- The global variables are zero when the program starts. -/
def start (N : Nat) [NeZero N] : LaunchConfig N (Memory N) (RoutinePc N) :=
  (filterLock N).start
    { level := fun _ => 0, victim := fun _ => 0, count := 0, shutdown := false, increments := 0 }

/-! ## Steps -/

/-- What a thread does in its routine: memory and point before and after. -/
inductive Steps (id : Fin N) (tId : Fin N → Fin N) (memory : Memory N) :
    RoutinePc N → Memory N → RoutinePc N → Prop
  | setLevel {i} : Steps id tId memory (.setLevel i)
      { memory with level := Function.update memory.level id i } (.setVictim i)
  | setVictim {i} : Steps id tId memory (.setVictim i)
      { memory with victim := Function.update memory.victim i id } (.scan i 0)
  | skip {i} : Steps id tId memory (.scan i id) memory (.scan i (id + 1))
  | fetch {i} (k : Fin N) : k ≠ id → Steps id tId memory (.scan i k) memory (.readLevel i k (tId k))
  | alone {i k} : N ≤ k → Steps id tId memory (.scan i k) memory (nextLevel (i + 1))
  | high {i k x} : memory.level x ≥ i → Steps id tId memory (.readLevel i k x) memory (.readVictim i)
  | low {i k x} : memory.level x < i → Steps id tId memory (.readLevel i k x) memory (.scan i (k + 1))
  | again {i} : memory.victim i = id → Steps id tId memory (.readVictim i) memory (.scan i 0)
  | yield {i} : memory.victim i ≠ id → Steps id tId memory (.readVictim i) memory (nextLevel (i + 1))
  | readCount : Steps id tId memory .readCount memory (.writeCount memory.count)
  | writeCount {temp} : Steps id tId memory (.writeCount temp)
      { memory with count := wrap 32 (temp + 1), increments := memory.increments + 1 } .testCount
  | finish : Steps id tId memory .testCount memory .setShutdown
  | goOn : Steps id tId memory .testCount memory .unlock
  | setShutdown : Steps id tId memory .setShutdown { memory with shutdown := true } .unlock
  | unlock : Steps id tId memory .unlock
      { memory with level := Function.update memory.level id 0 } .testShutdown
  | exit : Steps id tId memory .testShutdown memory .exited
  | round : Steps id tId memory .testShutdown memory (nextLevel 1)

theorem routine_steps {id : Fin N} {tId : Fin N → Fin N} {memory after : Memory N} {pc next : RoutinePc N}
    (result : routine id pc tId memory = some (after, next)) : Steps id tId memory pc after next := by
  cases pc with
  | setLevel i => cases result; exact .setLevel
  | setVictim i => cases result; exact .setVictim
  | scan i k =>
      simp only [routine] at result
      split at result
      case isTrue below =>
        split at result
        case isTrue same => cases result; subst same; exact .skip
        case isFalse other =>
          cases result
          exact .fetch ⟨k, below⟩ fun same => other (congrArg Fin.val same)
      case isFalse past => cases result; exact .alone (not_lt.mp past)
  | readLevel i k x =>
      simp only [routine] at result
      split at result
      case isTrue high => cases result; exact .high high
      case isFalse low => cases result; exact .low (not_le.mp low)
  | readVictim i =>
      simp only [routine] at result
      split at result
      case isTrue same => cases result; exact .again same
      case isFalse other => cases result; exact .yield other
  | readCount => cases result; exact .readCount
  | writeCount temp => cases result; exact .writeCount
  | testCount =>
      simp only [routine] at result
      split at result
      case isTrue => cases result; exact .finish
      case isFalse => cases result; exact .goOn
  | setShutdown => cases result; exact .setShutdown
  | unlock => cases result; exact .unlock
  | testShutdown =>
      simp only [routine] at result
      split at result
      case isTrue => cases result; exact .exit
      case isFalse => cases result; exact .round
  | exited => cases result

/-! ## The filter -/

/-- The levels a thread works on exist. -/
def RoutinePc.Valid : RoutinePc N → Prop
  | .setLevel i | .setVictim i | .scan i _ | .readLevel i _ _ | .readVictim i => 0 < i ∧ i < N
  | _ => True

def RoutinePc.entered : RoutinePc N → Nat
  | .setLevel i | .setVictim i => i - 1
  | .scan i _ | .readLevel i _ _ | .readVictim i => i
  | .readCount | .writeCount _ | .testCount | .setShutdown | .unlock => N - 1
  | .testShutdown | .exited => 0

def RoutinePc.passed : RoutinePc N → Nat
  | .setLevel i | .setVictim i | .scan i _ | .readLevel i _ _ | .readVictim i => i - 1
  | .readCount | .writeCount _ | .testCount | .setShutdown | .unlock => N - 1
  | .testShutdown | .exited => 0

/-- The level that a thread has stored, at least. -/
def RoutinePc.announced : RoutinePc N → Nat
  | .setVictim i => i
  | pc => pc.entered

/-- A thread scans for a level and has found another thread low since its scan began; an
id that is not in the table yet belongs to a thread that does not run. -/
def RoutinePc.found (q : Fin N) : RoutinePc N → Option Nat
  | .scan i k => if q < k then some i else none
  | .readLevel i k x => if q < k ∨ q = k ∧ x ≠ k then some i else none
  | _ => none

/-- Between leaving the lock loop and `level[id] = 0`. -/
def RoutinePc.critical : RoutinePc N → Bool
  | .readCount | .writeCount _ | .testCount | .setShutdown | .unlock => true
  | _ => false

section Routine

variable {id : Fin N} {tId : Fin N → Fin N} {memory after : Memory N} {pc next : RoutinePc N}

theorem valid_nextLevel (i : Nat) (positive : 0 < i) : (nextLevel i : RoutinePc N).Valid := by
  unfold nextLevel
  split
  case isTrue below => exact ⟨positive, below⟩
  case isFalse => trivial

theorem entered_nextLevel {i : Nat} (below : i < N) :
    (nextLevel (i + 1) : RoutinePc N).entered = i ∧ (nextLevel (i + 1) : RoutinePc N).passed = i ∧
      (nextLevel (i + 1) : RoutinePc N).announced = i := by
  unfold nextLevel
  split
  case isTrue => exact ⟨rfl, rfl, rfl⟩
  case isFalse =>
    have last : N - 1 = i := by omega
    exact ⟨last, last, last⟩

theorem found_nextLevel (q : Fin N) (i : Nat) : (nextLevel i : RoutinePc N).found q = none := by
  unfold nextLevel
  split <;> rfl

theorem entered_le_announced (pc : RoutinePc N) : pc.entered ≤ pc.announced := by
  cases pc with
  | setVictim i => exact Nat.sub_le i 1
  | _ => exact le_rfl

theorem passed_of_critical (critical : pc.critical = true) : pc.passed = N - 1 := by
  cases pc <;> first | rfl | cases critical

theorem steps_valid (steps : Steps id tId memory pc after next) (valid : pc.Valid) : next.Valid := by
  cases steps with
  | round => exact valid_nextLevel 1 Nat.one_pos
  | alone | yield => exact valid_nextLevel _ (Nat.succ_pos _)
  | setLevel | setVictim | skip | fetch | high | low | again => exact valid
  | _ => trivial

/-- A thread stores its level before it goes on. -/
theorem steps_level (steps : Steps id tId memory pc after next) (valid : pc.Valid)
    (level : pc.announced ≤ memory.level id) :
    next.announced ≤ after.level id ∧ ∀ k, k ≠ id → after.level k = memory.level k := by
  cases steps with
  | setLevel =>
      refine ⟨?_, fun k other => Function.update_of_ne other ..⟩
      simp [RoutinePc.announced]
  | unlock => exact ⟨Nat.zero_le _, fun k other => Function.update_of_ne other ..⟩
  | round =>
      refine ⟨?_, fun _ _ => rfl⟩
      rw [(entered_nextLevel (Fin.pos id)).2.2]
      exact Nat.zero_le _
  | alone | yield =>
      refine ⟨?_, fun _ _ => rfl⟩
      rw [(entered_nextLevel valid.2).2.2]
      exact level
  | exit => exact ⟨Nat.zero_le _, fun _ _ => rfl⟩
  | _ => exact ⟨level, fun _ _ => rfl⟩

end Routine

abbrev State (N : Nat) := LaunchView N (Memory N) (RoutinePc N)

def filterView (state : State N) : Foundation.Filter (Fin N) where
  entered k := (state.point k).elim 0 RoutinePc.entered
  passed k := (state.point k).elim 0 RoutinePc.passed
  victim := state.shared.victim

structure Held (state : State N) : Prop where
  valid : ∀ k pc, state.point k = some pc → pc.Valid
  level : ∀ k pc, state.point k = some pc → pc.announced ≤ state.shared.level k
  /-- A thread found low has not entered while the thread that scans is the victim. -/
  found : ∀ k pc q i, state.point k = some pc → pc.found q = some i → q ≠ k →
    state.shared.victim i = k → (filterView state).entered q < i
  guarded : (filterView state).Guarded

section View

variable {state : State N} {k : Fin N} {after : Memory N} {pc next : RoutinePc N}

theorem filterView_move : filterView (state.move k after next) =
    { entered := Function.update (filterView state).entered k next.entered
      passed := Function.update (filterView state).passed k next.passed
      victim := after.victim } := by
  unfold filterView
  congr 1
  all_goals
    funext other
    by_cases here : other = k
    · subst here
      simp [LaunchView.move]
    · simp [LaunchView.move, here]

theorem filterView_entered (here : state.point k = some pc) : (filterView state).entered k = pc.entered := by
  simp [filterView, here]

theorem filterView_passed (here : state.point k = some pc) : (filterView state).passed k = pc.passed := by
  simp [filterView, here]

theorem filterView_still (here : state.point k = some pc) (entered : next.entered = pc.entered)
    (passed : next.passed = pc.passed) (victim : after.victim = state.shared.victim) :
    filterView (state.move k after next) = filterView state := by
  rw [filterView_move, entered, passed, victim, ← filterView_entered here, ← filterView_passed here]
  simp only [Function.update_eq_self]
  rfl

theorem filterView_enter {i : Nat} (here : state.point k = some (.setVictim (i + 1))) (pos : Nat) :
    filterView (state.move k { state.shared with victim := Function.update state.shared.victim (i + 1) k }
      (.scan (i + 1) pos)) = (filterView state).enter k := by
  have passed : (filterView state).passed k = i := filterView_passed here
  rw [filterView_move, Foundation.Filter.enter, passed]
  congr 1
  change Function.update (filterView state).passed k i = _
  rw [← passed, Function.update_eq_self]

theorem filterView_pass {i : Nat} (here : state.point k = some pc) (entered : pc.entered = i + 1)
    (passed : pc.passed = i) (next_entered : next.entered = i + 1) (next_passed : next.passed = i + 1) :
    filterView (state.move k state.shared next) = (filterView state).pass k := by
  rw [filterView_move, Foundation.Filter.pass, filterView_passed here, passed, next_entered,
    next_passed, ← entered,
    ← filterView_entered here, Function.update_eq_self]
  rfl

theorem filterView_leave (victim : after.victim = state.shared.victim) :
    filterView (state.move k after .testShutdown) = (filterView state).leave k := by
  rw [filterView_move, victim]
  rfl

/-- Every step of a thread is a step of the filter, or none. -/
theorem view_step (held : Held state) (here : state.point k = some pc)
    (steps : Steps k state.table state.shared pc after next) :
    filterView (state.move k after next) = filterView state ∨
      (filterView state).Step k (filterView (state.move k after next)) := by
  have valid := held.valid k pc here
  have entered := filterView_entered here
  have passed := filterView_passed here
  cases steps with
  | round =>
      have first := entered_nextLevel (Fin.pos k)
      exact .inl (filterView_still here first.1 first.2.1 rfl)
  | @setVictim i =>
      obtain ⟨i, rfl⟩ := Nat.exists_eq_add_of_lt valid.1
      rw [Nat.zero_add] at here entered passed ⊢
      rw [filterView_enter here]
      exact .inr (.enter (entered.trans passed.symm))
  | @alone i c past =>
      have last := entered_nextLevel valid.2
      obtain ⟨i, rfl⟩ := Nat.exists_eq_add_of_lt valid.1
      rw [Nat.zero_add] at here entered passed last ⊢
      rw [filterView_pass here rfl rfl last.1 last.2.1]
      refine .inr (.pass (by rw [entered, passed]; rfl) ?_)
      rw [passed]
      intro victim q other
      have low := held.found k _ q (i + 1) here (if_pos (q.isLt.trans_le past)) other victim
      exact Nat.lt_succ_iff.mp low
  | @yield i victim =>
      have last := entered_nextLevel valid.2
      obtain ⟨i, rfl⟩ := Nat.exists_eq_add_of_lt valid.1
      rw [Nat.zero_add] at here entered passed last victim ⊢
      rw [filterView_pass here rfl rfl last.1 last.2.1]
      refine .inr (.pass (by rw [entered, passed]; rfl) ?_)
      rw [passed]
      exact fun same => absurd same victim
  | unlock =>
      refine .inr ?_
      rw [filterView_leave]
      · exact .leave (entered.trans passed.symm)
      · rfl
  | setLevel | skip | fetch | high | low | again | readCount | writeCount | finish | goOn | setShutdown
  | exit => exact .inl (filterView_still here rfl rfl rfl)

/-- What a thread has found in its scan. -/
theorem found_step (held : Held state) (named : ∀ q, state.point q = none ∨ state.table q = q)
    (here : state.point k = some pc) (steps : Steps k state.table state.shared pc after next)
    {q : Fin N} {i : Nat} (found : next.found q = some i) (other : q ≠ k) (victim : after.victim i = k) :
    (filterView state).entered q < i := by
  have valid := held.valid k pc here
  have before := held.found k pc q i here
  cases steps with
  | @skip level =>
      simp only [RoutinePc.found] at found before
      split at found
      case isTrue below =>
        have lower : (q : Nat) < k := by
          have different := Fin.val_ne_of_ne other
          omega
        exact before (by rw [if_pos lower, found]) other victim
      case isFalse => cases found
  | @fetch level c different =>
      simp only [RoutinePc.found] at found before
      split at found
      case isTrue seen =>
        cases found
        rcases seen with lower | ⟨rfl, unnamed⟩
        · exact before (if_pos lower) other victim
        · -- an id that is missing in the table: the thread does not run
          have idle := (named q).resolve_right unnamed
          simpa [filterView, idle] using valid.1
      case isFalse => cases found
  | @low level c x below =>
      simp only [RoutinePc.found] at found before
      split at found
      case isTrue upTo =>
        cases found
        by_cases same : q = c ∧ x = c
        · obtain ⟨rfl, rfl⟩ := same
          cases running : state.point x with
          | none => simpa [filterView, running] using valid.1
          | some pc =>
              rw [filterView_entered running]
              exact (entered_le_announced pc).trans_lt ((held.level x pc running).trans_lt below)
        · refine before (if_pos ?_) other victim
          by_cases last : q = c
          · exact .inr ⟨last, fun named => same ⟨last, named⟩⟩
          · have different := Fin.val_ne_of_ne last
            exact .inl (Fin.lt_def.mpr (by omega))
      case isFalse => cases found
  | setVictim | again => simp [RoutinePc.found] at found
  | round | alone | yield => simp [found_nextLevel] at found
  | _ => cases found

theorem Held.access (held : Held state) (named : ∀ q, state.point q = none ∨ state.table q = q)
    (here : state.point k = some pc) (steps : Steps k state.table state.shared pc after next) :
    Held (state.move k after next) := by
  have view := view_step held here steps
  obtain ⟨mine, others⟩ := steps_level steps (held.valid k pc here) (held.level k pc here)
  constructor
  case valid =>
    intro j point there
    rw [move_point] at there
    split at there
    case isTrue => cases there; exact steps_valid steps (held.valid k pc here)
    case isFalse => exact held.valid j point there
  case level =>
    intro j point there
    rw [move_point] at there
    split at there
    case isTrue same => cases there; subst same; exact mine
    case isFalse other =>
      change _ ≤ after.level j
      rw [others j other]
      exact held.level j point there
  case found =>
    intro j point q i there found different victim
    change after.victim i = j at victim
    rw [move_point] at there
    split at there
    case isTrue same =>
      cases there
      subst same
      have low := found_step held named here steps found different victim
      rw [filterView_move]
      simpa [different] using low
    case isFalse other =>
      have kept : state.shared.victim i = j ∧ ((filterView state).entered q < i →
          (filterView (state.move k after next)).entered q < i) := by
        rcases view with same | step
        · have victims := congrFun (congrArg Foundation.Filter.victim same) i
          rw [same]
          exact ⟨victims.symm.trans victim, id⟩
        · exact step.keeps other victim
      exact kept.2 (held.found j point q i there found different kept.1)
  case guarded =>
    rcases view with same | step
    · rw [same]
      exact held.guarded
    · exact step.guarded held.guarded

/-- A thread enters its routine in front of the first level. -/
theorem Held.begin (held : Held state) (idle : state.point k = none) :
    Held (state.move k state.shared (nextLevel 1)) := by
  have first := entered_nextLevel (Fin.pos k)
  have same : filterView (state.move k state.shared (nextLevel 1)) = filterView state := by
    have entered : (filterView state).entered k = 0 := by simp [filterView, idle]
    have passed : (filterView state).passed k = 0 := by simp [filterView, idle]
    rw [filterView_move, first.1, first.2.1]
    congr 1
    · exact Function.update_eq_self_iff.mpr entered.symm
    · exact Function.update_eq_self_iff.mpr passed.symm
  constructor
  case valid =>
    intro j point there
    rw [move_point] at there
    split at there
    case isTrue => cases there; exact valid_nextLevel 1 Nat.one_pos
    case isFalse => exact held.valid j point there
  case level =>
    intro j point there
    rw [move_point] at there
    split at there
    case isTrue => cases there; rw [first.2.2]; exact Nat.zero_le _
    case isFalse => exact held.level j point there
  case found =>
    intro j point q i there found
    rw [same]
    rw [move_point] at there
    split at there
    case isTrue => cases there; simp [found_nextLevel] at found
    case isFalse => exact held.found j point q i there found
  case guarded =>
    rw [same]
    exact held.guarded

theorem Held.step {label : Label (LaunchThread N) Bool} {final : State N} (held : Held state)
    (named : ∀ q, state.point q = none ∨ state.table q = q)
    (steps : state.Step (filterLock N) label final) : Held final := by
  cases steps with
  | still => exact held
  | store i => exact ⟨held.valid, held.level, held.found, held.guarded⟩
  | clear i idle =>
      have nobody : ∀ k pc, state.point k ≠ some pc := by simp [idle]
      exact ⟨held.valid, fun k pc there => absurd there (nobody k pc), held.found, held.guarded⟩
  | begin k idle => exact held.begin idle
  | access k here result => exact held.access named here (routine_steps result)

end View

/-! ## The critical section -/

def critical (state : State N) (k : Fin N) : Bool := (state.point k).any RoutinePc.critical

theorem critical_alone {state : State N} (held : Held state) {p q : Fin N}
    (first : critical state p = true) (second : critical state q = true) : p = q := by
  have last : ∀ k, critical state k = true → Fintype.card (Fin N) ≤ (filterView state).passed k + 1 := by
    intro k inside
    obtain ⟨pc, here, critical⟩ := (Option.any_eq_true ..).mp inside
    rw [filterView_passed here, passed_of_critical critical, Fintype.card_fin]
    omega
  exact held.guarded.exclusive (last p first) (last q second)

/-- The counter has seen every increment, and a thread about to write it has read its value. -/
structure Counted (state : State N) : Prop where
  count : state.shared.count = wrap 32 state.shared.increments
  fresh : ∀ k temp, state.point k = some (.writeCount temp) → temp = state.shared.count

theorem writeCount_nextLevel (i : Nat) (temp : Int) : (nextLevel i : RoutinePc N) ≠ .writeCount temp := by
  unfold nextLevel
  split <;> nofun

/-- Only the write in the critical section changes the counter. -/
theorem steps_count {id : Fin N} {tId : Fin N → Fin N} {memory after : Memory N} {pc next : RoutinePc N}
    (steps : Steps id tId memory pc after next) :
    (after.count = memory.count ∧ after.increments = memory.increments ∧
        ∀ temp, next = .writeCount temp → temp = memory.count) ∨
      ∃ temp, pc = .writeCount temp ∧ next = .testCount ∧ after.count = wrap 32 (temp + 1) ∧
        after.increments = memory.increments + 1 := by
  cases steps with
  | writeCount => exact .inr ⟨_, rfl, rfl, rfl, rfl⟩
  | readCount => exact .inl ⟨rfl, rfl, fun _ there => by cases there; rfl⟩
  | round | alone | yield =>
      exact .inl ⟨rfl, rfl, fun temp there => absurd there (writeCount_nextLevel _ _)⟩
  | _ => exact .inl ⟨rfl, rfl, nofun⟩

theorem Counted.access {state : State N} {k : Fin N} {after : Memory N} {pc next : RoutinePc N}
    (counted : Counted state) (held : Held state) (here : state.point k = some pc)
    (steps : Steps k state.table state.shared pc after next) : Counted (state.move k after next) := by
  rcases steps_count steps with ⟨count, increments, reads⟩ | ⟨temp, rfl, rfl, count, increments⟩
  · refine ⟨by rw [LaunchView.move, count, increments, counted.count], fun j temp writing => ?_⟩
    change temp = after.count
    rw [count]
    rw [move_point] at writing
    split at writing
    case isTrue => cases writing; exact reads temp rfl
    case isFalse => exact counted.fresh j temp writing
  · constructor
    case count =>
      change after.count = wrap 32 after.increments
      rw [count, increments, counted.fresh k temp here, counted.count, wrap_add_left]
      push_cast
      rfl
    case fresh =>
      -- another thread about to write would be in its critical section too
      intro j value writing
      rw [move_point] at writing
      split at writing
      case isTrue => cases writing
      case isFalse other =>
        have both := critical_alone held (p := j) (q := k) (by rw [critical, writing]; rfl)
          (by rw [critical, here]; rfl)
        exact absurd both other

theorem Counted.step {state final : State N} {label : Label (LaunchThread N) Bool}
    (counted : Counted state) (held : Held state) (steps : state.Step (filterLock N) label final) :
    Counted final := by
  cases steps with
  | still => exact counted
  | store | clear => exact ⟨counted.count, counted.fresh⟩
  | begin k =>
      refine ⟨counted.count, fun j temp writing => ?_⟩
      rw [move_point] at writing
      split at writing
      case isTrue => exact absurd (Option.some.inj writing) (writeCount_nextLevel _ _)
      case isFalse => exact counted.fresh j temp writing
  | access k here result => exact counted.access held here (routine_steps result)

section Reachable

variable [NeZero N]
  {allowed : LaunchConfig N (Memory N) (RoutinePc N) → Label (LaunchThread N) Bool → Prop}
  {config : LaunchConfig N (Memory N) (RoutinePc N)}

theorem reachable_held (reaches : Reaches (filterLock N).program allowed (start N) config) :
    Held (launchView config) := by
  refine Launcher.invariant reaches Held ?_ fun _ named held _ steps => held.step named steps
  constructor
  case guarded =>
    refine ⟨fun _ => ⟨le_rfl, Nat.zero_le _⟩, fun i q positive entered => ?_⟩
    exact absurd positive (not_lt.mpr entered)
  all_goals nofun

theorem reachable_counted (reaches : Reaches (filterLock N).program allowed (start N) config) :
    Counted (launchView config) := by
  refine Launcher.invariant reaches Counted ?_ ?_
  · have zero : (0 : Int) = wrap 32 (0 : Nat) := (wrap_of_range_32 (by decide) (by decide)).symm
    exact ⟨zero, nofun⟩
  · intro config label after reached _ counted _ steps
    exact counted.step (reachable_held reached) steps

/-- At most one thread is between the lock loop and the store that unlocks, and no
increment of the counter is lost. -/
theorem filter_lock_excludes (reaches : Reaches (filterLock N).program allowed (start N) config) :
    (∀ p q, critical (launchView config) p = true → critical (launchView config) q = true → p = q) ∧
      config.memory.shared.count = wrap 32 config.memory.shared.increments :=
  ⟨fun _ _ => critical_alone (reachable_held reaches), (reachable_counted reaches).count⟩

end Reachable

def go (t : LaunchThread 2) : Label (LaunchThread 2) Bool := .run t true

/-- The second thread waits on its level while the first one is in its critical section and
has counted. -/
theorem filter_lock_excludes_waiting : ∃ config,
    Reaches (filterLock 2).program (fun _ _ => True) (start 2) config ∧
      critical (launchView config) 0 = true ∧ (launchView config).point 1 = some (.readVictim 1) ∧
      config.memory.shared.count = wrap 32 1 := by
  obtain ⟨config, reaches, inside, waits, once⟩ := Reaches.of_schedule (filterLock 2).program
    (fun _ _ => True) (start 2)
    (List.replicate 7 (go none) ++ List.replicate 9 (go (some 0)) ++ List.replicate 6 (go (some 1)) ++
      [go (some 0)])
    (fun config => critical (launchView config) 0 = true ∧
      (launchView config).point 1 = some (.readVictim 1) ∧ config.memory.shared.increments = 1) (by decide)
  refine ⟨config, reaches, inside, waits, ?_⟩
  have count := (filter_lock_excludes reaches).2
  rwa [once] at count

end ThreadPool.FilterLock
