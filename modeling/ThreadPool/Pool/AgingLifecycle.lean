import Mathlib.Data.Bool.Basic
import Mathlib.Logic.Function.Basic
import Mathlib.Tactic.ByContra

namespace ThreadPool.Pool

/-! # The life of the aging threads

`Control` is what matters of the pool for the threads that `thread_pool_enable_aging` creates
and `thread_pool_disable_aging` joins: who is at which stage of such a call, which threads
were created, told to stop and joined. Calls that do not overlap keep every thread in order.
-/

/-- The stages of a call that changes the flag. -/
inductive Stage where
  /-- An enabling call has found the flag clear. -/
  | setting
  /-- It has set the flag and has not created the thread yet. -/
  | started
  /-- A disabling call has found the flag set. -/
  | clearing
  /-- It has cleared the flag and has not joined the thread yet. -/
  | stopping
deriving DecidableEq

/-- Abstract state of the control of aging. -/
@[ext]
structure Control (ι : Type) where
  stage : ι → Option Stage
  created : ι → Bool
  /-- A thread whose `thread_pool_destroy` is past its call of `thread_pool_disable_aging`. -/
  closed : ι → Bool
  enabled : Bool
  tid : Option ι
  told : ι → Bool
  joins : ι → Nat

namespace Control

variable {ι : Type} [DecidableEq ι] {control after : Control ι} {i : ι}

def goto (control : Control ι) (i : ι) (stage : Option Stage) : Control ι :=
  { control with stage := Function.update control.stage i stage }

/-- Clear the flag, which tells the threads created so far to stop. -/
def clear (control : Control ι) : Control ι :=
  { control with enabled := false, told := fun j => control.told j || control.created j }

def join (control : Control ι) : Control ι :=
  { control with joins := fun j => control.joins j + (decide (control.tid = some j)).toNat }

def close (control : Control ι) (i : ι) : Control ι :=
  { control with closed := Function.update control.closed i true }

/-- The steps of calls that do not overlap. -/
inductive Step (control : Control ι) : Control ι → Prop
  | begin {i : ι} : (∀ j, control.stage j = none ∧ control.closed j = false) → control.enabled = false →
      Step control (control.goto i (some .setting))
  | enable {i : ι} : control.stage i = some .setting →
      Step control { control.goto i (some .started) with enabled := true }
  | create {i tid : ι} : control.stage i = some .started → control.created tid = false →
      Step control
        { control.goto i none with created := Function.update control.created tid true, tid := some tid }
  | undo {i : ι} : control.stage i = some .started → Step control (control.clear.goto i none)
  | find {i : ι} : (∀ j, control.stage j = none) → control.enabled = true →
      Step control (control.goto i (some .clearing))
  | tell {i : ι} : control.stage i = some .clearing →
      Step control (control.clear.goto i (some .stopping))
  | join {i : ι} : control.stage i = some .stopping → Step control (control.join.goto i none)
  | joinClosing {i : ι} : control.stage i = some .stopping →
      Step control ((control.join.goto i none).close i)
  | close {i : ι} : (∀ j, control.stage j = none) → control.enabled = false →
      Step control (control.close i)

/-- All created threads have been joined. -/
def Off (control : Control ι) : Prop := ∀ j, control.created j = true → control.joins j = 1

/-- All created threads but `aging_tid` have been joined. -/
def On (control : Control ι) : Prop :=
  ∃ tid, control.tid = some tid ∧ control.created tid = true ∧ control.joins tid = 0 ∧
    ∀ j, control.created j = true → j = tid ∨ control.joins j = 1

/-- What has been achieved at a stage, and between two calls. -/
def Fact (control : Control ι) : Option Stage → Prop
  | none => (control.enabled = true → control.On) ∧ (control.enabled = false → control.Off)
  | some .setting => control.enabled = false ∧ control.Off
  | some .started => control.enabled = true ∧ control.Off
  | some .clearing => control.enabled = true ∧ control.On
  | some .stopping => control.enabled = false ∧ control.On ∧
      ∀ j, control.created j = true → control.told j = true

/-- No other thread is at a stage. -/
def Alone (control : Control ι) (i : ι) : Prop := ∀ j, j ≠ i → control.stage j = none

structure Safe (control : Control ι) : Prop where
  alone : ∀ i, control.stage i ≠ none → control.Alone i
  fact : ∀ i, control.Alone i → control.Fact (control.stage i)
  closed : ∀ i, control.closed i = true → control.enabled = false ∧ ∀ j, control.stage j = none
  joined : ∀ j, control.joins j ≠ 0 → control.joins j = 1 ∧ control.created j = true ∧
    control.told j = true

/-- It is enough to look at the thread whose turn it is. -/
theorem safe_of_turn (others : control.Alone i) (fact : control.Fact (control.stage i))
    (closed : ∀ i, control.closed i = true → control.enabled = false ∧ ∀ j, control.stage j = none)
    (joined : ∀ j, control.joins j ≠ 0 → control.joins j = 1 ∧ control.created j = true ∧
      control.told j = true) : control.Safe := by
  refine ⟨?_, ?_, closed, joined⟩
  · intro k busy j different
    by_cases here : k = i
    · exact others j (here ▸ different)
    · exact absurd (others k here) busy
  · intro k alone
    by_cases here : k = i
    · rwa [here]
    · rw [others k here]
      rwa [alone i (Ne.symm here)] at fact

theorem alone_goto {stage : Option Stage} (alone : control.Alone i) : (control.goto i stage).Alone i := by
  intro j different
  rw [goto]
  simpa [different] using alone j different

@[simp] theorem goto_stage (control : Control ι) (i : ι) (stage : Option Stage) :
    (control.goto i stage).stage i = stage := Function.update_self ..

omit [DecidableEq ι] in
/-- While a call is at a stage, `thread_pool_destroy` is not past its own call. -/
theorem Safe.open_of_stage (safe : control.Safe) {stage : Stage} (here : control.stage i = some stage)
    (j : ι) : control.closed j = false := by
  refine Bool.eq_false_of_not_eq_true fun closed => ?_
  rw [(safe.closed j closed).2 i] at here
  cases here

omit [DecidableEq ι] in
theorem Safe.not_joined (safe : control.Safe) {j : ι} (fresh : control.created j = false) :
    control.joins j = 0 := by
  by_contra joined
  rw [(safe.joined j joined).2.1] at fresh
  cases fresh

/-- The join of `aging_tid` settles the account of the created threads. -/
theorem Safe.join (safe : control.Safe) (on : control.On)
    (told : ∀ j, control.created j = true → control.told j = true) :
    control.join.Off ∧ ∀ j, control.join.joins j ≠ 0 →
      control.join.joins j = 1 ∧ control.created j = true ∧ control.told j = true := by
  obtain ⟨tid, current, created, unjoined, others⟩ := on
  have joins : ∀ j, control.join.joins j = if j = tid then 1 else control.joins j := by
    intro j
    by_cases here : j = tid
    · simp [Control.join, here, current, unjoined]
    · simp [Control.join, here, current, Ne.symm here]
  constructor
  · intro j born
    rw [joins]
    split
    case isTrue => rfl
    case isFalse here => exact (others j born).resolve_left here
  · intro j
    rw [joins]
    split
    case isTrue here =>
      subst here
      exact fun _ => ⟨rfl, created, told j created⟩
    case isFalse => exact safe.joined j

theorem step_safe (safe : control.Safe) (step : Step control after) : after.Safe := by
  have busy : ∀ {i stage}, control.stage i = some stage →
      control.Alone i ∧ control.Fact (some stage) ∧ ∀ j, control.closed j ≠ true := by
    intro i stage here
    have alone := safe.alone i (by simp [here])
    refine ⟨alone, here ▸ safe.fact i alone, fun j => ?_⟩
    simp [safe.open_of_stage here j]
  have cleared : ∀ j, control.joins j ≠ 0 → control.joins j = 1 ∧ control.created j = true ∧
      control.clear.told j = true := by
    intro j joined
    obtain ⟨once, created, told⟩ := safe.joined j joined
    exact ⟨once, created, by simp [clear, told]⟩
  cases step with
  | @begin i idle disabled =>
      have alone : control.Alone i := fun j _ => (idle j).1
      have fact := safe.fact i alone
      rw [(idle i).1] at fact
      refine safe_of_turn (alone_goto alone) ?_ ?_ safe.joined
      · rw [goto_stage]
        exact ⟨disabled, fact.2 disabled⟩
      · intro j closed
        exact absurd closed (by simp [goto, (idle j).2])
  | @enable i here =>
      obtain ⟨alone, ⟨_, off⟩, opened⟩ := busy here
      refine safe_of_turn (i := i) (alone_goto alone) ?_ (fun j closed => absurd closed (opened j))
        safe.joined
      change Fact _ ((control.goto i _).stage i)
      rw [goto_stage]
      exact ⟨rfl, off⟩
  | @create i tid here fresh =>
      obtain ⟨alone, ⟨enabled, off⟩, opened⟩ := busy here
      refine safe_of_turn (i := i) (alone_goto alone) ?_ (fun j closed => absurd closed (opened j)) ?_
      · change Fact _ ((control.goto i _).stage i)
        rw [goto_stage]
        refine ⟨fun _ => ⟨tid, rfl, Function.update_self .., safe.not_joined fresh, ?_⟩, ?_⟩
        · intro j created
          by_cases here : j = tid
          · exact .inl here
          · exact .inr (off j (by simpa [here] using created))
        · intro disabled
          exact absurd (enabled.symm.trans disabled) (by decide)
      · intro j joined
        obtain ⟨once, created, told⟩ := safe.joined j joined
        refine ⟨once, ?_, told⟩
        by_cases here : j = tid
        · simp [here]
        · simpa [here] using created
  | @undo i here =>
      obtain ⟨alone, ⟨_, off⟩, opened⟩ := busy here
      refine safe_of_turn (i := i) (alone_goto alone) ?_ (fun j closed => absurd closed (opened j)) cleared
      rw [goto_stage]
      exact ⟨nofun, fun _ => off⟩
  | @find i idle enabled =>
      have alone : control.Alone i := fun j _ => idle j
      have fact := safe.fact i alone
      rw [idle i] at fact
      refine safe_of_turn (alone_goto alone) ?_ ?_ safe.joined
      · rw [goto_stage]
        exact ⟨enabled, fact.1 enabled⟩
      · intro j closed
        exact absurd (enabled.symm.trans (safe.closed j closed).1) (by decide)
  | @tell i here =>
      obtain ⟨alone, ⟨_, on⟩, opened⟩ := busy here
      refine safe_of_turn (i := i) (alone_goto alone) ?_ (fun j closed => absurd closed (opened j)) cleared
      rw [goto_stage]
      refine ⟨rfl, on, fun j created => ?_⟩
      change (control.told j || control.created j) = true
      have born : control.created j = true := created
      simp [born]
  | @join i here =>
      obtain ⟨alone, ⟨disabled, on, told⟩, opened⟩ := busy here
      obtain ⟨off, joined⟩ := safe.join on told
      refine safe_of_turn (i := i) (alone_goto alone) ?_ (fun j closed => absurd closed (opened j)) joined
      rw [goto_stage]
      exact ⟨fun enabled => absurd (disabled.symm.trans enabled) (by decide), fun _ => off⟩
  | @joinClosing i here =>
      obtain ⟨alone, ⟨disabled, on, told⟩, _⟩ := busy here
      obtain ⟨off, joined⟩ := safe.join on told
      have idle : ∀ j, (control.join.goto i none).stage j = none := by
        intro j
        by_cases mover : j = i
        · rw [mover, goto_stage]
        · exact alone_goto alone j mover
      refine safe_of_turn (i := i) (fun j _ => idle j) ?_ (fun _ _ => ⟨disabled, idle⟩) joined
      change Fact _ ((control.join.goto i none).stage i)
      rw [goto_stage]
      exact ⟨fun enabled => absurd (disabled.symm.trans enabled) (by decide), fun _ => off⟩
  | @close i idle disabled =>
      exact ⟨safe.alone, safe.fact, fun _ _ => ⟨disabled, idle⟩, safe.joined⟩

omit [DecidableEq ι] in
/-- At any stage all created threads are joined, or all but `aging_tid`. -/
theorem Safe.account (safe : control.Safe) (i : ι) : control.Off ∨ control.On := by
  have settled : ∀ {stage}, control.Fact stage → control.Off ∨ control.On := by
    intro stage fact
    cases stage with
    | none =>
        cases enabled : control.enabled with
        | true => exact .inr (fact.1 enabled)
        | false => exact .inl (fact.2 enabled)
    | some stage =>
        cases stage with
        | setting | started => exact .inl fact.2
        | clearing => exact .inr fact.2
        | stopping => exact .inr fact.2.1
  by_cases busy : ∃ k, control.stage k ≠ none
  · obtain ⟨k, busy⟩ := busy
    exact settled (safe.fact k (safe.alone k busy))
  · exact settled (safe.fact i fun j _ => not_not.mp fun stage => busy ⟨j, stage⟩)

omit [DecidableEq ι] in
theorem Safe.untold_unique (safe : control.Safe) {s t : ι} (first : control.created s = true)
    (second : control.created t = true) (untold : control.told s = false)
    (alsoUntold : control.told t = false) : s = t := by
  have unjoined : ∀ {j}, control.told j = false → control.joins j ≠ 1 := by
    intro j untold once
    have told := (safe.joined j (by omega)).2.2
    rw [untold] at told
    cases told
  rcases safe.account s with off | ⟨tid, _, _, _, others⟩
  · exact absurd (off s first) (unjoined untold)
  · rw [(others s first).resolve_right (unjoined untold),
      (others t second).resolve_right (unjoined alsoUntold)]

end Control

end ThreadPool.Pool
