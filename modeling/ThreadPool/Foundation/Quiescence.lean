import Mathlib.Order.Basic

namespace ThreadPool.Foundation

/-! # Quiescence

A component is shut down in stages: a flag is set (1), no client is found behind its check
of the flag (2), and nothing is found pending (3). A client passes its check only while the
flag is clear, and without such clients nothing more becomes pending, so what was found at
a stage remains true.
-/

structure Quiescence (ι : Type) where
  stage : ι → Nat
  flag : Bool
  inside : ι → Bool
  drained : Prop

namespace Quiescence

variable {ι : Type} {before after : Quiescence ι}

structure Step (before after : Quiescence ι) : Prop where
  stages : ∀ i, after.stage i = before.stage i ∨ (after.stage i = 1 ∧ after.flag = true) ∨
    (before.stage i = 1 ∧ after.stage i = 2 ∧ ∀ j, before.inside j = false) ∨
    (before.stage i = 2 ∧ after.stage i = 3 ∧ before.drained)
  flag : before.flag = true → after.flag = true
  enters : ∀ j, after.inside j = true → before.inside j = true ∨ before.flag = false
  settles : (∀ j, before.inside j = false) → before.drained → after.drained

/-- What has been achieved at each stage. -/
structure Staged (state : Quiescence ι) : Prop where
  flagged : ∀ i, 1 ≤ state.stage i → state.flag = true
  quiet : ∀ i, 2 ≤ state.stage i → ∀ j, state.inside j = false
  drained : ∀ i, 3 ≤ state.stage i → state.drained

/-- Under the flag, a set that is entered only without it stays empty. -/
theorem none_enters {inside inside' : ι → Bool} {flag : Bool}
    (enters : ∀ j, inside' j = true → inside j = true ∨ flag = false) (flagged : flag = true)
    (none : ∀ j, inside j = false) (j : ι) : inside' j = false := by
  cases entered : inside' j with
  | false => rfl
  | true =>
      rcases enters j entered with already | clear
      · rw [none j] at already
        cases already
      · rw [flagged] at clear
        cases clear

theorem Step.staged (step : Step before after) (staged : before.Staged) : after.Staged := by
  have quiet : ∀ i, 1 ≤ before.stage i → (∀ j, before.inside j = false) →
      ∀ j, after.inside j = false := fun i far none =>
    none_enters step.enters (staged.flagged i far) none
  constructor
  · intro i far
    rcases step.stages i with same | ⟨_, flagged⟩ | ⟨one, _⟩ | ⟨two, _⟩
    · exact step.flag (staged.flagged i (by omega))
    · exact flagged
    · exact step.flag (staged.flagged i (by omega))
    · exact step.flag (staged.flagged i (by omega))
  · intro i far
    rcases step.stages i with same | ⟨early, _⟩ | ⟨one, _, none⟩ | ⟨two, _⟩
    · exact quiet i (by omega) (staged.quiet i (by omega))
    · omega
    · exact quiet i (by omega) none
    · exact quiet i (by omega) (staged.quiet i (by omega))
  · intro i far
    rcases step.stages i with same | ⟨early, _⟩ | ⟨_, early, _⟩ | ⟨two, _, drained⟩
    · exact step.settles (staged.quiet i (by omega)) (staged.drained i (by omega))
    · omega
    · omega
    · exact step.settles (staged.quiet i (by omega)) drained

end Quiescence

end ThreadPool.Foundation
