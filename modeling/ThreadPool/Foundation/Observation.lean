import ThreadPool.Foundation.Reachability

namespace ThreadPool.Foundation

/-! # Observed runs

An observer follows a run without taking part in it: behind every step it computes its
next note from the last one and from the step it has seen. Properties of histories
become invariants of the configuration and the note together.
-/

variable {ι μ χ σ π α ω : Type} [DecidableEq ι] [DecidableEq μ] [DecidableEq χ] [Fintype ι]

/-- `config` is reached from `start` by steps that meet `allowed`, and the observer that
began with `initial` has noted `note`. -/
inductive Observed (program : Program ι μ χ σ π α)
    (observe : ω → Config ι μ χ σ π → Label ι α → Config ι μ χ σ π → ω)
    (allowed : ω → Config ι μ χ σ π → Label ι α → Prop) (start : Config ι μ χ σ π) (initial : ω) :
    Config ι μ χ σ π → ω → Prop
  | refl : Observed program observe allowed start initial start initial
  | step {config note label after} : Observed program observe allowed start initial config note →
      allowed note config label → program.step config label = some after →
      Observed program observe allowed start initial after (observe note config label after)

variable {program : Program ι μ χ σ π α}
  {observe : ω → Config ι μ χ σ π → Label ι α → Config ι μ χ σ π → ω}
  {allowed : ω → Config ι μ χ σ π → Label ι α → Prop}
  {start config after : Config ι μ χ σ π} {initial note final : ω}

theorem Observed.reaches (observed : Observed program observe allowed start initial config note) :
    Reaches program (fun _ _ => True) start config := by
  induction observed with
  | refl => exact .refl
  | step _ _ stepped ih => exact .step ih trivial stepped

/-- Observing a run does not change it. -/
theorem Observed.unobserved {permitted : Config ι μ χ σ π → Label ι α → Prop}
    (observed : Observed program observe (fun _ => permitted) start initial config note) :
    Reaches program permitted start config := by
  induction observed with
  | refl => exact .refl
  | step _ permitted stepped ih => exact .step ih permitted stepped

/-- Every run can be observed. -/
theorem Reaches.observed {permitted : Config ι μ χ σ π → Label ι α → Prop}
    (reaches : Reaches program permitted start config)
    (observe : ω → Config ι μ χ σ π → Label ι α → Config ι μ χ σ π → ω) (initial : ω) :
    ∃ note, Observed program observe (fun _ => permitted) start initial config note := by
  induction reaches with
  | refl => exact ⟨initial, .refl⟩
  | step _ permitted stepped ih =>
      obtain ⟨note, observed⟩ := ih
      exact ⟨_, .step observed permitted stepped⟩

theorem Observed.invariant (observed : Observed program observe allowed start initial config note)
    (invariant : Config ι μ χ σ π → ω → Prop) (begins : invariant start initial)
    (kept : ∀ {config note label after}, Reaches program (fun _ _ => True) start config →
      invariant config note → allowed note config label → Moves program config label after →
      invariant after (observe note config label after)) :
    invariant config note := by
  induction observed with
  | refl => exact begins
  | step observed permitted stepped ih =>
      exact kept observed.reaches ih permitted (step_moves stepped)

/-- Execute a schedule under observation, as long as its steps meet the condition. -/
def Program.watch (program : Program ι μ χ σ π α)
    (observe : ω → Config ι μ χ σ π → Label ι α → Config ι μ χ σ π → ω)
    (allowed : ω → Config ι μ χ σ π → Label ι α → Prop)
    [∀ note config label, Decidable (allowed note config label)]
    (config : Config ι μ χ σ π) (note : ω) : List (Label ι α) → Option (Config ι μ χ σ π × ω)
  | [] => some (config, note)
  | label :: rest =>
      if allowed note config label then
        match program.step config label with
        | some next => program.watch observe allowed next (observe note config label next) rest
        | none => none
      else none

theorem Observed.of_watch [∀ note config label, Decidable (allowed note config label)]
    {schedule : List (Label ι α)}
    (observed : Observed program observe allowed start initial config note)
    (result : program.watch observe allowed config note schedule = some (after, final)) :
    Observed program observe allowed start initial after final := by
  induction schedule generalizing config note with
  | nil =>
      cases result
      exact observed
  | cons label rest ih =>
      simp only [Program.watch] at result
      split at result
      case isTrue condition =>
        cases stepped : program.step config label with
        | none => simp [stepped] at result
        | some next =>
            simp only [stepped] at result
            exact ih (.step observed condition stepped) result
      case isFalse => cases result

/-- A schedule that ends with a property shows that an observed run can end so. -/
theorem Observed.of_schedule (program : Program ι μ χ σ π α)
    (observe : ω → Config ι μ χ σ π → Label ι α → Config ι μ χ σ π → ω)
    (allowed : ω → Config ι μ χ σ π → Label ι α → Prop)
    [∀ note config label, Decidable (allowed note config label)]
    (start : Config ι μ χ σ π) (initial : ω) (schedule : List (Label ι α))
    (property : Config ι μ χ σ π → ω → Prop) [∀ config note, Decidable (property config note)]
    (ends : (program.watch observe allowed start initial schedule).any
      (fun result => decide (property result.1 result.2)) = true) :
    ∃ config note, Observed program observe allowed start initial config note ∧
      property config note := by
  cases result : program.watch observe allowed start initial schedule with
  | none => simp [result] at ends
  | some outcome =>
      obtain ⟨config, note⟩ := outcome
      exact ⟨config, note, .of_watch .refl result, by simpa [result] using ends⟩

end ThreadPool.Foundation
