import Mathlib.Data.Fintype.Card
import Mathlib.Data.Finset.Card

namespace ThreadPool.Foundation

/-! # Filters

A row of levels that members enter and pass one after another. A member that enters a
level becomes its victim; it passes when it is alone from there on, or when another one
has become the victim. Each level holds one member back, so of `n` members at most
`n - i` pass level `i`, and at most one passes the last.
-/

variable {ι : Type} [DecidableEq ι]

structure Filter (ι : Type) where
  /-- The level that a member has entered last. -/
  entered : ι → Nat
  /-- The level that a member has passed last. -/
  passed : ι → Nat
  /-- The member that has entered a level last. -/
  victim : Nat → ι

namespace Filter

def enter (filter : Filter ι) (q : ι) : Filter ι :=
  { filter with
    entered := Function.update filter.entered q (filter.passed q + 1)
    victim := Function.update filter.victim (filter.passed q + 1) q }

def pass (filter : Filter ι) (q : ι) : Filter ι :=
  { filter with passed := Function.update filter.passed q (filter.passed q + 1) }

def leave (filter : Filter ι) (q : ι) : Filter ι :=
  { filter with
    entered := Function.update filter.entered q 0
    passed := Function.update filter.passed q 0 }

inductive Step (filter : Filter ι) (q : ι) : Filter ι → Prop
  | enter : filter.entered q = filter.passed q → Step filter q (filter.enter q)
  | pass : filter.entered q = filter.passed q + 1 →
      (filter.victim (filter.passed q + 1) = q → ∀ r, r ≠ q → filter.entered r ≤ filter.passed q) →
      Step filter q (filter.pass q)
  | leave : filter.entered q = filter.passed q → Step filter q (filter.leave q)

/-- Where a member other than the victim has entered a level, the victim is held back. -/
structure Guarded (filter : Filter ι) : Prop where
  near : ∀ q, filter.passed q ≤ filter.entered q ∧ filter.entered q ≤ filter.passed q + 1
  guard : ∀ i q, 0 < i → i ≤ filter.entered q → q ≠ filter.victim i →
    filter.passed (filter.victim i) < i ∧ i ≤ filter.entered (filter.victim i)

variable {filter after : Filter ι}

theorem Guarded.enter (guarded : Guarded filter) {q : ι} (done : filter.entered q = filter.passed q) :
    Guarded (filter.enter q) := by
  have rises : ∀ r, filter.entered r ≤ (filter.enter q).entered r := by
    intro r
    by_cases here : r = q
    · subst here
      simp only [Filter.enter, Function.update_self]
      omega
    · simp [Filter.enter, here]
  constructor
  case near =>
    intro r
    by_cases here : r = q
    · subst here
      simp [Filter.enter]
    · simpa [Filter.enter, here] using guarded.near r
  case guard =>
    intro i r positive inside other
    by_cases level : i = filter.passed q + 1
    · subst level
      simp [Filter.enter]
    · -- below the new level the mover was inside before
      have victim : (filter.enter q).victim i = filter.victim i := by simp [Filter.enter, level]
      rw [victim] at other ⊢
      have before : i ≤ filter.entered r := by
        by_cases here : r = q
        · subst here
          simp only [Filter.enter, Function.update_self] at inside
          omega
        · simpa [Filter.enter, here] using inside
      obtain ⟨held, waits⟩ := guarded.guard i r positive before other
      exact ⟨held, waits.trans (rises _)⟩

theorem Guarded.pass (guarded : Guarded filter) {q : ι} (waits : filter.entered q = filter.passed q + 1)
    (free : filter.victim (filter.passed q + 1) = q → ∀ r, r ≠ q → filter.entered r ≤ filter.passed q) :
    Guarded (filter.pass q) := by
  constructor
  case near =>
    intro r
    by_cases here : r = q
    · subst here
      simp only [Filter.pass, Function.update_self]
      omega
    · simpa [Filter.pass, here] using guarded.near r
  case guard =>
    intro i r positive inside other
    obtain ⟨held, entered⟩ := guarded.guard i r positive inside other
    refine ⟨?_, entered⟩
    by_cases mover : filter.victim i = q
    · -- the victim passes its own level only if it is alone there
      have level : i = filter.passed q + 1 := by rw [mover] at held entered; omega
      subst level
      have alone := free mover r (by rw [← mover]; exact other)
      change filter.passed q + 1 ≤ filter.entered r at inside
      omega
    · simpa [Filter.pass, mover] using held

theorem Guarded.leave (guarded : Guarded filter) {q : ι} (done : filter.entered q = filter.passed q) :
    Guarded (filter.leave q) := by
  constructor
  case near =>
    intro r
    by_cases here : r = q
    · subst here
      simp [Filter.leave]
    · simpa [Filter.leave, here] using guarded.near r
  case guard =>
    intro i r positive inside other
    have stays : r ≠ q := by
      rintro rfl
      simp only [Filter.leave, Function.update_self] at inside
      omega
    have before : i ≤ filter.entered r := by simpa [Filter.leave, stays] using inside
    obtain ⟨held, entered⟩ := guarded.guard i r positive before other
    have victim : filter.victim i ≠ q := by
      intro same
      rw [same] at held entered
      omega
    change (filter.leave q).passed (filter.victim i) < i ∧ i ≤ (filter.leave q).entered (filter.victim i)
    simpa [Filter.leave, victim] using And.intro held entered

theorem Step.guarded {q : ι} (step : Step filter q after) (guarded : Guarded filter) : Guarded after := by
  cases step with
  | enter done => exact guarded.enter done
  | pass waits free => exact guarded.pass waits free
  | leave done => exact guarded.leave done

/-- As long as a member is the victim of a level, no other one enters it. -/
theorem Step.keeps {q k r : ι} {i : Nat} (step : Step filter q after) (other : k ≠ q)
    (victim : after.victim i = k) :
    filter.victim i = k ∧ (filter.entered r < i → after.entered r < i) := by
  cases step with
  | enter done =>
      have level : i ≠ filter.passed q + 1 := by
        rintro rfl
        simp only [Filter.enter, Function.update_self] at victim
        exact other victim.symm
      refine ⟨by simpa [Filter.enter, level] using victim, fun below => ?_⟩
      by_cases here : r = q
      · subst here
        simp only [Filter.enter, Function.update_self]
        omega
      · simpa [Filter.enter, here] using below
  | pass => exact ⟨victim, id⟩
  | leave =>
      refine ⟨victim, fun below => ?_⟩
      by_cases here : r = q
      · subst here
        simp only [Filter.leave, Function.update_self]
        omega
      · simpa [Filter.leave, here] using below

variable [Fintype ι]

/-- The members that have passed a level. -/
def behind (filter : Filter ι) (i : Nat) : Finset ι := Finset.univ.filter fun q => i ≤ filter.passed q

/-- Every level but the last leaves at least one member behind. -/
theorem Guarded.card_behind (guarded : Guarded filter) (i : Nat) (below : i < Fintype.card ι) :
    (filter.behind i).card ≤ Fintype.card ι - i := by
  induction i with
  | zero => exact Finset.card_le_univ _
  | succ i ih =>
      by_cases few : (filter.behind (i + 1)).card ≤ 1
      · omega
      · obtain ⟨p, q, pIn, qIn, different⟩ := Finset.one_lt_card_iff.mp (not_le.mp few)
        obtain ⟨r, inside, other⟩ : ∃ r ∈ filter.behind (i + 1), r ≠ filter.victim (i + 1) := by
          by_cases same : p = filter.victim (i + 1)
          · exact ⟨q, qIn, by rw [← same]; exact different.symm⟩
          · exact ⟨p, pIn, same⟩
        have passed : i + 1 ≤ filter.passed r := by simpa [behind] using inside
        obtain ⟨held, entered⟩ := guarded.guard (i + 1) r (by omega)
          (passed.trans (guarded.near r).1) other
        -- the victim has passed level i, and not the next one
        have victim : filter.victim (i + 1) ∈ filter.behind i \ filter.behind (i + 1) := by
          have near := (guarded.near (filter.victim (i + 1))).2
          simp only [behind, Finset.mem_sdiff, Finset.mem_filter, Finset.mem_univ, true_and]
          omega
        have subset : filter.behind (i + 1) ⊆ filter.behind i := by
          intro s
          simp only [behind, Finset.mem_filter, Finset.mem_univ, true_and]
          omega
        obtain ⟨inside, outside⟩ := Finset.mem_sdiff.mp victim
        have less : (filter.behind (i + 1)).card < (filter.behind i).card :=
          Finset.card_lt_card ⟨subset, fun all => outside (all inside)⟩
        have bound := ih (by omega)
        omega

/-- At most one member passes the last level. -/
theorem Guarded.exclusive (guarded : Guarded filter) {p q : ι}
    (first : Fintype.card ι ≤ filter.passed p + 1) (second : Fintype.card ι ≤ filter.passed q + 1) :
    p = q := by
  have nonempty : 0 < Fintype.card ι := Fintype.card_pos_iff.mpr ⟨p⟩
  have bound := guarded.card_behind (Fintype.card ι - 1) (by omega)
  refine Finset.card_le_one.mp (show (filter.behind (Fintype.card ι - 1)).card ≤ 1 by omega) p ?_ q ?_
  all_goals
    simp only [behind, Finset.mem_filter, Finset.mem_univ, true_and]
    omega

end Filter

end ThreadPool.Foundation
