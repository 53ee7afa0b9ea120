import Mathlib.Data.Prod.Lex
import Mathlib.Order.WellFounded
import ThreadPool.Foundation.Launch
import ThreadPool.Foundation.Simulation

namespace ThreadPool.Foundation

/-! # Programs that can always finish

A program is free of deadlocks and of traps if from every reachable configuration some run
leads to its end. For a launched program it is enough to look at the routines: as long as
one of them has not ended, the routines can go on to a state of lower rank.
-/

section Ranking

variable {ι μ χ σ π α : Type} [DecidableEq ι] [DecidableEq μ] [DecidableEq χ] [Fintype ι]
  {program : Program ι μ χ σ π α} {allowed : Config ι μ χ σ π → Label ι α → Prop}
  {start config : Config ι μ χ σ π} {ω : Type} [LT ω] [WellFoundedLT ω]

/-- A goal can be reached if a run to a configuration of lower rank exists until then. -/
theorem Reaches.attains (reaches : Reaches program allowed start config)
    (rank : Config ι μ χ σ π → ω) (goal : Config ι μ χ σ π → Prop)
    (progress : ∀ {config}, Reaches program (fun _ _ => True) start config → ¬ goal config →
      ∃ after, Reaches program (fun _ _ => True) config after ∧ rank after < rank config) :
    ∃ final, Reaches program (fun _ _ => True) config final ∧ goal final := by
  have reached : Reaches program (fun _ _ => True) start config := reaches.mono fun _ => trivial
  clear reaches
  induction size : rank config using WellFoundedLT.induction generalizing config with
  | _ _ ih =>
      by_cases done : goal config
      · exact ⟨config, .refl, done⟩
      · obtain ⟨after, goes, less⟩ := progress reached done
        obtain ⟨final, rest, attained⟩ := ih _ (size ▸ less) (reached.extend goes) rfl
        exact ⟨final, goes.extend rest, attained⟩

end Ranking

section Plain

variable {ι σ π α : Type} [DecidableEq ι] [Fintype ι] {program : Program ι Empty Empty σ π α}
  {config : Config ι Empty Empty σ π} {i : ι} {input : α} {written : σ} {next : π}

omit [DecidableEq ι] [Fintype ι] in
theorem threads_ready (config : Config ι Empty Empty σ π) (i : ι) :
    config.threads i = .ready (config.point i) := by
  cases status : config.threads i with
  | ready point => rw [point_ready status]
  | asleep cond => exact cond.elim
  | woken mutex => exact mutex.elim

/-- An access that is defined can be made. -/
theorem Reaches.access
    (body : (program.code i (config.point i)).body config.memory input = some (written, next)) :
    ∃ after, Reaches program (fun _ _ => True) config after ∧ after.memory = written ∧
      after.point = Function.update config.point i next := by
  have arrives : Arrives program config i (config.point i) config := .here (threads_ready config i)
  refine ⟨_, .step .refl trivial (arrives.step (arrives.performs body)), rfl, ?_⟩
  exact arrives.point_set (.ready next)

end Plain

variable {N : Nat} {σ π : Type}

/-- Accesses of the routines, one after the other. -/
inductive LaunchView.Runs (launcher : Launcher N σ π) : LaunchView N σ π → LaunchView N σ π → Prop
  | refl {view} : Runs launcher view view
  | step {view after} (k) {pc shared next} : view.point k = some pc →
      launcher.access k pc view.table view.shared = some (shared, next) →
      Runs launcher (view.move k shared next) after → Runs launcher view after

theorem LaunchView.Runs.here {launcher : Launcher N σ π} {view final : LaunchView N σ π} {k : Fin N} {pc : π}
    (here : view.point k = some pc) (runs : Runs launcher (view.move k view.shared pc) final) :
    Runs launcher view final := by
  rwa [LaunchView.move, ← here, Function.update_eq_self] at runs

/-- One more access of a thread that moves alone. -/
theorem LaunchView.Runs.hop {launcher : Launcher N σ π} {view final : LaunchView N σ π} {k : Fin N}
    {shared written : σ} {pc next : π}
    (result : launcher.access k pc view.table shared = some (written, next))
    (rest : Runs launcher (view.move k written next) final) :
    Runs launcher (view.move k shared pc) final := by
  refine .step k (Function.update_self ..) result ?_
  rwa [LaunchView.move, LaunchView.move, Function.update_idem]

/-- The way of the routines to the end, if `way` is that of one of them. -/
def LaunchView.way (view : LaunchView N σ π) (way : π → Nat) : Nat := ∑ k, (view.point k).elim 0 way

theorem way_move_lt {view : LaunchView N σ π} {way : π → Nat} {k : Fin N} {pc next : π}
    (here : view.point k = some pc) (less : way next < way pc) (shared : σ) :
    (view.move k shared next).way way < view.way way := by
  have split := sum_split (fun point => Option.elim point 0 way) view.point k
  have moved := sum_update (fun point => Option.elim point 0 way) view.point k (some next)
  rw [here] at split
  simp only [Option.elim_some] at split moved
  simp only [LaunchView.way, LaunchView.move]
  omega

/-- The steps of `main` that are left. -/
def MainPc.work : MainPc N → Nat
  | .clear i => N - i + 2 * N + 2
  | .storeId i => 2 * (N - i) + 1
  | .create i => 2 * (N - i)
  | .done => 0

/-- The entries of the table that `main` has stored. -/
def MainPc.stored : MainPc N → Nat
  | .clear _ => 0
  | .storeId i => i
  | .create i => i + 1
  | .done => N

/-- The steps up to the routines. -/
def LaunchPc.work : LaunchPc N π → Nat
  | .main pc => pc.work
  | .unborn => 2
  | .begin => 1
  | .routine .. => 0

def launchWork (points : LaunchThread N → LaunchPc N π) : Nat := ∑ i, (points i).work

namespace Launcher

variable {launcher : Launcher N σ π} {config : LaunchConfig N σ π} {memory after : Launched N σ}
  {points : LaunchThread N → LaunchPc N π} {me : LaunchThread N} {pc next : LaunchPc N π}

theorem launchWork_lt (less : next.work < (points me).work) :
    launchWork (Function.update points me next) < launchWork points := by
  have split := sum_split LaunchPc.work points me
  have moved := sum_update LaunchPc.work points me next
  simp only [launchWork]
  omega

/-- The table up to the entry that `main` has come to. -/
def Stored (memory : Launched N σ) (points : LaunchThread N → LaunchPc N π) : Prop :=
  ∀ pc, points none = .main pc → ∀ k : Fin N, k < pc.stored → memory.tId k = k

theorem Stored.main_step {pc : MainPc N} {input : Bool} (stored : Stored memory points)
    (here : points none = .main pc) (body : launcher.main pc memory input = some (after, next)) :
    Stored after (Function.update points none next) := by
  have before := stored pc here
  intro pc' there k below
  rw [Function.update_self] at there
  subst there
  cases pc with
  | clear i =>
      simp only [main] at body
      split at body <;> cases body <;> exact absurd below (Nat.not_lt_zero _)
  | storeId i =>
      simp only [main] at body
      split at body
      case isTrue inside =>
        cases body
        by_cases same : k = ⟨i, inside⟩
        · simp [same]
        · have less : k.val < i := by
            have different : k.val ≠ i := fun equal => same (Fin.ext equal)
            simp only [MainPc.stored] at below
            omega
          simpa [same] using before k less
      case isFalse past =>
        cases body
        exact before k (by simp only [MainPc.stored]; omega)
  | create i =>
      cases body
      exact before k below
  | done => cases body

theorem Stored.step {input : Bool} (stored : Stored memory points) (control : Control memory points)
    (body : (launcher.code me (points me)).body memory input = some (after, next)) :
    Stored after (Function.update points me next) := by
  cases me with
  | none =>
      obtain ⟨pc, here⟩ := control.main
      rw [here] at body
      exact stored.main_step here body
  | some j =>
      obtain ⟨_, table, _, _⟩ := control.thread_next (code_steps body)
      intro pc there k below
      rw [Function.update_of_ne (Option.some_ne_none j).symm] at there
      rw [table]
      exact stored pc there k below

theorem Control.routine {k : Fin N} {pc : π} (control : Control config.memory config.point)
    (here : (launchView config).point k = some pc) : config.point (some k) = .routine k pc := by
  have own := control.own k
  have inside : (config.point (some k)).inside = some pc := here
  cases point : config.point (some k) with
  | routine id there =>
      rw [point] at inside
      cases inside
      rw [own id pc point]
  | main | unborn | begin =>
      rw [point] at inside
      cases inside

theorem launchView_access {final : LaunchConfig N σ π} {k : Fin N} {shared : σ} {next : π}
    (memory : final.memory = { config.memory with shared })
    (points : final.point = Function.update config.point (some k) (.routine k next)) :
    launchView final = (launchView config).move k shared next := by
  have moved : (fun j => (final.point (some j)).inside) =
      Function.update (launchView config).point k (some next) := by
    funext j
    rw [points]
    by_cases mover : j = k
    · subst mover
      rw [Function.update_self, Function.update_self]
      rfl
    · rw [Function.update_of_ne mover, Function.update_of_ne (by simpa using mover)]
      rfl
  rw [launchView, moved, memory]
  rfl

/-- The routines can go on without a step of `main`. -/
theorem Control.runs {before view : LaunchView N σ π} (runs : before.Runs launcher view)
    (control : Control config.memory config.point) (same : launchView config = before) :
    ∃ final, Reaches launcher.program (fun _ _ => True) config final ∧ launchView final = view ∧
      launchWork final.point = launchWork config.point := by
  induction runs generalizing config with
  | refl => exact ⟨config, .refl, same, rfl⟩
  | @step before view k pc shared next here result _ ih =>
      subst same
      have point := control.routine here
      have body : (launcher.program.code (some k) (config.point (some k))).body config.memory true =
          some ({ config.memory with shared }, .routine k next) := by
        rw [point]
        change (launcher.access k pc config.memory.tId config.memory.shared).bind _ = _
        rw [show launcher.access k pc config.memory.tId config.memory.shared = _ from result]
        rfl
      obtain ⟨middle, goes, memory, points⟩ := Reaches.access body
      have kept := control.thread_step (code_steps body)
      rw [← memory, ← points] at kept
      obtain ⟨final, rest, ends, work⟩ := ih kept (launchView_access memory points)
      refine ⟨final, goes.extend rest, ends, work.trans ?_⟩
      rw [points, launchWork, launchWork]
      exact sum_update_same (by rw [point]; rfl)

/-- `main` has started the threads, and those that it could create have ended. -/
structure Finished (ended : π → Prop) (config : LaunchConfig N σ π) : Prop where
  main : config.point none = .main .done
  threads : ∀ k, config.memory.started k = true → ∃ pc, config.point (some k) = .routine k pc ∧ ended pc

theorem main_works (launcher : Launcher N σ π) {pc : MainPc N} (busy : pc ≠ .done)
    (memory : Launched N σ) :
    ∃ after next, launcher.main pc memory true = some (after, next) ∧ next.work < pc.work := by
  cases pc with
  | clear i =>
      by_cases below : i < N
      · refine ⟨_, _, dif_pos below, ?_⟩
        simp only [LaunchPc.work, MainPc.work]
        omega
      · refine ⟨_, _, dif_neg below, ?_⟩
        simp only [LaunchPc.work, MainPc.work]
        omega
  | storeId i =>
      by_cases below : i < N
      · exact ⟨_, _, dif_pos below, Nat.lt_succ_self _⟩
      · exact ⟨_, _, dif_neg below, Nat.succ_pos _⟩
  | create i =>
      refine ⟨_, _, rfl, ?_⟩
      simp only [LaunchPc.work, MainPc.work]
      omega
  | done => exact absurd rfl busy

/-- Until the threads are in their routines, `main` or one of them can go on. -/
theorem Control.launch (launcher : Launcher N σ π) (control : Control config.memory config.point)
    (early : config.point none ≠ .main .done ∨
      ∃ k, config.memory.started k = true ∧ (launchView config).point k = none) :
    ∃ after, Reaches launcher.program (fun _ _ => True) config after ∧
      launchWork after.point < launchWork config.point := by
  have goes : ∀ {me written next},
      (launcher.program.code me (config.point me)).body config.memory true = some (written, next) →
      next.work < (config.point me).work →
      ∃ after, Reaches launcher.program (fun _ _ => True) config after ∧
        launchWork after.point < launchWork config.point := by
    intro me written next body less
    obtain ⟨after, reaches, _, points⟩ := Reaches.access body
    exact ⟨after, reaches, by rw [points]; exact launchWork_lt less⟩
  rcases early with busy | ⟨k, started, outside⟩
  · obtain ⟨pc, here⟩ := control.main
    have unfinished : pc ≠ .done := fun done => busy (by rw [here, done])
    obtain ⟨written, next, result, less⟩ := launcher.main_works unfinished config.memory
    refine @goes none written next ?_ ?_
    · rw [here]
      exact result
    · rw [here]
      exact less
  · have inside : (config.point (some k)).inside = none := outside
    have apart := control.apart k
    cases point : config.point (some k) with
    | main pc => exact absurd point (apart pc)
    | routine id pc =>
        rw [point] at inside
        cases inside
    | unborn =>
        refine @goes (some k) config.memory .begin ?_ ?_
        · rw [point]
          simp [program, code, Instr.body, started]
        · rw [point]
          exact Nat.lt_succ_self _
    | begin =>
        refine @goes (some k) config.memory (.routine (config.memory.tId k) launcher.first) ?_ ?_
        · rw [point]
          rfl
        · rw [point]
          exact Nat.one_pos

section Reachable

variable [NeZero N] {allowed : LaunchConfig N σ π → Label (LaunchThread N) Bool → Prop} {shared : σ}

theorem reachable_stored (reaches : Reaches launcher.program allowed (launcher.start shared) config) :
    Stored config.memory config.point := by
  refine reaches.accesses launcher.plain Stored ?_ ?_
  · intro pc here k below
    cases here
    exact absurd below (Nat.not_lt_zero _)
  · intro config me input written next reached stored _ body
    exact stored.step (reachable_control reached) body

/-- A launched program can always finish if its routines can go on to a state of lower rank until
they have ended. -/
theorem finishes {ω : Type} [LT ω] [WellFoundedLT ω] (rank : LaunchView N σ π → ω) (ended : π → Prop)
    (progress : ∀ {config}, Reaches launcher.program (fun _ _ => True) (launcher.start shared) config →
      (∀ k, (launchView config).table k = k) →
      (∃ k pc, (launchView config).point k = some pc ∧ ¬ ended pc) →
      ∃ view, (launchView config).Runs launcher view ∧ rank view < rank (launchView config))
    (reaches : Reaches launcher.program allowed (launcher.start shared) config) :
    ∃ final, Reaches launcher.program (fun _ _ => True) config final ∧ Finished ended final := by
  refine reaches.attains (fun config => toLex (launchWork config.point, rank (launchView config)))
    (Finished ended) ?_
  intro config reached unfinished
  have control := reachable_control reached
  by_cases early : config.point none ≠ .main .done ∨
      ∃ k, config.memory.started k = true ∧ (launchView config).point k = none
  · obtain ⟨after, goes, less⟩ := control.launch launcher early
    exact ⟨after, goes, Prod.Lex.left _ _ less⟩
  · push Not at early
    obtain ⟨done, inside⟩ := early
    have table : ∀ k, (launchView config).table k = k := fun k =>
      reachable_stored reached _ done k k.isLt
    have live : ∃ k pc, (launchView config).point k = some pc ∧ ¬ ended pc := by
      by_contra none
      push Not at none
      refine unfinished ⟨done, fun k started => ?_⟩
      obtain ⟨pc, here⟩ := Option.ne_none_iff_exists'.mp (inside k started)
      exact ⟨pc, control.routine here, none k pc here⟩
    obtain ⟨view, runs, less⟩ := progress reached table live
    obtain ⟨final, goes, rfl, work⟩ := control.runs runs rfl
    refine ⟨final, goes, ?_⟩
    rw [work]
    exact Prod.Lex.right _ less

end Reachable

end Launcher

end ThreadPool.Foundation
