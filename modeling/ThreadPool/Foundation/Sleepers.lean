import ThreadPool.Foundation.Accesses
import ThreadPool.Foundation.Locks

namespace ThreadPool.Foundation

/-! # Sleepers

Who sleeps on a condition variable, or is about to: how a thread gets there, and what a
signal or a broadcast leaves of them.
-/

variable {ι μ χ σ π α : Type}

/-- A thread that sleeps on a condition variable, or stands in front of its `wait`. -/
def Status.Dozes (program : Program ι μ χ σ π α) (cond : χ) (i : ι) : Status μ χ π → Prop
  | .ready point => ∃ mutex next, program.code i point = .wait cond mutex next
  | .asleep other _ _ => other = cond
  | .woken .. => False

/-- Nobody goes to sleep again without testing the memory. -/
def Program.Tests (program : Program ι μ χ σ π α) : Prop :=
  ∀ {i before cond mutex point}, program.code i before = .wait cond mutex point →
    ∀ other own next, program.code i point ≠ .wait other own next

section Steps

variable [DecidableEq ι] [DecidableEq μ] [DecidableEq χ] [Fintype ι] {program : Program ι μ χ σ π α}
  {config after : Config ι μ χ σ π} {label : Label ι α} {i j k : ι} {point next : π} {cond : χ}

omit [DecidableEq ι] [DecidableEq μ] [Fintype ι] in
theorem dozes_of_sleepsOn {status : Status μ χ π} (sleeps : status.sleepsOn cond = true) :
    status.Dozes program cond i := by
  cases status with
  | asleep other mutex point =>
      have same : other = cond := of_decide_eq_true sleeps
      exact same
  | ready | woken => cases sleeps

omit [Fintype ι] in
/-- A ready thread that does not move stays ready. -/
theorem Moves.bystander (moves : Moves program config label after) (ready : config.threads k = .ready point)
    (awake : program.dormant point = false) (other : k ≠ label.thread) : after.threads k = .ready point := by
  have sleeping : ∀ {j cond mutex resume}, config.threads j = .asleep cond mutex resume → k ≠ j := by
    rintro j cond mutex resume sleeper rfl
    rw [ready] at sleeper
    cases sleeper
  cases moves with
  | read arrives | act arrives =>
      refine (Function.update_of_ne other ..).trans ?_
      rw [arrives.threads_eq, ready]
  | broadcast => exact (Function.update_of_ne other ..).trans (Config.rouseAll_ready ready _)
  | signal _ _ sleeper =>
      refine (Function.update_of_ne other ..).trans ?_
      exact (Function.update_of_ne (sleeping sleeper) ..).trans ready
  | @create i point start next child idle memory final _ _ dormant isDormant =>
      have different : k ≠ child := by
        rintro rfl
        rw [ready] at dormant
        cases dormant
        rw [awake] at isDormant
        cases isDormant
      refine (Function.update_of_ne other ..).trans ?_
      exact (Function.update_of_ne different ..).trans ready
  | spurious sleeper => rw [Config.set_threads_of_ne _ _ (sleeping sleeper), ready]
  | _ => exact (Function.update_of_ne other ..).trans ready

omit [Fintype ι] in
theorem Moves.leaves (moves : Moves program config label after) (ready : config.threads k = .ready point)
    (awake : program.dormant point = false) (left : after.point k ≠ point) : k = label.thread := by
  by_contra other
  exact left (point_ready (moves.bystander ready awake other))

omit [Fintype ι] in
/-- A sleeper was asleep before the step, or fell asleep in it and left the memory as it was. -/
theorem Moves.asleep {mutex : μ} (moves : Moves program config label after)
    (asleep : after.threads j = .asleep cond mutex point) :
    config.threads j = .asleep cond mutex point ∨
      ∃ before, config.threads j = .ready before ∧ program.code j before = .wait cond mutex point ∧
        after.memory = config.memory := by
  have stays : ∀ {threads : ι → Status μ χ π} {i status}, Function.update threads i status j =
      .asleep cond mutex point → (∀ c m p, status ≠ .asleep c m p) →
      threads j = .asleep cond mutex point := by
    intro threads i status result awake
    by_cases here : j = i
    · subst here
      rw [Function.update_self] at result
      exact absurd result (awake _ _ _)
    · rwa [Function.update_of_ne here] at result
  cases moves with
  | read arrives | act arrives =>
      rw [← arrives.threads_eq]
      exact .inl (stays asleep (by simp))
  | @wait i before input other own next ready code =>
      by_cases here : j = i
      · subst here
        rw [Config.set_threads_self] at asleep
        cases asleep
        exact .inr ⟨before, ready, code, rfl⟩
      · rw [Config.set_threads_of_ne _ _ here] at asleep
        exact .inl asleep
  | @broadcast i before input other next ready code =>
      have roused : (config.threads j).rouse other = .asleep cond mutex point := stays asleep (by simp)
      rcases (config.threads j).rouse_cases other with same | ⟨_, _, _, woken⟩
      · exact .inl (same.symm.trans roused)
      · rw [woken] at roused
        cases roused
  | signal | create => exact .inl (stays (stays asleep (by simp)) (by simp))
  | _ => exact .inl (stays asleep (by simp))

/-- A thread dozes since before the step, or has just come to its `wait`. -/
theorem Moves.dozes (moves : Moves program config label after) (tests : program.Tests)
    (waits : (config.threads j).Waits program j) (dozes : (after.threads j).Dozes program cond j) :
    (config.threads j).Dozes program cond j ∨ ∃ point mutex next, after.threads j = .ready point ∧
      program.code j point = .wait cond mutex next ∧
      Advance program j config.memory (config.point j) after.memory point := by
  cases status : after.threads j with
  | woken =>
      rw [status] at dozes
      exact dozes.elim
  | asleep other mutex point =>
      rw [status] at dozes
      obtain rfl : other = cond := dozes
      rcases moves.asleep status with before | ⟨before, ready, code, _⟩
      · rw [before]
        exact .inl rfl
      · rw [ready]
        exact .inl ⟨mutex, point, code⟩
  | ready point =>
      rw [status] at dozes
      obtain ⟨mutex, next, code⟩ := dozes
      rcases moves.advance j with same | advance
      · rw [point_ready status] at same
        have ready := waits.ready (by rw [← same]; exact fun wait => tests wait _ _ _ code)
        rw [ready, ← same]
        exact .inl ⟨mutex, next, code⟩
      · rw [point_ready status] at advance
        exact .inr ⟨point, mutex, next, rfl, code, advance⟩

omit [Fintype ι] in
/-- The step of a thread that leaves a broadcast. -/
theorem Moves.broadcasts (moves : Moves program config label after)
    (ready : config.threads k = .ready point) (awake : program.dormant point = false)
    (code : program.code k point = .broadcast cond next) (left : after.point k ≠ point) :
    after = (config.rouseAll cond).set k (.ready next) := by
  obtain rfl := moves.leaves ready awake left
  have only : ∀ {p instr}, config.threads label.thread = .ready p →
      program.code label.thread p = instr → instr = .broadcast cond next := by
    intro p instr here there
    cases ready.symm.trans here
    exact there.symm.trans code
  cases moves with
  | read arrives there | act arrives there =>
      cases arrives with
      | here ready => cases only ready there
      | entering ready enter => cases only ready enter
      | resuming woken => cases ready.symm.trans woken
  | lock here there | unlock here there | wait here there | join here there | signal here there
  | signalNone here there | create here there | createFails here there => cases only here there
  | broadcast here there =>
      cases only here there
      rfl
  | spurious sleeper => cases ready.symm.trans sleeper

omit [Fintype ι] in
/-- The step of a thread that leaves a signal. -/
theorem Moves.signals (moves : Moves program config label after)
    (ready : config.threads k = .ready point) (awake : program.dormant point = false)
    (code : program.code k point = .signal cond next) (left : after.point k ≠ point) :
    (after = config.set k (.ready next) ∧ ∀ j, (config.threads j).sleepsOn cond = false) ∨
      ∃ j mutex resume, config.threads j = .asleep cond mutex resume ∧
        after = (config.set j (.woken mutex resume)).set k (.ready next) := by
  obtain rfl := moves.leaves ready awake left
  have only : ∀ {p instr}, config.threads label.thread = .ready p →
      program.code label.thread p = instr → instr = .signal cond next := by
    intro p instr here there
    cases ready.symm.trans here
    exact there.symm.trans code
  cases moves with
  | read arrives there | act arrives there =>
      cases arrives with
      | here ready => cases only ready there
      | entering ready enter => cases only ready enter
      | resuming woken => cases ready.symm.trans woken
  | lock here there | unlock here there | wait here there | join here there | broadcast here there
  | create here there | createFails here there => cases only here there
  | signal here there sleeper =>
      cases only here there
      exact .inr ⟨_, _, _, sleeper, rfl⟩
  | signalNone here there nobody =>
      cases only here there
      exact .inl ⟨rfl, nobody⟩
  | spurious sleeper => cases ready.symm.trans sleeper

end Steps

section Payment

variable [DecidableEq ι] [DecidableEq μ] [DecidableEq χ] {program : Program ι μ χ σ π α}
  {holds : π → μ → Bool} {config after : Config ι μ χ σ π} {label : Label ι α} {j k : ι}
  {point next : π} {cond : χ} {mutex : μ}

omit [DecidableEq ι] in
/-- Who holds the mutex keeps the others from the `wait`. -/
theorem Owned.dozer_sleeps (owned : Owned holds config) (disciplined : Disciplined program holds)
    (guarded : ∀ {i before own resume}, program.code i before = .wait cond own resume → own = mutex)
    (ready : config.threads k = .ready point) (held : holds point mutex = true) (different : j ≠ k)
    (dozes : (config.threads j).Dozes program cond j) : (config.threads j).sleepsOn cond = true := by
  cases status : config.threads j with
  | ready other =>
      rw [status] at dozes
      obtain ⟨own, resume, wait⟩ := dozes
      cases guarded wait
      have mine : (config.threads k).holds holds mutex = true := by
        rw [ready]
        exact held
      have yours : (config.threads j).holds holds mutex = true := by
        rw [status]
        exact (disciplined.wait wait).1
      exact absurd (owned.exclusive yours mine) different
  | woken =>
      rw [status] at dozes
      exact dozes.elim
  | asleep other own resume =>
      rw [status] at dozes
      exact decide_eq_true dozes

/-- A broadcast under the mutex leaves nobody who sleeps or is about to. -/
theorem Moves.broadcast_rouses (moves : Moves program config label after)
    (disciplined : Disciplined program holds) (owned : Owned holds config)
    (guarded : ∀ {i before own resume}, program.code i before = .wait cond own resume → own = mutex)
    (ready : config.threads k = .ready point) (awake : program.dormant point = false)
    (code : program.code k point = .broadcast cond next) (held : holds point mutex = true)
    (stays : ∀ own resume, program.code k next ≠ .wait cond own resume) (left : after.point k ≠ point)
    (j : ι) : ¬ (after.threads j).Dozes program cond j := by
  rw [moves.broadcasts ready awake code left]
  intro dozes
  by_cases here : j = k
  · subst here
    rw [Config.set_threads_self] at dozes
    obtain ⟨own, resume, wait⟩ := dozes
    exact stays own resume wait
  · rw [Config.set_threads_of_ne _ _ here] at dozes
    change ((config.threads j).rouse cond).Dozes program cond j at dozes
    rcases (config.threads j).rouse_cases cond with same | ⟨own, resume, _, woken⟩
    · rw [same] at dozes
      obtain ⟨own, sleeper⟩ :=
        sleepsOn_asleep (owned.dozer_sleeps disciplined guarded ready held here dozes)
      rw [sleeper] at same
      simp [Status.rouse] at same
    · rw [woken] at dozes
      exact dozes

/-- A signal under the mutex leaves nobody, if there was one sleeper at most. -/
theorem Moves.signal_rouses (moves : Moves program config label after)
    (disciplined : Disciplined program holds) (owned : Owned holds config)
    (guarded : ∀ {i before own resume}, program.code i before = .wait cond own resume → own = mutex)
    (sole : ∀ {i j}, (config.threads i).sleepsOn cond = true → (config.threads j).sleepsOn cond = true →
      i = j)
    (ready : config.threads k = .ready point) (awake : program.dormant point = false)
    (code : program.code k point = .signal cond next) (held : holds point mutex = true)
    (stays : ∀ own resume, program.code k next ≠ .wait cond own resume) (left : after.point k ≠ point)
    (j : ι) : ¬ (after.threads j).Dozes program cond j := by
  intro dozes
  have other : after.threads k = .ready next → j ≠ k := by
    rintro mover rfl
    rw [mover] at dozes
    obtain ⟨own, resume, wait⟩ := dozes
    exact stays own resume wait
  have asleep := fun here => owned.dozer_sleeps (j := j) disciplined guarded ready held here
  rcases moves.signals ready awake code left with ⟨rfl, nobody⟩ | ⟨i, own, resume, sleeper, rfl⟩
  · have here := other (Config.set_threads_self ..)
    rw [Config.set_threads_of_ne _ _ here] at dozes
    exact Bool.false_ne_true ((nobody j).symm.trans (asleep here dozes))
  · have here := other (Config.set_threads_self ..)
    rw [Config.set_threads_of_ne _ _ here] at dozes
    by_cases woken : j = i
    · subst woken
      rw [Config.set_threads_self] at dozes
      exact dozes
    · rw [Config.set_threads_of_ne _ _ woken] at dozes
      exact woken (sole (asleep here dozes) (by rw [sleeper]; exact decide_eq_true rfl))

end Payment

end ThreadPool.Foundation
