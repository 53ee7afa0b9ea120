import Mathlib.Algebra.GroupWithZero.Nat
import ThreadPool.Foundation.Census
import ThreadPool.Foundation.Threads

namespace ThreadPool.Foundation

/-! # Reachable configurations

Reachability under a condition on the steps, the invariant rule, schedules that
can be executed, and the rule for shares: quantities that threads carry at their
program points and that only accesses to memory can change.
-/

variable {ι μ χ σ π α : Type}

section Reachability

variable [DecidableEq ι] [DecidableEq μ] [DecidableEq χ] [Fintype ι]

/-- `config` is reached from `start` by steps that meet `allowed`. -/
inductive Reaches (program : Program ι μ χ σ π α)
    (allowed : Config ι μ χ σ π → Label ι α → Prop) (start : Config ι μ χ σ π) :
    Config ι μ χ σ π → Prop
  | refl : Reaches program allowed start start
  | step {config label after} : Reaches program allowed start config → allowed config label →
      program.step config label = some after → Reaches program allowed start after

variable {program : Program ι μ χ σ π α} {allowed : Config ι μ χ σ π → Label ι α → Prop}
  {start config after : Config ι μ χ σ π} {label : Label ι α}

theorem Reaches.invariant (reaches : Reaches program allowed start config)
    (invariant : Config ι μ χ σ π → Prop) (initial : invariant start)
    (kept : ∀ {config label after}, Reaches program allowed start config → invariant config →
      allowed config label → Moves program config label after → invariant after) :
    invariant config := by
  induction reaches with
  | refl => exact initial
  | step reaches permitted stepped ih => exact kept reaches ih permitted (step_moves stepped)

theorem Reaches.mono {weaker : Config ι μ χ σ π → Label ι α → Prop}
    (reaches : Reaches program allowed start config)
    (implied : ∀ {config label}, allowed config label → weaker config label) :
    Reaches program weaker start config := by
  induction reaches with
  | refl => exact .refl
  | step _ permitted stepped ih => exact .step ih (implied permitted) stepped

/-- A run that goes on from where another one has ended. -/
theorem Reaches.extend {first second : Config ι μ χ σ π → Label ι α → Prop} {middle : Config ι μ χ σ π}
    (begun : Reaches program first start middle) (goes : Reaches program second middle config) :
    Reaches program (fun _ _ => True) start config := by
  induction goes with
  | refl =>
      induction begun with
      | refl => exact .refl
      | step _ _ stepped ih => exact .step ih trivial stepped
  | step _ _ stepped ih => exact .step ih trivial stepped

/-- Execute a schedule, as long as its steps meet the condition. -/
def Program.run (program : Program ι μ χ σ π α)
    (allowed : Config ι μ χ σ π → Label ι α → Prop) [∀ config label, Decidable (allowed config label)]
    (config : Config ι μ χ σ π) : List (Label ι α) → Option (Config ι μ χ σ π)
  | [] => some config
  | label :: rest =>
      if allowed config label then
        match program.step config label with
        | some next => program.run allowed next rest
        | none => none
      else none

theorem Reaches.of_run [∀ config label, Decidable (allowed config label)]
    {schedule : List (Label ι α)} (reaches : Reaches program allowed start config)
    (result : program.run allowed config schedule = some after) :
    Reaches program allowed start after := by
  induction schedule generalizing config with
  | nil =>
      simp only [Program.run, Option.some.injEq] at result
      exact result ▸ reaches
  | cons label rest ih =>
      simp only [Program.run] at result
      split at result
      case isTrue condition =>
        cases stepped : program.step config label with
        | none => simp [stepped] at result
        | some next =>
            simp only [stepped] at result
            exact ih (.step reaches condition stepped) result
      case isFalse => cases result

/-- A schedule that ends in a configuration with a property shows that such a
configuration is reachable. -/
theorem Reaches.of_schedule (program : Program ι μ χ σ π α)
    (allowed : Config ι μ χ σ π → Label ι α → Prop) [∀ config label, Decidable (allowed config label)]
    (start : Config ι μ χ σ π) (schedule : List (Label ι α)) (property : Config ι μ χ σ π → Prop)
    [DecidablePred property]
    (ends : (program.run allowed start schedule).any (fun config => decide (property config)) = true) :
    ∃ config, Reaches program allowed start config ∧ property config := by
  cases result : program.run allowed start schedule with
  | none => simp [result] at ends
  | some config => exact ⟨config, .of_run .refl result, by simpa [result] using ends⟩

end Reachability

section Points

variable [DecidableEq ι] [DecidableEq μ] [DecidableEq χ]

/-- The program point of a thread. -/
def Config.point (config : Config ι μ χ σ π) (i : ι) : π := (config.threads i).point

omit [DecidableEq μ] [DecidableEq χ] in
theorem point_set (config : Config ι μ χ σ π) (i : ι) (status : Status μ χ π) :
    (config.set i status).point = Function.update config.point i status.point := by
  funext j
  by_cases here : j = i
  · subst here
    simp [Config.point]
  · simp [Config.point, Config.set_threads_of_ne _ _ here, here]

omit [DecidableEq ι] [DecidableEq μ] in
theorem point_rouseAll (config : Config ι μ χ σ π) (cond : χ) :
    (config.rouseAll cond).point = config.point := by
  funext j
  exact point_rouse cond (config.threads j)

omit [DecidableEq μ] [DecidableEq χ] in
theorem point_wake {config : Config ι μ χ σ π} {j : ι} {cond : χ} {mutex : μ} {point : π}
    (sleeper : config.threads j = .asleep cond mutex point) :
    (config.set j (.woken mutex point)).point = config.point := by
  rw [point_set, Function.update_eq_self_iff, Config.point, sleeper]
  rfl

/-- A step as it appears in the memory and in the program points: at most one thread
moves, beside the one it may create. -/
inductive Change (program : Program ι μ χ σ π α) (config : Config ι μ χ σ π) :
    Label ι α → Config ι μ χ σ π → Prop
  | still {label} {after : Config ι μ χ σ π} : after.memory = config.memory →
      after.point = config.point → Change program config label after
  | hop {label i next} {after : Config ι μ χ σ π} :
      (program.code i (config.point i)).sync = some next → after.memory = config.memory →
      after.point = Function.update config.point i next → Change program config label after
  | read {i point middle input choose next} {after : Config ι μ χ σ π} :
      Arrives program config i point middle → program.code i point = .read choose →
      choose config.memory input = some next → after.memory = config.memory →
      after.point = Function.update config.point i next → Change program config (.run i input) after
  | act {i point middle input run next} {after : Config ι μ χ σ π} :
      Arrives program config i point middle → program.code i point = .act run →
      run config.memory input = some (after.memory, next) →
      after.point = Function.update config.point i next → Change program config (.run i input) after
  | create {i start next child final} {after : Config ι μ χ σ π} :
      program.code i (config.point i) = .fork start next →
      program.dormant (config.point child) = true → child ≠ i →
      next config.memory (some child) = (after.memory, final) →
      after.point = Function.update (Function.update config.point child start) i final →
      Change program config (.pick i (some child)) after
  | createFails {i start next final} {after : Config ι μ χ σ π} :
      program.code i (config.point i) = .fork start next →
      next config.memory none = (after.memory, final) →
      after.point = Function.update config.point i final → Change program config (.pick i none) after

variable {program : Program ι μ χ σ π α} {config middle after : Config ι μ χ σ π} {label : Label ι α}
  {i : ι} {point : π}

omit [DecidableEq ι] [DecidableEq μ] [DecidableEq χ] in
theorem point_ready (ready : config.threads i = .ready point) : config.point i = point := by
  rw [Config.point, ready]
  rfl

omit [DecidableEq ι] [DecidableEq χ] in
/-- The access of a step is the one at its point, or the one behind the mutex. -/
theorem Arrives.point_or_sync (arrives : Arrives program config i point middle) :
    config.point i = point ∨ (program.code i (config.point i)).sync = some point := by
  cases arrives with
  | here ready => exact .inl (point_ready ready)
  | entering ready code =>
      rw [point_ready ready]
      exact .inr (congrArg Instr.sync code)
  | resuming woken =>
      rw [Config.point, woken]
      exact .inl rfl

omit [DecidableEq χ] in
theorem Arrives.point_set (arrives : Arrives program config i point middle) (status : Status μ χ π) :
    (middle.set i status).point = Function.update config.point i status.point := by
  rw [Foundation.point_set]
  congr 1
  funext j
  rw [Config.point, arrives.threads_eq]
  rfl

theorem Moves.change [Fintype ι] (moves : Moves program config label after) :
    Change program config label after := by
  have hop : ∀ {i point next}, config.threads i = .ready point →
      (program.code i point).sync = some next →
      (program.code i (config.point i)).sync = some next := by
    intro i point next ready code
    rw [point_ready ready, code]
  cases moves with
  | read arrives code result =>
      exact .read arrives code result arrives.memory_eq (arrives.point_set _)
  | act arrives code result => exact .act arrives code result (arrives.point_set _)
  | lock ready code => exact .hop (hop ready (congrArg Instr.sync code)) rfl (point_set ..)
  | unlock ready code => exact .hop (hop ready (congrArg Instr.sync code)) rfl (point_set ..)
  | wait ready code => exact .hop (hop ready (congrArg Instr.sync code)) rfl (point_set ..)
  | @broadcast i point input cond next ready code =>
      refine .hop (hop ready (congrArg Instr.sync code)) rfl ?_
      rw [point_set, point_rouseAll]
      rfl
  | join ready code => exact .hop (hop ready (congrArg Instr.sync code)) rfl (point_set ..)
  | signal ready code sleeper =>
      refine .hop (hop ready (congrArg Instr.sync code)) rfl ?_
      rw [point_set, point_wake sleeper]
      rfl
  | signalNone ready code => exact .hop (hop ready (congrArg Instr.sync code)) rfl (point_set ..)
  | @create i point start next child idle memory final ready code dormant isDormant different result =>
      rw [← point_ready ready] at code
      rw [← point_ready dormant] at isDormant
      refine .create code isDormant different result ?_
      change ((config.set child (.ready start)).set i (.ready final)).point = _
      rw [point_set, point_set]
      rfl
  | @createFails i point start next memory final ready code result =>
      rw [← point_ready ready] at code
      exact .createFails code result (point_set ..)
  | spurious sleeper => exact .still rfl (point_wake sleeper)

omit [DecidableEq ι] [DecidableEq χ] in
/-- A thread in front of a synchronisation or of another access does not perform this one. -/
theorem Arrives.access (arrives : Arrives program config i point middle)
    (nosync : (program.code i (config.point i)).sync = none) : config.point i = point := by
  rcases arrives.point_or_sync with here | sync
  · exact here
  · rw [nosync] at sync
    cases sync

/-- A thread in front of an access performs it when it runs. -/
theorem Moves.performed [Fintype ι] {input : α} (moves : Moves program config (.run i input) after)
    (nosync : (program.code i (config.point i)).sync = none) :
    ∃ next, (program.code i (config.point i)).body config.memory input = some (after.memory, next) ∧
      after.point = Function.update config.point i next := by
  have other : ∀ {point next}, config.threads i = .ready point →
      (program.code i point).sync = some next → False := by
    intro point next ready sync
    rw [← point_ready ready, nosync] at sync
    cases sync
  cases moves with
  | @read _ _ middle _ _ next arrives code result =>
      refine ⟨next, ?_, arrives.point_set _⟩
      rw [arrives.access nosync, code, Config.set_memory, arrives.memory_eq, Instr.body, result]
      rfl
  | act arrives code result =>
      refine ⟨_, ?_, arrives.point_set _⟩
      rw [arrives.access nosync, code]
      exact result
  | lock ready code => exact (other ready (congrArg Instr.sync code)).elim
  | unlock ready code => exact (other ready (congrArg Instr.sync code)).elim
  | wait ready code => exact (other ready (congrArg Instr.sync code)).elim
  | broadcast ready code => exact (other ready (congrArg Instr.sync code)).elim
  | join ready code => exact (other ready (congrArg Instr.sync code)).elim

/-- The move of one thread: from a point and a memory to the next ones. -/
inductive Advance (program : Program ι μ χ σ π α) (j : ι) (memory : σ) : π → σ → π → Prop
  | sync {before next} : (program.code j before).sync = some next →
      Advance program j memory before memory next
  | read {before point choose input next} :
      before = point ∨ (program.code j before).sync = some point →
      program.code j point = .read choose → choose memory input = some next →
      Advance program j memory before memory next
  | act {before point run input written next} :
      before = point ∨ (program.code j before).sync = some point →
      program.code j point = .act run → run memory input = some (written, next) →
      Advance program j memory before written next
  | fork {before start next target written final} : program.code j before = .fork start next →
      next memory target = (written, final) → Advance program j memory before written final
  | created {before i point start next written final} : program.dormant before = true →
      program.code i point = .fork start next → next memory (some j) = (written, final) →
      Advance program j memory before written start

/-- In a step every thread stays where it is or makes its own move. -/
theorem Moves.advance [Fintype ι] (moves : Moves program config label after) (j : ι) :
    after.point j = config.point j ∨
      Advance program j config.memory (config.point j) after.memory (after.point j) := by
  have one : ∀ {i next}, after.point = Function.update config.point i next →
      Advance program i config.memory (config.point i) after.memory next →
      after.point j = config.point j ∨
        Advance program j config.memory (config.point j) after.memory (after.point j) := by
    intro i next points move
    by_cases here : j = i
    · subst here
      rw [points, Function.update_self]
      exact .inr move
    · rw [points, Function.update_of_ne here]
      exact .inl rfl
  cases moves.change with
  | still memory points => exact .inl (congrFun points j)
  | hop sync memory points =>
      apply one points
      rw [memory]
      exact .sync sync
  | read arrives code result memory points =>
      apply one points
      rw [memory]
      exact .read arrives.point_or_sync code result
  | act arrives code result points => exact one points (.act arrives.point_or_sync code result)
  | @create i start next child final after code dormant different result points =>
      by_cases born : j = child
      · subst born
        rw [points, Function.update_of_ne different, Function.update_self]
        exact .inr (.created dormant code result)
      · by_cases here : j = i
        · subst here
          rw [points, Function.update_self]
          exact .inr (.fork code result)
        · rw [points, Function.update_of_ne here, Function.update_of_ne born]
          exact .inl rfl
  | createFails code result points => exact one points (.fork code result)

end Points

section Elsewhere

variable [DecidableEq ι] [DecidableEq μ] [DecidableEq χ] [Fintype ι] {program : Program ι μ χ σ π α}
  {allowed : Config ι μ χ σ π → Label ι α → Prop} {config after : Config ι μ χ σ π} {label : Label ι α}

/-- The threads that a step names. -/
def Label.threads : Label ι α → List ι
  | .run i _ => [i]
  | .pick i target => i :: target.toList
  | .wake j => [j]

omit [Fintype ι] in
/-- A step moves only threads that it names. -/
theorem Moves.elsewhere (moves : Moves program config label after) {k : ι}
    (other : k ∉ label.threads) : after.point k = config.point k := by
  have away : k ≠ label.threads.head (by cases label <;> exact List.cons_ne_nil _ _) :=
    fun same => other (same ▸ List.head_mem _)
  cases moves with
  | read arrives =>
      rw [arrives.point_set]
      exact Function.update_of_ne away ..
  | act arrives =>
      change (Config.set _ _ _).point k = _
      rw [arrives.point_set]
      exact Function.update_of_ne away ..
  | create _ _ _ _ _ _ =>
      change ((config.set _ _).set _ _).point k = _
      rw [point_set, point_set]
      refine (Function.update_of_ne away ..).trans (Function.update_of_ne ?_ ..)
      rintro rfl
      exact other (by simp [Label.threads])
  | broadcast =>
      rw [point_set, point_rouseAll]
      exact Function.update_of_ne away ..
  | signal _ _ sleeper =>
      rw [point_set, point_wake sleeper]
      exact Function.update_of_ne away ..
  | spurious sleeper => rw [point_wake sleeper]
  | _ =>
      change (Config.set _ _ _).point k = _
      rw [point_set]
      exact Function.update_of_ne away ..

omit [Fintype ι] in
/-- A thread leaves a join only when it awaits no other thread any more. -/
theorem Moves.joined (moves : Moves program config label after) {i : ι} {next : π}
    {awaits : σ → ι → π → Bool} (join : program.code i (config.point i) = .join awaits next)
    (created : program.dormant (config.point i) = false) (moved : after.point i ≠ config.point i) (j : ι) :
    awaits config.memory j (config.point j) = false := by
  have named : i ∈ label.threads := by
    by_contra other
    exact moved (moves.elsewhere other)
  -- the thread stands at the join, so it does nothing else
  have other : ∀ {k point}, config.threads k = .ready point →
      (∀ awaits next, program.code k point ≠ .join awaits next) → i ≠ k := by
    rintro k point ready different rfl
    rw [point_ready ready] at join
    exact different _ _ join
  have access : ∀ {k point middle}, Arrives program config k point middle →
      (∀ awaits next, program.code k point ≠ .join awaits next) → i ≠ k := by
    intro k point middle arrives different
    cases arrives with
    | here ready => exact other ready different
    | entering ready enter => exact other ready (by simp [enter])
    | resuming woken =>
        rintro rfl
        rw [Config.point, woken] at join
        exact different _ _ join
  cases moves with
  | join ready code finished =>
      obtain rfl := List.mem_singleton.mp named
      rw [point_ready ready, code] at join
      cases join
      exact finished j
  | read arrives code | act arrives code =>
      exact absurd (List.mem_singleton.mp named) (access arrives (by simp [code]))
  | lock ready code | unlock ready code | wait ready code | broadcast ready code
  | signalNone ready code | createFails ready code =>
      exact absurd (List.mem_singleton.mp named) (other ready (by simp [code]))
  | signal ready code sleeper =>
      have away := other ready (by simp [code])
      rw [point_set, point_wake sleeper, Function.update_of_ne away] at moved
      exact absurd rfl moved
  | create ready code idle dormant =>
      rcases List.mem_cons.mp named with here | child
      · exact absurd here (other ready (by simp [code]))
      · obtain rfl := List.mem_singleton.mp child
        rw [point_ready idle, dormant] at created
        cases created
  | spurious sleeper => exact absurd (congrFun (point_wake sleeper) i) moved

theorem Program.run_elsewhere [∀ config label, Decidable (allowed config label)]
    {schedule : List (Label ι α)} {k : ι} (other : ∀ label ∈ schedule, k ∉ label.threads)
    (result : program.run allowed config schedule = some after) :
    after.point k = config.point k := by
  induction schedule generalizing config with
  | nil =>
      cases result
      rfl
  | cons label rest ih =>
      rw [List.forall_mem_cons] at other
      simp only [Program.run] at result
      split at result
      case isTrue =>
        cases stepped : program.step config label with
        | none => simp [stepped] at result
        | some next =>
            simp only [stepped] at result
            exact (ih other.2 result).trans ((step_moves stepped).elsewhere other.1)
      case isFalse => cases result

/-- A schedule that names only some of the threads leaves the others at their start. -/
theorem Reaches.of_schedule_among (program : Program ι μ χ σ π α)
    (allowed : Config ι μ χ σ π → Label ι α → Prop) [∀ config label, Decidable (allowed config label)]
    (start : Config ι μ χ σ π) (schedule : List (Label ι α)) (property : Config ι μ χ σ π → Prop)
    [DecidablePred property] (among : List ι) (inside : ∀ label ∈ schedule, label.threads ⊆ among)
    (ends : (program.run allowed start schedule).any (fun config => decide (property config)) = true) :
    ∃ config, Reaches program allowed start config ∧ property config ∧
      ∀ k, k ∉ among → config.point k = start.point k := by
  cases result : program.run allowed start schedule with
  | none => simp [result] at ends
  | some config =>
      refine ⟨config, .of_run .refl result, by simpa [result] using ends, fun k outside => ?_⟩
      exact Program.run_elsewhere (fun label member named => outside (inside label member named)) result

end Elsewhere

section Last

variable [DecidableEq ι] [DecidableEq μ] [DecidableEq χ] [Fintype ι]
  {program : Program ι μ χ σ π α} {allowed : Config ι μ χ σ π → Label ι α → Prop}
  {start config : Config ι μ χ σ π} {i : ι}

/-- What holds when the last thread leaves a set of points, and is kept by every step from
then on, holds whenever no thread is there. -/
theorem Reaches.last_leaves (reaches : Reaches program allowed start config) (present : π → Bool)
    (property : Config ι μ χ σ π → Prop) (first : present (start.point i) = true)
    (leaves : ∀ {config label after i}, Reaches program allowed start config →
      allowed config label → Moves program config label after →
      present (config.point i) = true → (∀ j, present (after.point j) = false) → property after)
    (kept : ∀ {config label after}, Reaches program allowed start config → property config →
      Moves program config label after → property after)
    (none : ∀ j, present (config.point j) = false) : property config := by
  revert none
  apply reaches.invariant fun config => (∀ j, present (config.point j) = false) → property config
  · intro none
    rw [none i] at first
    cases first
  · intro config label after reached before permitted moves none
    by_cases last : ∃ i, present (config.point i) = true
    · obtain ⟨i, here⟩ := last
      exact leaves reached permitted moves here none
    · have gone : ∀ i, present (config.point i) = false := fun i =>
        Bool.eq_false_of_not_eq_true fun here => last ⟨i, here⟩
      exact kept reached (before gone) moves

end Last

section Waiting

variable [DecidableEq ι] [DecidableEq μ] [DecidableEq χ] [Fintype ι]

/-- A thread that sleeps, or has been woken, has executed a `wait`. -/
def Status.Waits (program : Program ι μ χ σ π α) (i : ι) : Status μ χ π → Prop
  | .ready _ => True
  | .asleep cond mutex point => ∃ before, program.code i before = .wait cond mutex point
  | .woken mutex point => ∃ cond before, program.code i before = .wait cond mutex point

variable {program : Program ι μ χ σ π α} {allowed : Config ι μ χ σ π → Label ι α → Prop}
  {start config after : Config ι μ χ σ π} {label : Label ι α} {i j : ι}

omit [DecidableEq ι] [DecidableEq μ] [DecidableEq χ] [Fintype ι] in
theorem Status.Waits.woken {cond : χ} {mutex : μ} {point : π}
    (waits : (Status.asleep cond mutex point).Waits program i) :
    (Status.woken mutex point : Status μ χ π).Waits program i := by
  obtain ⟨before, code⟩ := waits
  exact ⟨cond, before, code⟩

omit [DecidableEq ι] [DecidableEq μ] [DecidableEq χ] [Fintype ι] in
/-- A thread runs at every point that no sleeper continues at. -/
theorem Status.Waits.ready (waits : (config.threads i).Waits program i)
    (awake : ∀ {cond mutex before}, program.code i before ≠ .wait cond mutex (config.point i)) :
    config.threads i = .ready (config.point i) := by
  unfold Config.point at awake ⊢
  cases status : config.threads i with
  | ready point => rfl
  | asleep cond mutex point =>
      rw [status] at waits awake
      obtain ⟨before, code⟩ := waits
      exact absurd code awake
  | woken mutex point =>
      rw [status] at waits awake
      obtain ⟨cond, before, code⟩ := waits
      exact absurd code awake

omit [DecidableEq ι] [DecidableEq μ] [Fintype ι] in
theorem Status.Waits.rouse {status : Status μ χ π} (waits : status.Waits program i) (cond : χ) :
    (status.rouse cond).Waits program i := by
  rcases status.rouse_cases cond with same | ⟨mutex, point, rfl, woken⟩
  · rwa [same]
  · rw [woken]
    exact waits.woken

omit [Fintype ι] in
theorem Moves.waits (moves : Moves program config label after)
    (waits : ∀ i, (config.threads i).Waits program i) (j : ι) : (after.threads j).Waits program j := by
  have set : ∀ {threads : ι → Status μ χ π} {i status}, (∀ j, (threads j).Waits program j) →
      status.Waits program i → ∀ j, (Function.update threads i status j).Waits program j := by
    intro threads i status others own j
    by_cases here : j = i
    · subst here
      rwa [Function.update_self]
    · rw [Function.update_of_ne here]
      exact others j
  have wake : ∀ {k cond mutex point}, config.threads k = .asleep cond mutex point →
      ∀ j, (Function.update config.threads k (.woken mutex point) j).Waits program j := by
    intro k cond mutex point sleeper
    have asleep := waits k
    rw [sleeper] at asleep
    exact set waits asleep.woken
  have run : ∀ {threads : ι → Status μ χ π} {i point}, (∀ j, (threads j).Waits program j) →
      ∀ j, (Function.update threads i (.ready point) j).Waits program j := by
    intro threads i point others
    apply set others
    trivial
  cases moves with
  | read arrives | act arrives =>
      refine run ?_ j
      rw [arrives.threads_eq]
      exact waits
  | lock | unlock | join | signalNone | createFails => exact run waits j
  | wait ready code =>
      refine set waits ?_ j
      exact ⟨_, code⟩
  | broadcast ready code => exact run (fun i => (waits i).rouse _) j
  | signal ready code sleeper => exact run (wake sleeper) j
  | create => exact run (run waits) j
  | spurious sleeper => exact wake sleeper j

theorem Reaches.waits (reaches : Reaches program allowed start config)
    (initial : ∀ i, (start.threads i).Waits program i) (i : ι) : (config.threads i).Waits program i :=
  reaches.invariant (fun config => ∀ i, (config.threads i).Waits program i) initial
    (fun _ waits _ moves => moves.waits waits) i

end Waiting

section Shares

variable {M : Type*} [AddCommMonoid M] [DecidableEq ι] [Fintype ι] {share : π → M}

/-- What all threads carry together. -/
def Config.total (config : Config ι μ χ σ π) (share : π → M) : M :=
  ∑ i, share (config.threads i).point

/-- A quantity spread over the statuses of the threads. -/
def Config.census (config : Config ι μ χ σ π) (weight : Status μ χ π → Nat) : Nat :=
  ∑ i, weight (config.threads i)

theorem census_set (weight : Status μ χ π → Nat) (config : Config ι μ χ σ π) (i : ι)
    (status : Status μ χ π) : (config.set i status).census weight + weight (config.threads i) =
      config.census weight + weight status := by
  have before := sum_split weight config.threads i
  have after := sum_update weight config.threads i status
  simp only [Config.census, Config.set]
  omega

/-- Reads, synchronisation and the creation of threads leave the shares alone. -/
structure Steady (program : Program ι μ χ σ π α) (share : π → M) : Prop where
  sync : ∀ {i point next}, (program.code i point).sync = some next → share next = share point
  read : ∀ {i point choose memory input next}, program.code i point = .read choose →
    choose memory input = some next → share next = share point
  created : ∀ {i point start next idle}, program.code i point = .fork start next →
    program.dormant idle = true → share start = share idle

variable [DecidableEq μ]

/-- A step changes the total of the shares by what one write to memory changes. -/
inductive Transfer (program : Program ι μ χ σ π α) (share : π → M) (config : Config ι μ χ σ π) :
    Label ι α → Config ι μ χ σ π → Prop
  | still {label} {after : Config ι μ χ σ π} : after.memory = config.memory →
      after.total share = config.total share → Transfer program share config label after
  | act {i point middle input run next rest after} : Arrives program config i point middle →
      program.code i point = .act run → run config.memory input = some (after.memory, next) →
      config.total share = share point + rest → after.total share = share next + rest →
      Transfer program share config (.run i input) after
  | fork {i point start next target final rest after} : program.code i point = .fork start next →
      next config.memory target = (after.memory, final) →
      config.total share = share point + rest → after.total share = share final + rest →
      Transfer program share config (.pick i target) after

variable {program : Program ι μ χ σ π α} {config after : Config ι μ χ σ π} {label : Label ι α}

omit [AddCommMonoid M] [DecidableEq ι] [Fintype ι] in
theorem Arrives.share_eq {i : ι} {point : π} {middle : Config ι μ χ σ π}
    (arrives : Arrives program config i point middle) (steady : Steady program share) :
    share (config.point i) = share point := by
  rcases arrives.point_or_sync with same | sync
  · rw [same]
  · exact (steady.sync sync).symm

theorem Moves.transfer [DecidableEq χ] (steady : Steady program share)
    (moves : Moves program config label after) : Transfer program share config label after := by
  have split := sum_split share config.point
  have update : ∀ {i next}, after.point = Function.update config.point i next →
      after.total share = share next + others share config.point i := by
    intro i next moved
    change ∑ j, share (after.point j) = _
    rw [moved, sum_update]
  have same : ∀ {i next}, after.point = Function.update config.point i next →
      share next = share (config.point i) → after.total share = config.total share := by
    intro i next moved equal
    rw [update moved, equal]
    exact (split i).symm
  cases moves.change with
  | still memory points =>
      refine .still memory ?_
      change ∑ j, share (after.point j) = _
      rw [points]
      rfl
  | hop sync memory points => exact .still memory (same points (steady.sync sync))
  | read arrives code result memory points =>
      exact .still memory (same points ((steady.read code result).trans (arrives.share_eq steady).symm))
  | @act i point middle input run next after arrives code result points =>
      have before := split i
      rw [arrives.share_eq steady] at before
      exact .act arrives code result before (update points)
  | @create i start next child final after code dormant different result points =>
      have created : ∑ j, share (Function.update config.point child start j) = config.total share :=
        sum_update_same (steady.created code dormant)
      have before := sum_split share (Function.update config.point child start) i
      rw [created, Function.update_of_ne different.symm] at before
      refine .fork code result before ?_
      change ∑ j, share (after.point j) = _
      rw [points, sum_update]
  | createFails code result points => exact .fork code result (split _) (update points)

end Shares

end ThreadPool.Foundation
