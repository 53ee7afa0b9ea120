import Mathlib.Order.WellFounded
import ThreadPool.Foundation.Accesses
import ThreadPool.Foundation.Locks
import ThreadPool.Foundation.Simulation

namespace ThreadPool.Foundation

/-! # Progress

A thread that waits for a mutex waits for its owner. Where the mutexes are acquired
in a fixed order, the owner of the last one waits for nobody. So a program comes to
rest only with threads that sleep on a condition variable, join another thread, or
have nothing left to do.
-/

deriving instance DecidableEq for Status

variable {ι μ χ σ π α : Type}

def Instr.isAccess : Instr ι μ χ σ π α → Bool
  | .read _ => true
  | .act _ => true
  | _ => false

theorem Instr.access_of_body {instr : Instr ι μ χ σ π α} {memory : σ} {input : α} {result : σ × π}
    (body : instr.body memory input = some result) : instr.isAccess = true := by
  cases instr <;> first | rfl | cases body

/-- Wakes up without a signal are nobody's own steps. -/
def Label.own : Label ι α → Bool
  | .wake _ => false
  | _ => true

/-- The mutexes are acquired in the order of their ranks, and a thread that sleeps, joins,
halts or rests holds none. -/
structure Orderly [DecidableEq μ] {κ : Type} [LT κ] (program : Program ι μ χ σ π α)
    (holds : π → μ → Bool) (rank : μ → κ) (rests : π → Bool) : Prop where
  disciplined : Disciplined program holds
  lock : ∀ {i point mutex next}, program.code i point = .lock mutex next →
    ∀ held, holds point held = true → rank held < rank mutex
  enter : ∀ {i point mutex next}, program.code i point = .enter mutex next →
    (∀ held, holds point held = true → rank held < rank mutex) ∧ (program.code i next).isAccess = true
  wait : ∀ {i point cond mutex next}, program.code i point = .wait cond mutex next →
    (∀ held, holds point held = true → held = mutex) ∧ (program.code i next).isAccess = true
  join : ∀ {i point awaits next}, program.code i point = .join awaits next →
    holds point = fun _ => false
  halt : ∀ {i point}, program.code i point = .halt → holds point = fun _ => false
  rests : ∀ {i point}, rests point = true →
    (program.code i point).isAccess = true ∧ holds point = fun _ => false

/-- Why a thread does not go on. -/
inductive Rests (program : Program ι μ χ σ π α) (rests : π → Bool) (config : Config ι μ χ σ π) (i : ι) :
    Prop
  | asleep {cond mutex point} : config.threads i = .asleep cond mutex point →
      Rests program rests config i
  | joining {point awaits next} (j : ι) : config.threads i = .ready point →
      program.code i point = .join awaits next →
      awaits config.memory j (config.point j) = true → Rests program rests config i
  | halted {point} : config.threads i = .ready point → program.code i point = .halt →
      Rests program rests config i
  | idle {point} : config.threads i = .ready point → rests point = true → Rests program rests config i

/-- A thread in front of a mutex. -/
inductive Wants (program : Program ι μ χ σ π α) (config : Config ι μ χ σ π) (i : ι) (mutex : μ) : Prop
  | lock {point next} : config.threads i = .ready point → program.code i point = .lock mutex next →
      Wants program config i mutex
  | enter {point next} : config.threads i = .ready point → program.code i point = .enter mutex next →
      Wants program config i mutex
  | resume {point} : config.threads i = .woken mutex point → Wants program config i mutex

section Moving

variable [DecidableEq ι] [DecidableEq μ] [DecidableEq χ] [Fintype ι] {program : Program ι μ χ σ π α}
  {config middle : Config ι μ χ σ π} {i : ι} {point : π} {mutex : μ}

def CanMove (program : Program ι μ χ σ π α) (config : Config ι μ χ σ π) (i : ι) : Prop :=
  ∃ label after, label.thread = i ∧ label.own = true ∧ program.step config label = some after

/-- Whatever a thread is about to access is there. -/
def Defined (program : Program ι μ χ σ π α) (config : Config ι μ χ σ π) : Prop :=
  ∀ {i point middle}, Arrives program config i point middle →
    (program.code i point).isAccess = true →
    ∃ input, ((program.code i point).body config.memory input).isSome = true

/-- Only threads that rest could go on. -/
def Settled (program : Program ι μ χ σ π α) (rests : π → Bool) (config : Config ι μ χ σ π) : Prop :=
  ∀ i, CanMove program config i → rests (config.point i) = true

/-- Nothing changes any more, unless a thread leaves one of the points `outside`, or wakes
without a signal. -/
def Quiet (program : Program ι μ χ σ π α) (outside : π → Prop) (config : Config ι μ χ σ π) : Prop :=
  ∀ label after, label.own = true → program.step config label = some after →
    outside (config.point label.thread) ∨ after = config

theorem Quiet.settled {outside : π → Prop} {rests : π → Bool} (quiet : Quiet program outside config)
    (rest : ∀ {point}, outside point → rests point = true)
    (loops : ∀ {label after}, Moves program config label after → label.own = true → after = config →
      rests (config.point label.thread) = true) : Settled program rests config := by
  rintro i ⟨label, after, rfl, own, stepped⟩
  rcases quiet label after own stepped with away | same
  · exact rest away
  · exact loops (step_moves stepped) own same

theorem Arrives.canMove (arrives : Arrives program config i point middle)
    (defined : Defined program config) (access : (program.code i point).isAccess = true) :
    CanMove program config i := by
  obtain ⟨input, result⟩ := defined arrives access
  obtain ⟨⟨written, next⟩, body⟩ := Option.isSome_iff_exists.mp result
  exact ⟨.run i input, _, rfl, rfl, arrives.step (arrives.performs body)⟩

/-- A synchronisation that nobody can hold up. -/
theorem canMove_of_sync [Inhabited α] (ready : config.threads i = .ready point)
    (other : (program.code i point).isAccess = false)
    (lock : ∀ mutex next, program.code i point ≠ .lock mutex next)
    (enter : ∀ mutex next, program.code i point ≠ .enter mutex next)
    (join : ∀ awaits next, program.code i point ≠ .join awaits next)
    (halt : program.code i point ≠ .halt) : CanMove program config i := by
  cases code : program.code i point with
  | read | act => simp [code, Instr.isAccess] at other
  | lock mutex next => exact absurd code (lock mutex next)
  | enter mutex next => exact absurd code (enter mutex next)
  | join awaits next => exact absurd code (join awaits next)
  | halt => exact absurd code halt
  | unlock mutex next => exact ⟨.run i default, _, rfl, rfl, (Moves.unlock ready code).step⟩
  | wait cond mutex next => exact ⟨.run i default, _, rfl, rfl, (Moves.wait ready code).step⟩
  | broadcast cond next => exact ⟨.run i default, _, rfl, rfl, (Moves.broadcast ready code).step⟩
  | fork start next =>
      exact ⟨.pick i none, _, rfl, rfl, (Moves.createFails ready code rfl).step⟩
  | signal cond next =>
      by_cases nobody : ∀ j, (config.threads j).sleepsOn cond = false
      · exact ⟨.pick i none, _, rfl, rfl, (Moves.signalNone ready code nobody).step⟩
      · obtain ⟨j, sleeps⟩ := not_forall.mp nobody
        obtain ⟨mutex, sleeper⟩ := sleepsOn_asleep (Bool.eq_true_of_not_eq_false sleeps)
        exact ⟨.pick i (some j), _, rfl, rfl, (Moves.signal ready code sleeper).step⟩

omit [Fintype ι] in
/-- An own step that changes nothing returns to the point of its thread. -/
theorem Moves.unchanged {label : Label ι α} {after : Config ι μ χ σ π} (moves : Moves program config label after)
    (own : label.own = true) (same : after = config) :
    ∃ point, config.threads label.thread = .ready point ∧
      ((program.code label.thread point).sync = some point ∨
        (∃ input, (program.code label.thread point).body config.memory input = some (config.memory, point)) ∨
        ∃ start next target, program.code label.thread point = .fork start next ∧
          next config.memory target = (config.memory, point)) := by
  have status : ∀ i, after.threads i = config.threads i := by simp [same]
  have owner : ∀ mutex, after.owner mutex = config.owner mutex := by simp [same]
  have memory : after.memory = config.memory := by rw [same]
  have back : ∀ {i point next}, config.threads i = .ready point → after.threads i = .ready next →
      next = point := by
    intro i point next ready there
    rw [status, ready] at there
    cases there
    rfl
  have hop : ∀ {i point next}, config.threads i = .ready point → (program.code i point).sync = some next →
      after.threads i = .ready next → (program.code i point).sync = some point := by
    intro i point next ready sync there
    rwa [back ready there] at sync
  have taken : ∀ {i mutex}, config.owner mutex = none → after.owner ≠ (config.take mutex i).owner := by
    intro i mutex free owners
    have mine := owner mutex
    rw [owners, free] at mine
    simp [Config.take] at mine
  have arrived : ∀ {i point middle next}, Arrives program config i point middle →
      after.owner = middle.owner → after.threads i = .ready next →
      config.threads i = .ready point ∧ next = point := by
    intro i point middle next arrives owners there
    cases arrives with
    | here ready => exact ⟨ready, back ready there⟩
    | entering _ _ free | resuming _ free => exact absurd owners (taken free)
  cases moves with
  | @read i point middle input choose next arrives code result =>
      obtain ⟨ready, rfl⟩ := arrived arrives rfl (Config.set_threads_self ..)
      refine ⟨_, ready, .inr (.inl ⟨input, ?_⟩)⟩
      change (program.code i _).body _ _ = _
      rw [code, Instr.body, result]
      rfl
  | @act i point middle input run written next arrives code result =>
      obtain ⟨ready, rfl⟩ := arrived arrives rfl (Config.set_threads_self ..)
      refine ⟨_, ready, .inr (.inl ⟨input, ?_⟩)⟩
      change (program.code i _).body _ _ = _
      rw [code, Instr.body, result, show written = config.memory from memory]
  | lock ready code | unlock ready code | broadcast ready code | join ready code | signal ready code
  | signalNone ready code =>
      exact ⟨_, ready, .inl (hop ready (congrArg Instr.sync code) (Config.set_threads_self ..))⟩
  | @wait i point input cond mutex next ready code =>
      have there := status i
      rw [Config.set_threads_self, ready] at there
      cases there
  | @create i point start next child idle written final ready code dormant isDormant different result =>
      obtain rfl := back ready (Config.set_threads_self ..)
      refine ⟨_, ready, .inr (.inr ⟨start, next, some child, code, ?_⟩)⟩
      rw [result, show written = config.memory from memory]
  | @createFails i point start next written final ready code result =>
      obtain rfl := back ready (Config.set_threads_self ..)
      refine ⟨_, ready, .inr (.inr ⟨start, next, none, code, ?_⟩)⟩
      rw [result, show written = config.memory from memory]
  | spurious => cases own

end Moving

section Order

variable [DecidableEq ι] [DecidableEq μ] [DecidableEq χ] [Fintype ι] [Inhabited α] {κ : Type}
  [Preorder κ] {program : Program ι μ χ σ π α} {holds : π → μ → Bool} {rank : μ → κ}
  {rests : π → Bool}
  {config : Config ι μ χ σ π} {i j : ι} {mutex : μ}

/-- A free mutex can be acquired. -/
theorem Wants.canMove (wants : Wants program config i mutex) (orderly : Orderly program holds rank rests)
    (waits : (config.threads i).Waits program i) (defined : Defined program config)
    (free : config.owner mutex = none) : CanMove program config i := by
  cases wants with
  | lock ready code => exact ⟨.run i default, _, rfl, rfl, (Moves.lock ready code free).step⟩
  | enter ready code =>
      have arrives := Arrives.entering ready code free
      exact arrives.canMove defined (orderly.enter code).2
  | resume woken =>
      rw [woken] at waits
      obtain ⟨cond, before, code⟩ := waits
      exact (Arrives.resuming woken free).canMove defined (orderly.wait code).2

omit [DecidableEq ι] [DecidableEq χ] [Fintype ι] [Inhabited α] in
/-- The owner of a mutex runs: a sleeper has released the only one it had. -/
theorem owner_ready (orderly : Orderly program holds rank rests) (owned : Owned holds config)
    (waits : (config.threads j).Waits program j) (held : config.owner mutex = some j) :
    ∃ point, config.threads j = .ready point ∧ holds point mutex = true := by
  have holding := (owned.owner j mutex).mp held
  -- a sleeper would hold a second mutex
  have parked : ∀ {cond released point before}, program.code j before = .wait cond released point →
      (holds point mutex && decide (mutex ≠ released)) = true → False := by
    intro cond released point before code both
    rw [Bool.and_eq_true, decide_eq_true_eq] at both
    rw [(orderly.disciplined.wait code).2] at both
    exact both.2 ((orderly.wait code).1 mutex both.1)
  cases status : config.threads j with
  | ready point =>
      rw [status] at holding
      exact ⟨point, rfl, holding⟩
  | asleep cond released point =>
      rw [status] at waits holding
      obtain ⟨before, code⟩ := waits
      exact (parked code holding).elim
  | woken released point =>
      rw [status] at waits holding
      obtain ⟨cond, before, code⟩ := waits
      exact (parked code holding).elim

omit [DecidableEq ι] [DecidableEq χ] [Fintype ι] [Inhabited α] in
theorem Wants.not_resting (wants : Wants program config i mutex)
    (orderly : Orderly program holds rank rests) (waits : (config.threads i).Waits program i) :
    rests (config.point i) = false := by
  refine Bool.eq_false_of_not_eq_true fun resting => ?_
  obtain ⟨access, empty⟩ := orderly.rests (i := i) resting
  cases wants with
  | lock ready code | enter ready code =>
      rw [point_ready ready, code] at access
      cases access
  | resume woken =>
      rw [woken] at waits
      obtain ⟨cond, before, code⟩ := waits
      obtain ⟨held, same⟩ := orderly.disciplined.wait code
      rw [Config.point, woken, Status.point, same] at empty
      exact Bool.false_ne_true ((congrFun empty mutex).symm.trans held)

omit [DecidableEq ι] [DecidableEq χ] [Fintype ι] [Inhabited α] in
/-- No thread comes to rest behind a mutex. -/
theorem Arrives.resting (arrives : Arrives program config i point middle)
    (orderly : Orderly program holds rank rests) (waits : (config.threads i).Waits program i)
    (resting : rests point = true) : config.threads i = .ready point ∧ middle = config := by
  obtain ⟨-, empty⟩ := orderly.rests (i := i) resting
  have holding : ∀ mutex, holds point mutex ≠ true := fun mutex held =>
    Bool.false_ne_true ((congrFun empty mutex).symm.trans held)
  cases arrives with
  | here ready => exact ⟨ready, rfl⟩
  | @entering _ mutex _ _ enter =>
      refine absurd ?_ (holding mutex)
      rw [(orderly.disciplined.enter enter).2, Function.update_self]
  | @resuming mutex _ woken =>
      rw [woken] at waits
      obtain ⟨cond, before, wait⟩ := waits
      obtain ⟨held, same⟩ := orderly.disciplined.wait wait
      exact absurd ((congrFun same mutex).trans held) (holding mutex)

omit [Inhabited α] in
/-- An access that leaves a resting thread where it is changes nothing. -/
theorem Arrives.loops {input : α} (arrives : Arrives program config i point middle)
    (orderly : Orderly program holds rank rests) (waits : (config.threads i).Waits program i)
    (resting : rests point = true)
    (body : (program.code i point).body config.memory input = some (config.memory, point)) :
    program.step config (.run i input) = some config := by
  obtain ⟨ready, rfl⟩ := arrives.resting orderly waits resting
  refine (arrives.step (arrives.performs body)).trans (congrArg some ?_)
  rw [Config.set, ← ready, Function.update_eq_self]

/-- Where a thread waits for a mutex, some thread goes on. -/
theorem Wants.someone_moves [WellFoundedGT κ] (wants : Wants program config i mutex)
    (orderly : Orderly program holds rank rests) (owned : Owned holds config)
    (waits : ∀ i, (config.threads i).Waits program i) (defined : Defined program config) :
    ∃ j, CanMove program config j ∧ rests (config.point j) = false := by
  -- from a mutex to one of a higher rank, which its owner waits for
  induction place : rank mutex using WellFoundedGT.induction generalizing i mutex with
  | ind _ ih =>
      subst place
      cases free : config.owner mutex with
      | none => exact ⟨i, wants.canMove orderly (waits i) defined free, wants.not_resting orderly (waits i)⟩
      | some j =>
          obtain ⟨point, ready, held⟩ := owner_ready orderly owned (waits j) free
          have busy : ∀ {property : Prop}, (holds point = fun _ => false) → property := by
            intro property empty
            exact absurd (held.symm.trans (congrFun empty mutex)) Bool.true_eq_false.mp
          have awake : rests (config.point j) = false := by
            rw [point_ready ready]
            exact Bool.eq_false_of_not_eq_true fun resting => busy (orderly.rests (i := j) resting).2
          by_cases access : (program.code j point).isAccess = true
          · exact ⟨j, (Arrives.here ready).canMove defined access, awake⟩
          · cases code : program.code j point with
            | lock next after =>
                exact ih _ (orderly.lock code mutex held) (.lock ready code) rfl
            | enter next after =>
                exact ih _ ((orderly.enter code).1 mutex held) (.enter ready code) rfl
            | join => exact busy (orderly.join code)
            | halt => exact busy (orderly.halt code)
            | _ =>
                refine ⟨j, canMove_of_sync ready (Bool.eq_false_of_not_eq_true access) ?_ ?_ ?_ ?_, awake⟩
                all_goals simp [code]

/-- Where nobody can go on, every thread has its reason to rest. -/
theorem Settled.at_rest [WellFoundedGT κ] (settled : Settled program rests config)
    (orderly : Orderly program holds rank rests) (owned : Owned holds config)
    (waits : ∀ i, (config.threads i).Waits program i) (defined : Defined program config) (i : ι) :
    Rests program rests config i := by
  have nobody : ∀ {i mutex}, ¬ Wants program config i mutex := by
    intro i mutex wants
    obtain ⟨j, moves, awake⟩ := wants.someone_moves orderly owned waits defined
    exact Bool.false_ne_true (awake.symm.trans (settled j moves))
  cases status : config.threads i with
  | asleep cond mutex point => exact .asleep status
  | woken mutex point => exact absurd (.resume status) nobody
  | ready point =>
      have resting : CanMove program config i → rests point = true := by
        intro moves
        rw [← point_ready status]
        exact settled i moves
      by_cases access : (program.code i point).isAccess = true
      · exact .idle status (resting ((Arrives.here status).canMove defined access))
      · have other : CanMove program config i → Rests program rests config i := fun moves =>
          absurd (orderly.rests (i := i) (resting moves)).1 access
        cases code : program.code i point with
        | lock => exact absurd (.lock status code) nobody
        | enter => exact absurd (.enter status code) nobody
        | halt => exact .halted status code
        | join awaits next =>
            by_cases finished : ∀ j, awaits config.memory j (config.point j) = false
            · exact other ⟨.run i default, _, rfl, rfl, (Moves.join status code finished).step⟩
            · obtain ⟨j, awaited⟩ := not_forall.mp finished
              exact .joining j status code (Bool.eq_true_of_not_eq_false awaited)
        | _ =>
            refine other (canMove_of_sync status (Bool.eq_false_of_not_eq_true access) ?_ ?_ ?_ ?_)
            all_goals simp [code]

end Order

end ThreadPool.Foundation
