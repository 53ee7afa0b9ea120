import Mathlib.Algebra.Order.BigOperators.Group.Finset
import ThreadPool.Foundation.Progress

namespace ThreadPool.Foundation

/-! # Signals behind the critical section

A producer that signals behind its critical section may wake a consumer whose item has been
taken in between. No item is forgotten all the same, if every item in store is matched by a
signal to come or by a consumer that was woken and has not looked yet.
-/

variable {ι μ χ σ π α : Type}

/-- `wakes` counts the wake-ups on `cond` that a thread accounts for: the signal that it is to
send, or its own if it has been woken. -/
structure SignalProtocol (program : Program ι μ χ σ π α) (cond : χ) (load : σ → Nat)
    (wakes : Status μ χ π → Nat) : Prop where
  asleep : ∀ {other mutex point}, wakes (.asleep other mutex point) = 0
  woken : ∀ {i before mutex point}, program.code i before = .wait cond mutex point →
    1 ≤ wakes (.woken mutex point)
  one : ∀ {point}, wakes (.ready point) ≤ 1
  hop : ∀ {i point next}, (program.code i point).sync = some next →
    program.code i point ≠ .signal cond next → wakes (.ready point) ≤ wakes (.ready next)
  wait : ∀ {i point other mutex next}, program.code i point = .wait other mutex next →
    wakes (.ready point) = 0
  fork : ∀ {i point start next memory target written final}, program.code i point = .fork start next →
    next memory target = (written, final) →
    load written ≤ load memory ∧ wakes (.ready point) ≤ wakes (.ready final)
  dormant : ∀ {idle}, program.dormant idle = true → wakes (.ready idle) = 0

section Steps

variable [DecidableEq χ] [Fintype ι] {program : Program ι μ χ σ π α} {cond : χ} {load : σ → Nat}
  {wakes : Status μ χ π → Nat} {config after : Config ι μ χ σ π} {label : Label ι α} {i : ι} {point : π}

/-- While a thread sleeps on `cond`, the wake-ups in progress cover the store. -/
def Covered (cond : χ) (load : σ → Nat) (wakes : Status μ χ π → Nat) (config : Config ι μ χ σ π) : Prop :=
  (∃ i, (config.threads i).sleepsOn cond = true) → load config.memory ≤ config.census wakes

theorem covered_rouseAll (protocol : SignalProtocol program cond load wakes)
    (covered : Covered cond load wakes config) (other : χ) :
    Covered cond load wakes (config.rouseAll other) := by
  rintro ⟨i, asleep⟩
  have before : (config.threads i).sleepsOn cond = true := by
    change ((config.threads i).rouse other).sleepsOn cond = true at asleep
    rcases (config.threads i).rouse_cases other with same | ⟨mutex, point, _, woken⟩
    · rwa [same] at asleep
    · rw [woken] at asleep
      cases asleep
  refine (covered ⟨i, before⟩).trans (Finset.sum_le_sum fun j _ => ?_)
  change wakes (config.threads j) ≤ wakes ((config.threads j).rouse other)
  rcases (config.threads j).rouse_cases other with same | ⟨mutex, point, sleeper, _⟩
  · rw [same]
  · rw [sleeper, protocol.asleep]
    exact Nat.zero_le _

variable [DecidableEq ι]

omit [Fintype ι] in
theorem sleeper_of_update {status : Status μ χ π} (awake : status.sleepsOn cond = false)
    (asleep : ∃ j, (Function.update config.threads i status j).sleepsOn cond = true) :
    ∃ j, (config.threads j).sleepsOn cond = true := by
  obtain ⟨j, asleep⟩ := asleep
  rw [Function.update_apply] at asleep
  split at asleep
  case isTrue =>
    rw [awake] at asleep
    cases asleep
  case isFalse => exact ⟨j, asleep⟩

/-- One thread changes its status, and the memory with it. -/
theorem Covered.set {status : Status μ χ π} {memory : σ} {owner : μ → Option ι}
    (covered : Covered cond load wakes config) (awake : status.sleepsOn cond = false)
    (enough : load memory + wakes (config.threads i) ≤ load config.memory + wakes status) :
    Covered cond load wakes ⟨memory, owner, Function.update config.threads i status⟩ := by
  intro asleep
  have bound := covered (sleeper_of_update awake asleep)
  have count := census_set wakes config i status
  change load memory ≤ (config.set i status).census wakes
  omega

theorem Covered.goto {owner : μ → Option ι} {next : π} (covered : Covered cond load wakes config)
    (ready : config.threads i = .ready point) (enough : wakes (.ready point) ≤ wakes (.ready next)) :
    Covered cond load wakes ⟨config.memory, owner, Function.update config.threads i (.ready next)⟩ := by
  apply covered.set rfl
  rw [ready]
  omega

theorem Covered.wake {other : χ} {mutex : μ} (covered : Covered cond load wakes config)
    (protocol : SignalProtocol program cond load wakes)
    (sleeper : config.threads i = .asleep other mutex point) :
    Covered cond load wakes (config.set i (.woken mutex point)) := by
  apply covered.set rfl
  rw [sleeper, protocol.asleep]
  omega

/-- The signal of a producer turns into a consumer on its way. -/
theorem Covered.signal {j : ι} {mutex : μ} {next resume : π} (covered : Covered cond load wakes config)
    (protocol : SignalProtocol program cond load wakes) (waits : (config.threads j).Waits program j)
    (ready : config.threads i = .ready point) (sleeper : config.threads j = .asleep cond mutex resume) :
    Covered cond load wakes ((config.set j (.woken mutex resume)).set i (.ready next)) := by
  rw [sleeper] at waits
  obtain ⟨before, wait⟩ := waits
  intro _
  have bound := covered ⟨j, by rw [sleeper]; exact decide_eq_true rfl⟩
  have woken := census_set wakes config j (.woken mutex resume)
  have moved := census_set wakes (config.set j (.woken mutex resume)) i (.ready next)
  rw [sleeper, protocol.asleep] at woken
  rw [Config.wake_ready ready sleeper] at moved
  have own := protocol.woken wait
  have most := @protocol.one point
  change load config.memory ≤ _
  omega

/-- A step keeps the store covered, if its access does and nobody goes to sleep in front of a
store that is not empty. -/
theorem Moves.covered [DecidableEq μ] (moves : Moves program config label after)
    (protocol : SignalProtocol program cond load wakes) (waits : ∀ i, (config.threads i).Waits program i)
    (access : ∀ {i point middle input written next}, Arrives program config i point middle →
      (program.code i point).body config.memory input = some (written, next) →
      load written + wakes (config.threads i) ≤ load config.memory + wakes (.ready next) ∨ load written = 0)
    (sleep : ∀ {i point mutex next}, config.threads i = .ready point →
      program.code i point = .wait cond mutex next → load config.memory = 0)
    (covered : Covered cond load wakes config) : Covered cond load wakes after := by
  have body : ∀ {i point middle input written next}, Arrives program config i point middle →
      (program.code i point).body config.memory input = some (written, next) →
      ∀ owner, Covered cond load wakes
        ⟨written, owner, Function.update config.threads i (.ready next)⟩ := by
    intro i point middle input written next arrives result owner
    rcases access arrives result with enough | empty
    · exact covered.set rfl enough
    · exact fun _ => empty.le.trans (Nat.zero_le _)
  cases moves with
  | @read i point middle input choose next arrives code result =>
      have same : (program.code i point).body config.memory input = some (config.memory, next) := by
        rw [code, Instr.body, result]
        rfl
      rw [arrives.set_eq]
      exact body arrives same _
  | @act i point middle input run memory next arrives code result =>
      have same : (program.code i point).body config.memory input = some (memory, next) := by
        rw [code]
        exact result
      rw [arrives.write_eq]
      exact body arrives same _
  | lock ready code | unlock ready code | join ready code =>
      refine covered.goto ready (protocol.hop (congrArg Instr.sync code) fun signal => ?_)
      rw [code] at signal
      cases signal
  | @wait i point input other mutex next ready code =>
      by_cases same : other = cond
      · subst same
        exact fun _ => (sleep ready code).le.trans (Nat.zero_le _)
      · apply covered.set
        · exact decide_eq_false same
        · rw [ready, protocol.wait code]
          exact Nat.le_add_right _ _
  | @broadcast i point input other next ready code =>
      refine (covered_rouseAll protocol covered other).goto (Config.rouseAll_ready ready other)
        (protocol.hop (congrArg Instr.sync code) fun signal => ?_)
      rw [code] at signal
      cases signal
  | @signal i point other next j mutex resume ready code sleeper =>
      by_cases same : other = cond
      · subst same
        exact covered.signal protocol (waits j) ready sleeper
      · refine (covered.wake protocol sleeper).goto (Config.wake_ready ready sleeper)
          (protocol.hop (congrArg Instr.sync code) fun signal => ?_)
        rw [code] at signal
        cases signal
        exact same rfl
  | @signalNone i point other next ready code nobody =>
      by_cases same : other = cond
      · subst same
        intro asleep
        obtain ⟨j, sleeps⟩ := sleeper_of_update rfl asleep
        rw [nobody j] at sleeps
        cases sleeps
      · refine covered.goto ready (protocol.hop (congrArg Instr.sync code) fun signal => ?_)
        rw [code] at signal
        cases signal
        exact same rfl
  | @create i point start next child idle memory final ready code dormant isDormant different result =>
      obtain ⟨stored, enough⟩ := protocol.fork code result
      have born : Covered cond load wakes (config.set child (.ready start)) := by
        refine covered.goto dormant ?_
        rw [protocol.dormant isDormant]
        exact Nat.zero_le _
      apply born.set rfl
      rw [Config.set_threads_of_ne _ _ different.symm, ready]
      exact Nat.add_le_add stored enough
  | @createFails i point start next memory final ready code result =>
      obtain ⟨stored, enough⟩ := protocol.fork code result
      apply covered.set rfl
      rw [ready]
      exact Nat.add_le_add stored enough
  | spurious sleeper => exact covered.wake protocol sleeper

end Steps

end ThreadPool.Foundation
