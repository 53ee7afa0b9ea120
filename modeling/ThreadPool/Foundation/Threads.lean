import Mathlib.Data.Fintype.Basic
import Mathlib.Logic.Function.Basic

namespace ThreadPool.Foundation

/-! # Threads with mutexes and condition variables

A program gives the instruction of every program point. A step of a thread is
one access to the shared memory, one synchronisation, or the acquisition of a
mutex together with the first access it protects. A condition variable wakes the
thread that a signal picks; any sleeper may also wake on its own.
-/

/-- The instruction at a program point: `ι` are the threads, `μ` the mutexes, `χ`
the condition variables, `σ` the memory, `π` the program points and `α` the
inputs that a step receives from its environment. -/
inductive Instr (ι μ χ σ π α : Type) where
  | read (next : σ → α → Option π)
  | act (run : σ → α → Option (σ × π))
  | lock (mutex : μ) (next : π)
  /-- Acquire the mutex and perform the access at `next` in the same step. -/
  | enter (mutex : μ) (next : π)
  | unlock (mutex : μ) (next : π)
  /-- Release the mutex and sleep; a woken thread enters the mutex again at `next`. -/
  | wait (cond : χ) (mutex : μ) (next : π)
  | signal (cond : χ) (next : π)
  | broadcast (cond : χ) (next : π)
  /-- Create a thread at `start`; the creation may fail. -/
  | fork (start : π) (next : σ → Option ι → σ × π)
  /-- Go on when no thread is awaited any more. -/
  | join (awaits : σ → ι → π → Bool) (next : π)
  | halt

structure Program (ι μ χ σ π α : Type) where
  code : ι → π → Instr ι μ χ σ π α
  /-- The points at which a thread has not been created yet. -/
  dormant : π → Bool

inductive Status (μ χ π : Type) where
  | ready (point : π)
  | asleep (cond : χ) (mutex : μ) (point : π)
  | woken (mutex : μ) (point : π)

structure Config (ι μ χ σ π : Type) where
  memory : σ
  owner : μ → Option ι
  threads : ι → Status μ χ π

/-- A thread runs its next instruction, runs it with a chosen partner (the thread
a signal wakes, or the thread a fork creates), or wakes without a signal. -/
inductive Label (ι α : Type) where
  | run (thread : ι) (input : α)
  | pick (thread : ι) (target : Option ι)
  | wake (thread : ι)

variable {ι μ χ σ π α : Type}

/-- The access to memory that an instruction performs. -/
def Instr.body : Instr ι μ χ σ π α → σ → α → Option (σ × π)
  | .read next, memory, input => (next memory input).map fun point => (memory, point)
  | .act run, memory, input => run memory input
  | _, _, _ => none

/-- The point behind a synchronisation, which leaves the memory as it is. -/
def Instr.sync : Instr ι μ χ σ π α → Option π
  | .lock _ next => some next
  | .enter _ next => some next
  | .unlock _ next => some next
  | .wait _ _ next => some next
  | .signal _ next => some next
  | .broadcast _ next => some next
  | .join _ next => some next
  | _ => none

/-- The program point of a thread; for a sleeper, the one it will continue at. -/
def Status.point : Status μ χ π → π
  | .ready point => point
  | .asleep _ _ point => point
  | .woken _ point => point

def Status.sleepsOn [DecidableEq χ] (cond : χ) : Status μ χ π → Bool
  | .asleep other _ _ => decide (other = cond)
  | _ => false

/-- The effect of a broadcast on one thread. -/
def Status.rouse [DecidableEq χ] (cond : χ) : Status μ χ π → Status μ χ π
  | .asleep other mutex point => if other = cond then .woken mutex point else .asleep other mutex point
  | status => status

theorem sleepsOn_asleep [DecidableEq χ] {cond : χ} {status : Status μ χ π}
    (sleeps : status.sleepsOn cond = true) : ∃ mutex, status = .asleep cond mutex status.point := by
  cases status with
  | asleep other mutex point =>
      cases of_decide_eq_true sleeps
      exact ⟨mutex, rfl⟩
  | ready | woken => cases sleeps

theorem Status.rouse_cases [DecidableEq χ] (cond : χ) (status : Status μ χ π) :
    status.rouse cond = status ∨
      ∃ mutex point, status = .asleep cond mutex point ∧ status.rouse cond = .woken mutex point := by
  cases status with
  | ready | woken => exact .inl rfl
  | asleep other mutex point =>
      by_cases same : other = cond
      · subst same
        exact .inr ⟨mutex, point, rfl, if_pos rfl⟩
      · exact .inl (if_neg same)

theorem point_rouse [DecidableEq χ] (cond : χ) (status : Status μ χ π) :
    (status.rouse cond).point = status.point := by
  rcases status.rouse_cases cond with same | ⟨mutex, point, rfl, woken⟩
  · rw [same]
  · rw [woken]
    rfl

namespace Config

variable [DecidableEq ι]

def set (config : Config ι μ χ σ π) (i : ι) (status : Status μ χ π) : Config ι μ χ σ π :=
  { config with threads := Function.update config.threads i status }

def take [DecidableEq μ] (config : Config ι μ χ σ π) (mutex : μ) (i : ι) : Config ι μ χ σ π :=
  { config with owner := Function.update config.owner mutex (some i) }

def release [DecidableEq μ] (config : Config ι μ χ σ π) (mutex : μ) : Config ι μ χ σ π :=
  { config with owner := Function.update config.owner mutex none }

def rouseAll [DecidableEq χ] (config : Config ι μ χ σ π) (cond : χ) : Config ι μ χ σ π :=
  { config with threads := fun j => (config.threads j).rouse cond }

variable (config : Config ι μ χ σ π) (i : ι) (status : Status μ χ π)

@[simp] theorem set_memory : (config.set i status).memory = config.memory := rfl

@[simp] theorem set_threads_self : (config.set i status).threads i = status :=
  Function.update_self ..

theorem set_threads_of_ne {i j : ι} (different : j ≠ i) :
    (config.set i status).threads j = config.threads j :=
  Function.update_of_ne different ..

/-- A ready thread does not notice that a sleeper wakes up. -/
theorem wake_ready {config : Config ι μ χ σ π} {i j : ι} {cond : χ} {mutex : μ} {point resume : π}
    (ready : config.threads i = .ready point)
    (sleeper : config.threads j = .asleep cond mutex resume) :
    (config.set j (.woken mutex resume)).threads i = .ready point := by
  have different : i ≠ j := by
    intro same
    rw [same, sleeper] at ready
    cases ready
  rw [set_threads_of_ne _ _ different, ready]

omit [DecidableEq ι] in
theorem rouseAll_ready [DecidableEq χ] {config : Config ι μ χ σ π} {i : ι} {point : π}
    (ready : config.threads i = .ready point) (cond : χ) :
    (config.rouseAll cond).threads i = .ready point := by
  simp [rouseAll, ready, Status.rouse]

theorem set_set (later : Status μ χ π) : (config.set i status).set i later = config.set i later := by
  simp [set]

end Config

section Step

variable [DecidableEq ι] [DecidableEq μ] [DecidableEq χ] [Fintype ι]

namespace Program

/-- Thread `i` performs the access at `point`. -/
def perform (program : Program ι μ χ σ π α) (config : Config ι μ χ σ π) (i : ι) (point : π)
    (input : α) : Option (Config ι μ χ σ π) := do
  let (memory, next) ← (program.code i point).body config.memory input
  return { config.set i (.ready next) with memory }

def runStep (program : Program ι μ χ σ π α) (config : Config ι μ χ σ π) (i : ι) (point : π)
    (input : α) : Option (Config ι μ χ σ π) :=
  match program.code i point with
  | .lock mutex next =>
      if config.owner mutex = none then some ((config.take mutex i).set i (.ready next)) else none
  | .enter mutex next =>
      if config.owner mutex = none then program.perform (config.take mutex i) i next input else none
  | .unlock mutex next => some ((config.release mutex).set i (.ready next))
  | .wait cond mutex next => some ((config.release mutex).set i (.asleep cond mutex next))
  | .broadcast cond next => some ((config.rouseAll cond).set i (.ready next))
  | .join awaits next =>
      if ∀ j, awaits config.memory j (config.threads j).point = false then
        some (config.set i (.ready next))
      else none
  | _ => program.perform config i point input

def pickStep (program : Program ι μ χ σ π α) (config : Config ι μ χ σ π) (i : ι) (point : π)
    (target : Option ι) : Option (Config ι μ χ σ π) :=
  match program.code i point, target with
  | .signal cond next, none =>
      if ∀ j, (config.threads j).sleepsOn cond = false then some (config.set i (.ready next)) else none
  | .signal cond next, some j =>
      if (config.threads j).sleepsOn cond then
        some ((config.set j ((config.threads j).rouse cond)).set i (.ready next))
      else none
  | .fork _ next, none =>
      let (memory, point) := next config.memory none
      some { config.set i (.ready point) with memory }
  | .fork start next, some child =>
      match config.threads child with
      | .ready idle =>
          if program.dormant idle = true ∧ child ≠ i then
            let (memory, point) := next config.memory (some child)
            some { (config.set child (.ready start)).set i (.ready point) with memory }
          else none
      | _ => none
  | _, _ => none

def step (program : Program ι μ χ σ π α) (config : Config ι μ χ σ π) :
    Label ι α → Option (Config ι μ χ σ π)
  | .run i input =>
      match config.threads i with
      | .ready point => program.runStep config i point input
      | .woken mutex point =>
          if config.owner mutex = none then program.perform (config.take mutex i) i point input else none
      | .asleep .. => none
  | .pick i target =>
      match config.threads i with
      | .ready point => program.pickStep config i point target
      | _ => none
  | .wake j =>
      match config.threads j with
      | .asleep _ mutex point => some (config.set j (.woken mutex point))
      | _ => none

end Program

/-- Thread `i` is about to perform the access at a point, having acquired the
mutex that protects it in the same step if it did not hold it before. -/
inductive Arrives (program : Program ι μ χ σ π α) (config : Config ι μ χ σ π) (i : ι) :
    π → Config ι μ χ σ π → Prop
  | here {point} : config.threads i = .ready point → Arrives program config i point config
  | entering {point mutex next} : config.threads i = .ready point →
      program.code i point = .enter mutex next → config.owner mutex = none →
      Arrives program config i next (config.take mutex i)
  | resuming {mutex next} : config.threads i = .woken mutex next → config.owner mutex = none →
      Arrives program config i next (config.take mutex i)

/-- Everything that a step can do. -/
inductive Moves (program : Program ι μ χ σ π α) (config : Config ι μ χ σ π) :
    Label ι α → Config ι μ χ σ π → Prop
  | read {i point middle input choose next} : Arrives program config i point middle →
      program.code i point = .read choose → choose config.memory input = some next →
      Moves program config (.run i input) (middle.set i (.ready next))
  | act {i point middle input run memory next} : Arrives program config i point middle →
      program.code i point = .act run → run config.memory input = some (memory, next) →
      Moves program config (.run i input) { middle.set i (.ready next) with memory }
  | lock {i point input mutex next} : config.threads i = .ready point →
      program.code i point = .lock mutex next → config.owner mutex = none →
      Moves program config (.run i input) ((config.take mutex i).set i (.ready next))
  | unlock {i point input mutex next} : config.threads i = .ready point →
      program.code i point = .unlock mutex next →
      Moves program config (.run i input) ((config.release mutex).set i (.ready next))
  | wait {i point input cond mutex next} : config.threads i = .ready point →
      program.code i point = .wait cond mutex next →
      Moves program config (.run i input) ((config.release mutex).set i (.asleep cond mutex next))
  | broadcast {i point input cond next} : config.threads i = .ready point →
      program.code i point = .broadcast cond next →
      Moves program config (.run i input) ((config.rouseAll cond).set i (.ready next))
  | join {i point input awaits next} : config.threads i = .ready point →
      program.code i point = .join awaits next →
      (∀ j, awaits config.memory j (config.threads j).point = false) →
      Moves program config (.run i input) (config.set i (.ready next))
  | signal {i point cond next j mutex resume} : config.threads i = .ready point →
      program.code i point = .signal cond next → config.threads j = .asleep cond mutex resume →
      Moves program config (.pick i (some j))
        ((config.set j (.woken mutex resume)).set i (.ready next))
  | signalNone {i point cond next} : config.threads i = .ready point →
      program.code i point = .signal cond next →
      (∀ j, (config.threads j).sleepsOn cond = false) →
      Moves program config (.pick i none) (config.set i (.ready next))
  | create {i point start next child idle memory after} : config.threads i = .ready point →
      program.code i point = .fork start next → config.threads child = .ready idle →
      program.dormant idle = true → child ≠ i →
      next config.memory (some child) = (memory, after) →
      Moves program config (.pick i (some child))
        { (config.set child (.ready start)).set i (.ready after) with memory }
  | createFails {i point start next memory after} : config.threads i = .ready point →
      program.code i point = .fork start next → next config.memory none = (memory, after) →
      Moves program config (.pick i none) { config.set i (.ready after) with memory }
  | spurious {j cond mutex point} : config.threads j = .asleep cond mutex point →
      Moves program config (.wake j) (config.set j (.woken mutex point))

variable {program : Program ι μ χ σ π α} {config after middle : Config ι μ χ σ π} {label : Label ι α}
  {i : ι} {point : π} {input : α}

omit [DecidableEq ι] [DecidableEq χ] [Fintype ι] in
theorem Arrives.memory_eq (arrives : Arrives program config i point middle) :
    middle.memory = config.memory := by
  cases arrives <;> rfl

omit [DecidableEq ι] [DecidableEq χ] [Fintype ι] in
theorem Arrives.threads_eq (arrives : Arrives program config i point middle) :
    middle.threads = config.threads := by
  cases arrives <;> rfl

omit [DecidableEq χ] [Fintype ι] in
/-- The configuration behind an access that only reads. -/
theorem Arrives.set_eq (arrives : Arrives program config i point middle) (status : Status μ χ π) :
    middle.set i status =
      ⟨config.memory, middle.owner, Function.update config.threads i status⟩ := by
  cases arrives <;> rfl

omit [DecidableEq χ] [Fintype ι] in
/-- The configuration behind an access that writes. -/
theorem Arrives.write_eq (arrives : Arrives program config i point middle) (status : Status μ χ π)
    (memory : σ) : { middle.set i status with memory } =
      (⟨memory, middle.owner, Function.update config.threads i status⟩ : Config ι μ χ σ π) := by
  cases arrives <;> rfl

omit [Fintype ι] in
theorem perform_moves (arrives : Arrives program config i point middle)
    (performed : program.perform middle i point input = some after) :
    Moves program config (.run i input) after := by
  simp only [Program.perform, arrives.memory_eq, Option.bind_eq_bind, Option.pure_def,
    Option.bind_eq_some_iff, Option.some.injEq] at performed
  obtain ⟨⟨written, next⟩, result, rfl⟩ := performed
  cases code : program.code i point with
  | read choose =>
      simp only [code, Instr.body, Option.map_eq_some_iff, Prod.mk.injEq] at result
      obtain ⟨chosen, result, rfl, rfl⟩ := result
      rw [← arrives.memory_eq]
      exact .read arrives code result
  | act run =>
      simp only [code, Instr.body] at result
      exact .act arrives code result
  | _ => simp [code, Instr.body] at result

theorem runStep_moves (ready : config.threads i = .ready point)
    (stepped : program.runStep config i point input = some after) :
    Moves program config (.run i input) after := by
  unfold Program.runStep at stepped
  split at stepped
  case h_1 code =>
    split at stepped
    case isTrue free =>
      cases stepped
      exact .lock ready code free
    case isFalse => cases stepped
  case h_2 code =>
    split at stepped
    case isTrue free => exact perform_moves (.entering ready code free) stepped
    case isFalse => cases stepped
  case h_3 code =>
    cases stepped
    exact .unlock ready code
  case h_4 code =>
    cases stepped
    exact .wait ready code
  case h_5 code =>
    cases stepped
    exact .broadcast ready code
  case h_6 code =>
    split at stepped
    case isTrue finished =>
      cases stepped
      exact .join ready code finished
    case isFalse => cases stepped
  case h_7 => exact perform_moves (.here ready) stepped

theorem pickStep_moves {target : Option ι} (ready : config.threads i = .ready point)
    (stepped : program.pickStep config i point target = some after) :
    Moves program config (.pick i target) after := by
  unfold Program.pickStep at stepped
  split at stepped
  case h_1 code =>
    split at stepped
    case isTrue nobody =>
      cases stepped
      exact .signalNone ready code nobody
    case isFalse => cases stepped
  case h_2 j code =>
    cases sleeper : config.threads j with
    | asleep cond mutex resume =>
        simp only [sleeper, Status.sleepsOn, Status.rouse, decide_eq_true_eq] at stepped
        split at stepped
        case isTrue same =>
          subst same
          simp only [Option.some.injEq] at stepped
          rw [← stepped]
          exact .signal ready code sleeper
        case isFalse => cases stepped
    | ready => simp [sleeper, Status.sleepsOn] at stepped
    | woken => simp [sleeper, Status.sleepsOn] at stepped
  case h_3 code =>
    cases stepped
    exact .createFails ready code rfl
  case h_4 child code =>
    split at stepped
    case h_1 idle =>
      split at stepped
      case isTrue allowed =>
        cases stepped
        exact .create ready code idle allowed.1 allowed.2 rfl
      case isFalse => cases stepped
    case h_2 => cases stepped
  case h_5 => cases stepped

theorem step_moves (stepped : program.step config label = some after) :
    Moves program config label after := by
  cases label with
  | run i input =>
      cases status : config.threads i with
      | ready point =>
          simp only [Program.step, status] at stepped
          exact runStep_moves status stepped
      | woken mutex point =>
          simp only [Program.step, status] at stepped
          split at stepped
          case isTrue free => exact perform_moves (.resuming status free) stepped
          case isFalse => cases stepped
      | asleep => simp [Program.step, status] at stepped
  | pick i target =>
      cases status : config.threads i with
      | ready point =>
          simp only [Program.step, status] at stepped
          exact pickStep_moves status stepped
      | woken => simp [Program.step, status] at stepped
      | asleep => simp [Program.step, status] at stepped
  | wake j =>
      cases status : config.threads j with
      | asleep cond mutex point =>
          simp only [Program.step, status, Option.some.injEq] at stepped
          rw [← stepped]
          exact .spurious status
      | ready => simp [Program.step, status] at stepped
      | woken => simp [Program.step, status] at stepped

end Step

end ThreadPool.Foundation
