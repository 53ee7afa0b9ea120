import Mathlib.Algebra.GroupWithZero.Nat
import ThreadPool.Foundation.Accesses

namespace ThreadPool.Foundation

/-! # Launching threads from a table

A `main` that clears the shared variables and then, for each of `n` threads, stores its
index in a table and creates it with a pointer to its entry. The threads that run see the
others being started. A thread enters its routine under the id that it finds in its
entry, which is its own index; what a client proves, it proves of the table, the shared
variables and the points of the routines.
-/

variable {N : Nat} {σ π : Type}

/-- The parts that a program supplies: how `main` clears the variables of a thread, where a
routine begins, and its accesses, by id and point, to the table and the shared variables. -/
structure Launcher (N : Nat) (σ π : Type) where
  clear : Fin N → σ → σ
  first : π
  access : Fin N → π → (Fin N → Fin N) → σ → Option (σ × π)

structure Launched (N : Nat) (σ : Type) where
  shared : σ
  tId : Fin N → Fin N
  /-- The threads that `pthread_create` has started. -/
  started : Fin N → Bool

inductive MainPc (N : Nat) where
  | clear (i : Nat)
  | storeId (i : Nat)
  | create (i : Fin N)
  | done
deriving DecidableEq

inductive LaunchPc (N : Nat) (π : Type) where
  | main (pc : MainPc N)
  | unborn
  | begin
  | routine (id : Fin N) (pc : π)
deriving DecidableEq

/-- The thread of `main`, or the one that was created for an entry of the table. -/
abbrev LaunchThread (N : Nat) := Option (Fin N)

abbrev LaunchConfig (N : Nat) (σ π : Type) :=
  Config (LaunchThread N) Empty Empty (Launched N σ) (LaunchPc N π)

namespace Launcher

variable (launcher : Launcher N σ π)

/-- The loops of `main`; behind them it joins the threads. The input is the success of
`pthread_create`, whose result `main` ignores. -/
def main : MainPc N → Launched N σ → Bool → Option (Launched N σ × LaunchPc N π)
  | .clear i, memory, _ =>
      if below : i < N then
        some ({ memory with shared := launcher.clear ⟨i, below⟩ memory.shared }, .main (.clear (i + 1)))
      else some (memory, .main (.storeId 0))
  | .storeId i, memory, _ =>
      if below : i < N then
        some ({ memory with tId := Function.update memory.tId ⟨i, below⟩ ⟨i, below⟩ },
          .main (.create ⟨i, below⟩))
      else some (memory, .main .done)
  | .create i, memory, success =>
      some ({ memory with started := Function.update memory.started i (memory.started i || success) },
        .main (.storeId (i + 1)))
  | .done, _, _ => none

def code (me : LaunchThread N) :
    LaunchPc N π → Instr (LaunchThread N) Empty Empty (Launched N σ) (LaunchPc N π) Bool
  | .main pc => .act (launcher.main pc)
  | .unborn => .read fun memory _ => do
      let k ← me
      if memory.started k then some .begin else none
  | .begin => .read fun memory _ => do
      let k ← me
      return .routine (memory.tId k) launcher.first
  | .routine id pc => .act fun memory _ => do
      let (shared, next) ← launcher.access id pc memory.tId memory.shared
      return ({ memory with shared }, .routine id next)

def program : Program (LaunchThread N) Empty Empty (Launched N σ) (LaunchPc N π) Bool where
  code := launcher.code
  dormant _ := false

/-- The start of `main`; the table is zero. -/
def start [NeZero N] (_ : Launcher N σ π) (shared : σ) : LaunchConfig N σ π where
  memory := { shared, tId := fun _ => 0, started := fun _ => false }
  owner := Empty.rec
  threads
    | none => .ready (.main (.clear 0))
    | some _ => .ready .unborn

end Launcher

/-- What a client sees: the table, the shared variables, and where the routines are. -/
structure LaunchView (N : Nat) (σ π : Type) where
  table : Fin N → Fin N
  shared : σ
  point : Fin N → Option π

def LaunchPc.inside : LaunchPc N π → Option π
  | .routine _ pc => some pc
  | _ => none

def launchView (config : LaunchConfig N σ π) : LaunchView N σ π where
  table := config.memory.tId
  shared := config.memory.shared
  point k := (config.point (some k)).inside

/-- Thread `k` moves on. -/
def LaunchView.move (view : LaunchView N σ π) (k : Fin N) (shared : σ) (next : π) : LaunchView N σ π :=
  { view with shared, point := Function.update view.point k (some next) }

theorem move_point (view : LaunchView N σ π) (k other : Fin N) (shared : σ) (next : π) :
    (view.move k shared next).point other = if other = k then some next else view.point other :=
  Function.update_apply ..

/-- A step as a client sees it. -/
inductive LaunchView.Step (launcher : Launcher N σ π) (view : LaunchView N σ π) :
    Label (LaunchThread N) Bool → LaunchView N σ π → Prop
  | still {label} : Step launcher view label view
  | clear {label} (i) : (∀ k, view.point k = none) →
      Step launcher view label { view with shared := launcher.clear i view.shared }
  | store {label} (i) : Step launcher view label { view with table := Function.update view.table i i }
  | begin {label} (k) : view.point k = none → view.table k = k →
      Step launcher view label (view.move k view.shared launcher.first)
  | access {input} (k) {pc shared next} : view.point k = some pc →
      launcher.access k pc view.table view.shared = some (shared, next) →
      Step launcher view (.run (some k) input) (view.move k shared next)

namespace Launcher

/-- What a thread does: memory and point before and after. -/
inductive Steps (launcher : Launcher N σ π) (memory : Launched N σ) :
    LaunchThread N → LaunchPc N π → Launched N σ → LaunchPc N π → Prop
  | clear {me} (i : Fin N) : Steps launcher memory me (.main (.clear i))
      { memory with shared := launcher.clear i memory.shared } (.main (.clear (i + 1)))
  | cleared {me i} : Steps launcher memory me (.main (.clear i)) memory (.main (.storeId 0))
  | storeId {me} (i : Fin N) : Steps launcher memory me (.main (.storeId i))
      { memory with tId := Function.update memory.tId i i } (.main (.create i))
  | create {me i} (success) : Steps launcher memory me (.main (.create i))
      { memory with started := Function.update memory.started i (memory.started i || success) }
      (.main (.storeId (i + 1)))
  | created {me i} : Steps launcher memory me (.main (.storeId i)) memory (.main .done)
  | born {k} : memory.started k = true → Steps launcher memory (some k) .unborn memory .begin
  | begin {k} : Steps launcher memory (some k) .begin memory (.routine (memory.tId k) launcher.first)
  | access {me id pc shared next} : launcher.access id pc memory.tId memory.shared = some (shared, next) →
      Steps launcher memory me (.routine id pc) { memory with shared } (.routine id next)

/-- A thread is created behind the store of its id, so it runs under its own. -/
structure Control (memory : Launched N σ) (points : LaunchThread N → LaunchPc N π) : Prop where
  main : ∃ pc, points none = .main pc
  apart : ∀ k pc, points (some k) ≠ .main pc
  own : ∀ k id pc, points (some k) = .routine id pc → id = k
  unstarted : ∀ k, memory.started k = false → points (some k) = .unborn
  clearing : ∀ i, points none = .main (.clear i) → ∀ k, memory.started k = false
  table : ∀ k, memory.started k = true → memory.tId k = k
  creating : ∀ i, points none = .main (.create i) → memory.tId i = i

variable {launcher : Launcher N σ π} {memory after : Launched N σ}
  {points : LaunchThread N → LaunchPc N π} {me : LaunchThread N} {pc next : LaunchPc N π} {j : Fin N}

theorem plain (launcher : Launcher N σ π) : launcher.program.Plain := by
  intro me pc
  cases pc <;> exact ⟨rfl, nofun⟩

theorem code_steps {input : Bool} (body : (launcher.code me pc).body memory input = some (after, next)) :
    launcher.Steps memory me pc after next := by
  cases pc with
  | main pc =>
      simp only [code, Instr.body] at body
      cases pc with
      | clear i =>
          simp only [main] at body
          split at body
          case isTrue below => cases body; exact .clear ⟨i, below⟩
          case isFalse => cases body; exact .cleared
      | storeId i =>
          simp only [main] at body
          split at body
          case isTrue below => cases body; exact .storeId ⟨i, below⟩
          case isFalse => cases body; exact .created
      | create i => cases body; exact .create input
      | done => cases body
  | unborn =>
      cases me with
      | none => cases body
      | some k =>
          simp only [code, Instr.body, Option.bind_eq_bind, Option.bind_some] at body
          split at body
          case isTrue started => cases body; exact .born started
          case isFalse => cases body
  | begin =>
      cases me with
      | none => cases body
      | some k => cases body; exact .begin
  | routine id pc =>
      simp only [code, Instr.body, Option.bind_eq_bind, Option.bind_eq_some_iff, Option.pure_def,
        Option.some.injEq, Prod.mk.injEq] at body
      obtain ⟨⟨shared, point⟩, result, rfl, rfl⟩ := body
      exact .access result

theorem Control.main_step (control : Control memory points)
    (steps : launcher.Steps memory none (points none) after next) :
    Control after (Function.update points none next) := by
  have others : ∀ k, Function.update points none next (some k) = points (some k) :=
    fun k => Function.update_of_ne (Option.some_ne_none k) ..
  obtain ⟨pc, here⟩ := control.main
  rw [here] at steps
  constructor
  case main =>
    rw [Function.update_self]
    cases steps <;> exact ⟨_, rfl⟩
  case apart => simpa only [others] using control.apart
  case own => simpa only [others] using control.own
  case unstarted =>
    intro k idle
    rw [others]
    apply control.unstarted
    cases steps with
    | @create _ i success =>
        by_cases same : k = i
        · subst same
          simp only [Function.update_self, Bool.or_eq_false_iff] at idle
          exact idle.1
        · simpa [same] using idle
    | _ => exact idle
  case clearing =>
    rw [Function.update_self]
    intro i there
    cases steps <;> cases there
    exact control.clearing _ here
  case table =>
    intro k running
    cases steps with
    | storeId i =>
        by_cases same : k = i
        · simp [same]
        · simpa [same] using control.table k running
    | @create _ i success =>
        by_cases same : k = i
        · subst same
          exact control.creating k here
        · exact control.table k (by simpa [same] using running)
    | _ => exact control.table k running
  case creating =>
    rw [Function.update_self]
    intro i there
    cases steps <;> cases there
    simp

/-- A thread that runs has been created. -/
theorem Control.running (control : Control memory points) (alive : points (some j) ≠ .unborn) :
    memory.started j = true := by
  rw [← Bool.not_eq_false]
  exact fun idle => alive (control.unstarted j idle)

/-- A thread leaves the table and the flags of the others alone, and keeps its id. -/
theorem Control.thread_next (control : Control memory points)
    (steps : launcher.Steps memory (some j) (points (some j)) after next) :
    after.started = memory.started ∧ after.tId = memory.tId ∧ (∀ pc, next ≠ .main pc) ∧
      ∀ id pc, next = .routine id pc → id = j := by
  have apart := control.apart j
  have own := control.own j
  have running := control.running (j := j)
  generalize points (some j) = before at steps apart own running
  cases steps with
  | clear | cleared | storeId | create | created => exact absurd rfl (apart _)
  | born => exact ⟨rfl, rfl, nofun, nofun⟩
  | begin =>
      refine ⟨rfl, rfl, nofun, fun id pc there => ?_⟩
      cases there
      exact control.table j (running nofun)
  | access =>
      refine ⟨rfl, rfl, nofun, fun id pc there => ?_⟩
      cases there
      exact own _ _ rfl

theorem Control.thread_step (control : Control memory points)
    (steps : launcher.Steps memory (some j) (points (some j)) after next) :
    Control after (Function.update points (some j) next) := by
  obtain ⟨started, table, thread, own⟩ := control.thread_next steps
  have main : Function.update points (some j) next none = points none :=
    Function.update_of_ne (Option.some_ne_none j).symm ..
  have others : ∀ {k}, k ≠ j → Function.update points (some j) next (some k) = points (some k) :=
    fun other => Function.update_of_ne (by simpa using other) ..
  constructor
  case main => simpa only [main] using control.main
  case clearing => simpa only [main, started] using control.clearing
  case table => simpa only [started, table] using control.table
  case creating => simpa only [main, table] using control.creating
  case apart =>
    intro k pc
    by_cases here : k = j
    · subst here
      rw [Function.update_self]
      exact thread pc
    · rw [others here]
      exact control.apart k pc
  case own =>
    intro k id pc
    by_cases here : k = j
    · subst here
      rw [Function.update_self]
      exact own id pc
    · rw [others here]
      exact control.own k id pc
  case unstarted =>
    intro k idle
    rw [started] at idle
    have waits := control.unstarted k idle
    by_cases here : k = j
    · subst here
      rw [waits] at steps
      cases steps with
      | born runs => simp [idle] at runs
    · rwa [others here]

section Reachable

variable [NeZero N] {allowed : LaunchConfig N σ π → Label (LaunchThread N) Bool → Prop}
  {config final : LaunchConfig N σ π} {label : Label (LaunchThread N) Bool} {shared : σ}

theorem reachable_control (reaches : Reaches launcher.program allowed (launcher.start shared) config) :
    Control config.memory config.point := by
  refine reaches.accesses launcher.plain Control ?_ ?_
  · constructor
    case main => exact ⟨_, rfl⟩
    case unstarted | clearing => exact fun _ _ => by intros; rfl
    all_goals nofun
  · intro config me input written next _ control _ body
    cases me with
    | none => exact control.main_step (code_steps body)
    | some j => exact control.thread_step (code_steps body)

omit [NeZero N] in
/-- Every move is a step of what a client sees. -/
theorem moves_view (control : Control config.memory config.point)
    (moves : Moves launcher.program config label final) :
    (launchView config).Step launcher label (launchView final) := by
  obtain ⟨me, input, next, rfl, body, points⟩ := moves.accessed launcher.plain
  have steps := code_steps body
  have after : launchView final = ⟨final.memory.tId, final.memory.shared,
      fun k => (Function.update config.point me next (some k)).inside⟩ := by
    rw [← points]
    rfl
  rw [after]
  generalize final.memory = written at steps
  cases me with
  | none =>
      have others : (fun k => (Function.update config.point none next (some k)).inside) =
          (launchView config).point := by
        funext k
        rw [Function.update_of_ne (Option.some_ne_none k)]
        rfl
      rw [others]
      obtain ⟨pc, here⟩ := control.main
      rw [here] at steps
      cases steps with
      | clear i =>
          refine .clear i fun k => ?_
          change (config.point (some k)).inside = none
          rw [control.unstarted k (control.clearing _ here k)]
          rfl
      | storeId i => exact .store i
      | cleared | create | created => exact .still
  | some j =>
      have move : (fun k => (Function.update config.point (some j) next (some k)).inside) =
          Function.update (launchView config).point j next.inside := by
        funext k
        by_cases mover : k = j
        · subst mover
          simp
        · rw [Function.update_of_ne mover, Function.update_of_ne (by simpa using mover)]
          rfl
      rw [move]
      have apart := control.apart j
      have own := control.own j
      have running := control.running (j := j)
      have inside : (launchView config).point j = (config.point (some j)).inside := rfl
      generalize config.point (some j) = before at steps apart own running inside
      cases steps with
      | clear | cleared | storeId | create | created => exact absurd rfl (apart _)
      | born =>
          rw [show LaunchPc.inside .begin = (launchView config).point j from inside.symm,
            Function.update_eq_self]
          exact .still
      | begin => exact .begin j inside (control.table j (running nofun))
      | @access _ id pc shared point result =>
          cases own _ _ rfl
          exact .access j inside result

omit [NeZero N] in
/-- An id that is missing in the table belongs to a thread that does not run. -/
theorem Control.named (control : Control config.memory config.point) (k : Fin N) :
    (launchView config).point k = none ∨ (launchView config).table k = k := by
  cases started : config.memory.started k with
  | false =>
      left
      change (config.point (some k)).inside = none
      rw [control.unstarted k started]
      rfl
  | true => exact .inr (control.table k started)

/-- What the client's steps keep holds of what it sees in every run. -/
theorem invariant (reaches : Reaches launcher.program allowed (launcher.start shared) config)
    (property : LaunchView N σ π → Prop) (initial : property ⟨fun _ => 0, shared, fun _ => none⟩)
    (kept : ∀ {config label after}, Reaches launcher.program allowed (launcher.start shared) config →
      (∀ k, (launchView config).point k = none ∨ (launchView config).table k = k) →
      property (launchView config) → allowed config label →
      (launchView config).Step launcher label after → property after) :
    property (launchView config) := by
  refine reaches.invariant (fun config => property (launchView config)) initial ?_
  intro config label after reached holds permitted moves
  have control := reachable_control reached
  exact kept reached control.named holds permitted (moves_view control moves)

end Reachable

end Launcher

end ThreadPool.Foundation
