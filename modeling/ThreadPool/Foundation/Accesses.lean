import ThreadPool.Foundation.Reachability

namespace ThreadPool.Foundation

/-! # Programs whose steps are single instructions

In a flat program no step combines an acquisition with an access and no thread is created,
so every step is one instruction of one thread. In a plain program the threads share
memory and nothing else: no mutex, no condition variable, and a step is one access.
-/

def Label.thread {ι α : Type} : Label ι α → ι
  | .run thread _ => thread
  | .pick thread _ => thread
  | .wake thread => thread

section Flat

variable {ι μ χ σ π α : Type} [DecidableEq ι]

/-- No instruction enters a mutex together with an access or creates a thread. -/
def Program.Flat (program : Program ι μ χ σ π α) : Prop :=
  ∀ i p, (∀ mutex next, program.code i p ≠ .enter mutex next) ∧
    ∀ start next, program.code i p ≠ .fork start next

/-- A step of a flat program in the memory and in the program points. -/
inductive Stride (program : Program ι μ χ σ π α) (config : Config ι μ χ σ π) (label : Label ι α)
    (after : Config ι μ χ σ π) : Prop
  | still : after.memory = config.memory → after.point = config.point →
      Stride program config label after
  | sync {next} : (program.code label.thread (config.point label.thread)).sync = some next →
      after.memory = config.memory → after.point = Function.update config.point label.thread next →
      Stride program config label after
  | access {input next} : label = .run label.thread input →
      (program.code label.thread (config.point label.thread)).body config.memory input =
        some (after.memory, next) →
      after.point = Function.update config.point label.thread next →
      Stride program config label after

variable [DecidableEq μ] [DecidableEq χ] {program : Program ι μ χ σ π α}
  {config middle after : Config ι μ χ σ π} {label : Label ι α}

omit [DecidableEq ι] [DecidableEq χ] in
theorem Arrives.flat {i : ι} {p : π} (flat : program.Flat)
    (arrives : Arrives program config i p middle) : config.point i = p := by
  cases arrives with
  | here ready => exact point_ready ready
  | entering ready code => exact absurd code ((flat _ _).1 _ _)
  | resuming woken => rw [Config.point, woken]; rfl

theorem Moves.stride (flat : program.Flat) (moves : Moves program config label after) :
    Stride program config label after := by
  have hop : ∀ {i p next}, config.threads i = .ready p → (program.code i p).sync = some next →
      (program.code i (config.point i)).sync = some next := by
    intro i p next ready sync
    rw [point_ready ready, sync]
  cases moves with
  | @read i p middle input choose next arrives code result =>
      have body : (program.code i (config.point i)).body config.memory input =
          some (middle.memory, next) := by
        rw [arrives.flat flat, code, arrives.memory_eq]
        simp [Instr.body, result]
      exact .access rfl body (arrives.point_set _)
  | @act i p middle input run written next arrives code result =>
      have body : (program.code i (config.point i)).body config.memory input =
          some (written, next) := by
        rw [arrives.flat flat, code]
        exact result
      exact .access rfl body (arrives.point_set _)
  | lock ready code => exact .sync (hop ready (congrArg Instr.sync code)) rfl (point_set ..)
  | unlock ready code => exact .sync (hop ready (congrArg Instr.sync code)) rfl (point_set ..)
  | wait ready code => exact .sync (hop ready (congrArg Instr.sync code)) rfl (point_set ..)
  | broadcast ready code =>
      refine .sync (hop ready (congrArg Instr.sync code)) rfl ?_
      rw [point_set, point_rouseAll]
      rfl
  | join ready code => exact .sync (hop ready (congrArg Instr.sync code)) rfl (point_set ..)
  | signal ready code sleeper =>
      refine .sync (hop ready (congrArg Instr.sync code)) rfl ?_
      rw [point_set, point_wake sleeper]
      rfl
  | signalNone ready code => exact .sync (hop ready (congrArg Instr.sync code)) rfl (point_set ..)
  | create ready code => exact absurd code ((flat _ _).2 _ _)
  | createFails ready code => exact absurd code ((flat _ _).2 _ _)
  | spurious sleeper => exact .still rfl (point_wake sleeper)

omit [DecidableEq μ] [DecidableEq χ] in
/-- What the threads carry together changes by what the moving thread carries. -/
theorem total_moved {M : Type*} [AddCommMonoid M] [Fintype ι] {i : ι} {next : π} (share : π → M)
    (points : after.point = Function.update config.point i next) :
    ∃ rest, config.total share = share (config.point i) + rest ∧
      after.total share = share next + rest := by
  refine ⟨others share config.point i, sum_split share config.point i, ?_⟩
  change ∑ j, share (after.point j) = _
  rw [points, sum_update]

omit [DecidableEq μ] [DecidableEq χ] in
/-- What the threads carry together when one of them creates another. -/
theorem total_created {M : Type*} [AddCommMonoid M] [Fintype ι] {i child : ι} {start next : π}
    (share : π → M) (different : child ≠ i)
    (points : after.point = Function.update (Function.update config.point child start) i next) :
    ∃ rest, config.total share = share (config.point i) + (share (config.point child) + rest) ∧
      after.total share = share next + (share start + rest) := by
  have member : child ∈ Finset.univ.erase i := Finset.mem_erase.mpr ⟨different, Finset.mem_univ _⟩
  refine ⟨∑ j ∈ (Finset.univ.erase i).erase child, share (config.point j), ?_, ?_⟩
  · rw [Finset.add_sum_erase _ (fun j => share (config.point j)) member]
    exact sum_split share config.point i
  · change ∑ j, share (after.point j) = _
    rw [points, sum_update, others, ← Finset.add_sum_erase _ _ member, Function.update_self]
    congr 2
    refine Finset.sum_congr rfl fun j among => ?_
    rw [Function.update_of_ne (Finset.ne_of_mem_erase among)]

omit [DecidableEq ι] [DecidableEq μ] [DecidableEq χ] in
theorem total_still {M : Type*} [AddCommMonoid M] [Fintype ι] (share : π → M)
    (points : after.point = config.point) : after.total share = config.total share := by
  change ∑ j, share (after.point j) = _
  rw [points]
  rfl

end Flat

section Plain

variable {ι σ π α : Type} [DecidableEq ι] [Fintype ι]

/-- Every instruction reads, writes or halts. -/
def Program.Plain (program : Program ι Empty Empty σ π α) : Prop :=
  ∀ i p, (program.code i p).sync = none ∧ ∀ start next, program.code i p ≠ .fork start next

variable {program : Program ι Empty Empty σ π α} {config after : Config ι Empty Empty σ π}
  {label : Label ι α} {allowed : Config ι Empty Empty σ π → Label ι α → Prop}
  {start : Config ι Empty Empty σ π}

omit [Fintype ι] in
theorem Moves.accessed (plain : program.Plain) (moves : Moves program config label after) :
    ∃ i input next, label = .run i input ∧
      (program.code i (config.point i)).body config.memory input = some (after.memory, next) ∧
      after.point = Function.update config.point i next := by
  cases moves with
  | @read i p middle input choose next arrives code result =>
      have here := arrives.access (plain i _).1
      refine ⟨i, input, next, rfl, ?_, arrives.point_set _⟩
      rw [here, code]
      simp [Instr.body, result, arrives.memory_eq]
  | @act i p middle input run written next arrives code result =>
      have here := arrives.access (plain i _).1
      refine ⟨i, input, next, rfl, ?_, arrives.point_set _⟩
      rw [here, code]
      exact result
  | @join i p input awaits next ready code finished =>
      have sync := (plain i p).1
      rw [code] at sync
      cases sync
  | create ready code => exact absurd code ((plain _ _).2 _ _)
  | createFails ready code => exact absurd code ((plain _ _).2 _ _)
  | @lock _ _ _ mutex => exact mutex.elim
  | @unlock _ _ _ mutex => exact mutex.elim
  | @wait _ _ _ cond => exact cond.elim
  | @broadcast _ _ _ cond => exact cond.elim
  | @signal _ _ cond => exact cond.elim
  | @signalNone _ _ cond => exact cond.elim
  | @spurious _ cond => exact cond.elim

/-- What holds of the memory and the points at the start and is kept by every access holds
in every reachable configuration. -/
theorem Reaches.accesses (plain : program.Plain) (reaches : Reaches program allowed start config)
    (invariant : σ → (ι → π) → Prop) (initial : invariant start.memory start.point)
    (kept : ∀ {config i input written next}, Reaches program allowed start config →
      invariant config.memory config.point → allowed config (.run i input) →
      (program.code i (config.point i)).body config.memory input = some (written, next) →
      invariant written (Function.update config.point i next)) :
    invariant config.memory config.point := by
  refine reaches.invariant (fun config => invariant config.memory config.point) initial ?_
  intro config label after reached holds permitted moves
  obtain ⟨i, input, next, rfl, body, points⟩ := moves.accessed plain
  rw [points]
  exact kept reached holds permitted body

end Plain

end ThreadPool.Foundation
