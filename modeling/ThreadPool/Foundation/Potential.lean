import Mathlib.Algebra.Group.Action.Defs
import Mathlib.Algebra.Order.BigOperators.Group.Finset
import ThreadPool.Foundation.Progress

namespace ThreadPool.Foundation

/-! # Potentials

A run is finite if every step spends some potential: each program point has a weight, a
sleeper has none, and a point that wakes others pays for them in advance.
-/

variable {ι μ χ σ π α : Type}

/-- What a thread can still spend. -/
def Status.weight (weight : π → Nat) : Status μ χ π → Nat
  | .ready point => weight point
  | .woken _ point => weight point
  | .asleep .. => 0

section Costs

variable [DecidableEq ι] [DecidableEq μ] [DecidableEq χ] [Fintype ι]

/-- What the threads and the memory can still spend. -/
def Config.potential (config : Config ι μ χ σ π) (weight : π → Nat) (store : σ → Nat) : Nat :=
  config.census (Status.weight weight) + store config.memory

/-- The synchronisations of a program spend potential, if `wakeup` bounds the weight of whoever
sleeps on a condition variable. -/
structure Costs (program : Program ι μ χ σ π α) (weight : π → Nat) (wakeup : χ → Nat)
    (store : σ → Nat) : Prop where
  sync : ∀ {i point next}, (program.code i point).sync = some next →
    (∀ cond mutex, program.code i point ≠ .wait cond mutex next) → weight next < weight point
  sleep : ∀ {i point cond mutex next}, program.code i point = .wait cond mutex next →
    0 < weight point ∧ weight next ≤ wakeup cond
  signal : ∀ {i point cond next}, program.code i point = .signal cond next →
    weight next + wakeup cond < weight point
  broadcast : ∀ {i point cond next}, program.code i point = .broadcast cond next →
    weight next + Fintype.card ι * wakeup cond < weight point
  fork : ∀ {i point start next memory target written final}, program.code i point = .fork start next →
    next memory target = (written, final) →
    weight final + weight start < weight point ∧ store written ≤ store memory

variable {program : Program ι μ χ σ π α} {weight : π → Nat} {wakeup : χ → Nat} {store : σ → Nat}
  {config middle after : Config ι μ χ σ π} {label : Label ι α} {i : ι} {point next : π}

omit [DecidableEq ι] [DecidableEq χ] in
/-- A thread has at least the weight of the access that it has come to. -/
theorem Costs.arrives (costs : Costs program weight wakeup store)
    (arrives : Arrives program config i point middle) :
    weight point ≤ (config.threads i).weight weight := by
  cases arrives with
  | here ready =>
      rw [ready]
      exact le_rfl
  | entering ready code =>
      rw [ready]
      refine (costs.sync (congrArg Instr.sync code) fun cond mutex wait => ?_).le
      rw [code] at wait
      cases wait
  | resuming woken =>
      rw [woken]
      exact le_rfl

omit [DecidableEq χ] [DecidableEq μ] in
theorem potential_set (owner : μ → Option ι) (weight : π → Nat) (store : σ → Nat)
    (config : Config ι μ χ σ π) (i : ι) (memory : σ) (status : Status μ χ π) :
    Config.potential ⟨memory, owner, Function.update config.threads i status⟩ weight store +
        (config.threads i).weight weight + store config.memory =
      config.potential weight store + status.weight weight + store memory := by
  have count := census_set (Status.weight weight) config i status
  change (config.set i status).census (Status.weight weight) + store memory + _ + _ = _
  simp only [Config.potential]
  omega

omit [DecidableEq χ] [DecidableEq μ] in
theorem potential_goto {owner : μ → Option ι} (ready : config.threads i = .ready point)
    (less : weight next < weight point) :
    Config.potential ⟨config.memory, owner, Function.update config.threads i (.ready next)⟩ weight store <
      config.potential weight store := by
  have count := potential_set owner weight store config i config.memory (.ready next)
  rw [ready] at count
  simp only [Status.weight] at count
  omega

omit [DecidableEq ι] [DecidableEq μ] in
/-- What a broadcast wakes. -/
theorem census_rouseAll (costs : Costs program weight wakeup store)
    (waits : ∀ i, (config.threads i).Waits program i) (cond : χ) :
    (config.rouseAll cond).census (Status.weight weight) ≤
      config.census (Status.weight weight) + Fintype.card ι * wakeup cond := by
  have one : ∀ i, ((config.threads i).rouse cond).weight weight ≤
      (config.threads i).weight weight + wakeup cond := by
    intro i
    rcases (config.threads i).rouse_cases cond with same | ⟨mutex, point, sleeper, woken⟩
    · rw [same]
      exact Nat.le_add_right _ _
    · have asleep := waits i
      rw [sleeper] at asleep
      obtain ⟨before, code⟩ := asleep
      rw [woken]
      exact (costs.sleep code).2.trans (Nat.le_add_left _ _)
  calc ∑ i, ((config.threads i).rouse cond).weight weight
      ≤ ∑ i, ((config.threads i).weight weight + wakeup cond) := Finset.sum_le_sum fun i _ => one i
    _ = config.census (Status.weight weight) + Fintype.card ι * wakeup cond := by
        rw [Finset.sum_add_distrib, Finset.sum_const, Finset.card_univ, smul_eq_mul]
        rfl

/-- A step spends potential, if its access does. -/
theorem Moves.spends (moves : Moves program config label after)
    (costs : Costs program weight wakeup store) (waits : ∀ i, (config.threads i).Waits program i)
    (own : label.own = true)
    (access : ∀ {i point middle input written next}, label = .run i input →
      Arrives program config i point middle →
      (program.code i point).body config.memory input = some (written, next) →
      weight next + store written < weight point + store config.memory) :
    after.potential weight store < config.potential weight store := by
  -- the access of a thread, with what it had on arrival
  have body : ∀ {i point middle input written next}, label = .run i input →
      Arrives program config i point middle →
      (program.code i point).body config.memory input = some (written, next) →
      ∀ owner, Config.potential ⟨written, owner, Function.update config.threads i (.ready next)⟩ weight
        store < config.potential weight store := by
    intro i point middle input written next here arrives result owner
    have less := access here arrives result
    have enough := costs.arrives arrives
    have count := potential_set owner weight store config i written (.ready next)
    simp only [Status.weight] at count enough
    omega
  have hop : ∀ {i point next owner}, config.threads i = .ready point →
      (program.code i point).sync = some next →
      (∀ cond mutex, program.code i point ≠ .wait cond mutex next) →
      Config.potential ⟨config.memory, owner, Function.update config.threads i (.ready next)⟩ weight store <
        config.potential weight store :=
    fun ready sync awake => potential_goto ready (costs.sync sync awake)
  cases moves with
  | read arrives code result =>
      rw [arrives.set_eq]
      refine body rfl arrives ?_ _
      rw [code, Instr.body, result]
      rfl
  | act arrives code result =>
      rw [arrives.write_eq]
      refine body rfl arrives ?_ _
      rw [code]
      exact result
  | lock ready code | unlock ready code | join ready code | signalNone ready code =>
      refine hop ready (congrArg Instr.sync code) fun cond mutex wait => ?_
      rw [code] at wait
      cases wait
  | @wait i point input cond mutex next ready code =>
      have count := potential_set (config.release mutex).owner weight store config i config.memory
        (.asleep cond mutex next)
      have positive := (costs.sleep code).1
      rw [ready] at count
      simp only [Status.weight] at count
      change Config.potential ⟨config.memory, _, Function.update config.threads i _⟩ weight store < _
      omega
  | @broadcast i point input cond next ready code =>
      have paid := costs.broadcast code
      have roused := census_rouseAll costs waits cond
      have count := census_set (Status.weight weight) (config.rouseAll cond) i (.ready next)
      rw [Config.rouseAll_ready ready] at count
      simp only [Status.weight] at count
      change Config.census _ _ + store config.memory < config.census _ + store config.memory
      omega
  | @signal i point cond next j mutex resume ready code sleeper =>
      have paid := costs.signal code
      have asleep := waits j
      rw [sleeper] at asleep
      obtain ⟨before, wait⟩ := asleep
      have bound := (costs.sleep wait).2
      have woken := census_set (Status.weight weight) config j (.woken mutex resume)
      have moved := census_set (Status.weight weight) (config.set j (.woken mutex resume)) i (.ready next)
      rw [sleeper] at woken
      rw [Config.wake_ready ready sleeper] at moved
      simp only [Status.weight] at woken moved
      change Config.census _ _ + store config.memory < config.census _ + store config.memory
      omega
  | @create i point start next child idle memory final ready code dormant isDormant different result =>
      obtain ⟨paid, stored⟩ := costs.fork code result
      have born := census_set (Status.weight weight) config child (.ready start)
      have moved := census_set (Status.weight weight) (config.set child (.ready start)) i (.ready final)
      rw [Config.set_threads_of_ne _ _ different.symm, ready] at moved
      simp only [Status.weight] at born moved
      change Config.census (Config.set _ _ _) _ + store memory < config.census _ + store config.memory
      omega
  | @createFails i point start next memory final ready code result =>
      obtain ⟨paid, stored⟩ := costs.fork code result
      have moved := census_set (Status.weight weight) config i (.ready final)
      rw [ready] at moved
      simp only [Status.weight] at moved
      change Config.census (Config.set _ _ _) _ + store memory < config.census _ + store config.memory
      omega
  | spurious => cases own

end Costs

section Runs

variable [DecidableEq ι] [DecidableEq μ] [DecidableEq χ] [Fintype ι]

/-- `config` is reached from `start` by `n` steps that meet `allowed`. -/
inductive Takes (program : Program ι μ χ σ π α) (allowed : Config ι μ χ σ π → Label ι α → Prop)
    (start : Config ι μ χ σ π) : Nat → Config ι μ χ σ π → Prop
  | none : Takes program allowed start 0 start
  | step {n config label after} : Takes program allowed start n config → allowed config label →
      program.step config label = some after → Takes program allowed start (n + 1) after

variable {program : Program ι μ χ σ π α} {allowed : Config ι μ χ σ π → Label ι α → Prop}
  {start config : Config ι μ χ σ π} {n : Nat}

theorem Takes.reaches (takes : Takes program allowed start n config) :
    Reaches program allowed start config := by
  induction takes with
  | none => exact .refl
  | step _ permitted stepped ih => exact .step ih permitted stepped

/-- A run is no longer than the potential it starts with. -/
theorem Takes.bounded (takes : Takes program allowed start n config)
    (potential : Config ι μ χ σ π → Nat)
    (spends : ∀ {config label after}, Reaches program allowed start config → allowed config label →
      Moves program config label after → potential after < potential config) :
    n + potential config ≤ potential start := by
  induction takes with
  | none => exact (Nat.zero_add _).le
  | step takes permitted stepped ih =>
      have less := spends takes.reaches permitted (step_moves stepped)
      omega

/-- A run that spends potential can be continued until no step is left. -/
theorem exhausts (potential : Config ι μ χ σ π → Nat) (reaches : Reaches program allowed start config)
    (spends : ∀ {config label after}, Reaches program allowed start config → allowed config label →
      Moves program config label after → potential after < potential config) :
    ∃ rest, Reaches program allowed start rest ∧
      ∀ label after, allowed rest label → program.step rest label ≠ some after := by
  induction size : potential config using Nat.strong_induction_on generalizing config with
  | _ _ ih =>
      by_cases stuck : ∀ label after, allowed config label → program.step config label ≠ some after
      · exact ⟨config, reaches, stuck⟩
      · push Not at stuck
        obtain ⟨label, after, permitted, stepped⟩ := stuck
        have less := spends reaches permitted (step_moves stepped)
        exact ih _ (size ▸ less) (.step reaches permitted stepped) rfl

/-- A step that changes something, and neither leaves a point `outside` nor is a wake-up without
a signal. -/
structure LeftAlone (program : Program ι μ χ σ π α) (outside : π → Prop) (config : Config ι μ χ σ π)
    (label : Label ι α) : Prop where
  own : label.own = true
  inside : ¬ outside (config.point label.thread)
  changes : program.step config label ≠ some config

/-- Where such steps spend potential, there are no more of them than potential, and a run can
be continued until nothing changes any more. -/
theorem Takes.stops {outside : π → Prop} (potential : Config ι μ χ σ π → Nat)
    (spends : ∀ {config label after}, Reaches program (fun _ _ => True) start config →
      LeftAlone program outside config label → Moves program config label after →
      potential after < potential config)
    (takes : Takes program (LeftAlone program outside) start n config) :
    n + potential config ≤ potential start ∧
      ∃ rest, Reaches program (LeftAlone program outside) config rest ∧ Quiet program outside rest := by
  refine ⟨takes.bounded potential fun goes => spends (goes.mono fun _ => trivial), ?_⟩
  have here : Reaches program (LeftAlone program outside) config config := .refl
  obtain ⟨rest, goes, stuck⟩ := exhausts potential here fun goes => spends (takes.reaches.extend goes)
  refine ⟨rest, goes, fun label after own stepped => ?_⟩
  by_contra other
  push Not at other
  obtain ⟨inside, changes⟩ := other
  refine stuck label after ⟨own, inside, ?_⟩ stepped
  rw [stepped]
  exact fun same => changes (Option.some.inj same)

end Runs

end ThreadPool.Foundation
