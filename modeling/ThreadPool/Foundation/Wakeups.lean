import ThreadPool.Foundation.Locks

namespace ThreadPool.Foundation

/-! # Broadcasts that are owed

Threads sleep on a condition variable until the memory says otherwise. A thread is
`stale` if it sleeps, or is about to, although the memory already says so; a program
point `owes` a broadcast if its thread will still perform one. If whoever makes a
thread stale owes a broadcast, and a broadcast happens under the mutex that the
sleepers have tested the memory under, no wake-up is lost.
-/

variable {ι μ χ σ π α : Type}

/-- Everything that the code of a program has to respect, the writes to memory apart. -/
structure WakeProtocol [DecidableEq μ] (program : Program ι μ χ σ π α) (holds : π → μ → Bool)
    (cond : χ) (mutex : μ) (stale : Status μ χ π → σ → Prop) (owes : π → Bool) : Prop where
  woken : ∀ {other point memory}, ¬ stale (.woken other point) memory
  elsewhere : ∀ {other own point memory}, other ≠ cond → ¬ stale (.asleep other own point) memory
  /-- Nobody is stale before it has tested the memory. -/
  sync : ∀ {i point next memory}, (program.code i point).sync = some next →
    ¬ stale (.ready next) memory
  sleep : ∀ {i point other own next memory}, program.code i point = .wait other own next →
    stale (.asleep other own next) memory → stale (.ready point) memory
  read : ∀ {i point choose memory input next}, program.code i point = .read choose →
    choose memory input = some next →
    (stale (.ready next) memory → stale (.ready point) memory) ∧ (owes point = true → owes next = true)
  act : ∀ {i point run memory input written next}, program.code i point = .act run →
    run memory input = some (written, next) →
    ¬ stale (.ready next) written ∧ (owes point = true → owes next = true)
  fork : ∀ {i point start next memory target written final}, program.code i point = .fork start next →
    next memory target = (written, final) →
    ¬ stale (.ready start) written ∧ ¬ stale (.ready final) written ∧ owes point = false ∧
      ∀ status, stale status written → stale status memory
  dormant : ∀ {idle}, program.dormant idle = true → owes idle = false
  /-- A debt is paid by the broadcast only, and under the mutex. -/
  debt : ∀ {i point next}, (program.code i point).sync = some next → owes point = true →
    owes next = true ∨ program.code i point = .broadcast cond next
  pays : ∀ {i point next}, program.code i point = .broadcast cond next → holds point mutex = true
  guarded : ∀ {point memory}, stale (.ready point) memory → holds point mutex = true

/-- Whenever a thread is stale, a broadcast is owed. -/
def NoneLost (stale : Status μ χ π → σ → Prop) (owes : π → Bool) (config : Config ι μ χ σ π) : Prop :=
  (∃ j, stale (config.threads j) config.memory) → ∃ k, owes (config.point k) = true

section Steps

variable [DecidableEq ι] [DecidableEq μ] {program : Program ι μ χ σ π α} {holds : π → μ → Bool}
  {cond : χ} {mutex : μ} {stale : Status μ χ π → σ → Prop} {owes : π → Bool}
  {config middle after : Config ι μ χ σ π} {label : Label ι α} {i j : ι} {point next : π} {memory : σ}

omit [DecidableEq μ] in
/-- One thread changes its status and the memory: it does not become stale, it makes
others stale only against a debt, and it keeps its own debt. -/
theorem NoneLost.set {status : Status μ χ π} {owner : μ → Option ι} (noneLost : NoneLost stale owes config)
    (own : stale status memory → stale (config.threads i) config.memory)
    (others : ∀ j, j ≠ i → stale (config.threads j) memory →
      stale (config.threads j) config.memory ∨ owes status.point = true)
    (debt : owes (config.point i) = true → owes status.point = true) :
    NoneLost stale owes ⟨memory, owner, Function.update config.threads i status⟩ := by
  have point : ∀ k, Config.point (⟨memory, owner, Function.update config.threads i status⟩ :
      Config ι μ χ σ π) k = Function.update config.point i status.point k :=
    fun k => congrFun (point_set config i status) k
  rintro ⟨j, late⟩
  have before : (∃ j, stale (config.threads j) config.memory) ∨ owes status.point = true := by
    by_cases here : j = i
    · subst here
      exact .inl ⟨j, own (by simpa using late)⟩
    · exact (others j here (by simpa [here] using late)).imp_left fun late => ⟨j, late⟩
  rcases before with late | owed
  · obtain ⟨k, owed⟩ := noneLost late
    refine ⟨k, ?_⟩
    rw [point]
    by_cases here : k = i
    · subst here
      simpa using debt owed
    · simpa [here] using owed
  · refine ⟨i, ?_⟩
    rw [point]
    simpa using owed

omit [DecidableEq μ] in
theorem NoneLost.wake [DecidableEq μ] {other : χ} {own : μ}
    (protocol : WakeProtocol program holds cond mutex stale owes) (noneLost : NoneLost stale owes config)
    (sleeper : config.threads j = .asleep other own point) :
    NoneLost stale owes (config.set j (.woken own point)) := by
  apply noneLost.set
  · exact fun late => absurd late protocol.woken
  · exact fun _ _ late => .inl late
  · rw [Config.point, sleeper]
    exact id

omit [DecidableEq ι] in
theorem NoneLost.rouseAll [DecidableEq χ] (protocol : WakeProtocol program holds cond mutex stale owes)
    (noneLost : NoneLost stale owes config) (other : χ) : NoneLost stale owes (config.rouseAll other) := by
  rintro ⟨j, late⟩
  rw [point_rouseAll]
  apply noneLost
  change stale ((config.threads j).rouse other) config.memory at late
  rcases (config.threads j).rouse_cases other with same | ⟨own, point, _, woken⟩
  · rw [same] at late
    exact ⟨j, late⟩
  · rw [woken] at late
    exact absurd late protocol.woken

omit [DecidableEq ι] in
/-- Nobody is stale behind the broadcast: the sleepers are woken, and who is about to
sleep would hold the mutex. -/
theorem WakeProtocol.rouseAll_fresh [DecidableEq χ]
    (protocol : WakeProtocol program holds cond mutex stale owes) (owned : Owned holds config)
    (ready : config.threads i = .ready point) (code : program.code i point = .broadcast cond next)
    (different : j ≠ i) : ¬ stale ((config.threads j).rouse cond) config.memory := by
  intro late
  cases status : config.threads j with
  | ready other =>
      rw [status] at late
      have mine : (config.threads i).holds holds mutex = true := by
        rw [ready]
        exact protocol.pays code
      have yours : (config.threads j).holds holds mutex = true := by
        rw [status]
        exact protocol.guarded late
      exact different (owned.exclusive yours mine)
  | asleep other own point =>
      rw [status] at late
      by_cases same : other = cond
      · simp only [Status.rouse, same, if_true] at late
        exact protocol.woken late
      · simp only [Status.rouse, same, if_false] at late
        exact protocol.elsewhere same late
  | woken own point =>
      rw [status] at late
      exact protocol.woken late

omit [DecidableEq ι] in
/-- A thread that is about to perform an access brings its debt there. -/
theorem WakeProtocol.access_owes (protocol : WakeProtocol program holds cond mutex stale owes)
    (arrives : Arrives program config i point middle) (owed : owes (config.point i) = true) :
    owes point = true := by
  cases arrives with
  | here ready => rwa [point_ready ready] at owed
  | entering ready code =>
      rw [point_ready ready] at owed
      refine (protocol.debt (congrArg Instr.sync code) owed).resolve_right ?_
      rw [code]
      nofun
  | resuming woken =>
      rw [Config.point, woken] at owed
      exact owed

omit [DecidableEq ι] in
/-- A thread that has just acquired the mutex is not stale. -/
theorem WakeProtocol.access_fresh (protocol : WakeProtocol program holds cond mutex stale owes)
    (arrives : Arrives program config i point middle) (waits : (config.threads i).Waits program i)
    (late : stale (.ready point) config.memory) : stale (config.threads i) config.memory := by
  cases arrives with
  | here ready => rwa [ready]
  | entering ready code => exact absurd late (protocol.sync (congrArg Instr.sync code))
  | resuming woken =>
      rw [woken] at waits
      obtain ⟨other, before, code⟩ := waits
      exact absurd late (protocol.sync (congrArg Instr.sync code))

/-- A synchronisation other than the broadcast. -/
theorem NoneLost.hop {owner : μ → Option ι} (protocol : WakeProtocol program holds cond mutex stale owes)
    (noneLost : NoneLost stale owes config) (ready : config.threads i = .ready point)
    (sync : (program.code i point).sync = some next)
    (other : program.code i point ≠ .broadcast cond next) :
    NoneLost stale owes
      ⟨config.memory, owner, Function.update config.threads i (.ready next)⟩ := by
  apply noneLost.set
  · exact fun late => absurd late (protocol.sync sync)
  · exact fun _ _ late => .inl late
  · intro owed
    rw [point_ready ready] at owed
    exact (protocol.debt sync owed).resolve_right other

/-- No wake-up is lost in a step, if the write of the step makes threads stale against a
debt only. -/
theorem Moves.noneLost [DecidableEq χ] [Fintype ι] (moves : Moves program config label after)
    (protocol : WakeProtocol program holds cond mutex stale owes) (owned : Owned holds config)
    (waits : ∀ i, (config.threads i).Waits program i)
    (harmless : ∀ {i point middle run input written next}, Arrives program config i point middle →
      program.code i point = .act run → run config.memory input = some (written, next) →
      ∀ j, j ≠ i → stale (config.threads j) written →
        stale (config.threads j) config.memory ∨ owes next = true)
    (noneLost : NoneLost stale owes config) : NoneLost stale owes after := by
  have hop : ∀ {i point next owner}, config.threads i = .ready point →
      (program.code i point).sync = some next → program.code i point ≠ .broadcast cond next →
      NoneLost stale owes ⟨config.memory, owner, Function.update config.threads i (.ready next)⟩ :=
    fun ready sync other => noneLost.hop protocol ready sync other
  cases moves with
  | @read i point middle input choose next arrives code result =>
      rw [arrives.set_eq]
      obtain ⟨own, debt⟩ := protocol.read code result
      apply noneLost.set
      · exact fun late => protocol.access_fresh arrives (waits i) (own late)
      · exact fun _ _ late => .inl late
      · exact fun owed => debt (protocol.access_owes arrives owed)
  | @act i point middle input run memory next arrives code result =>
      rw [arrives.write_eq]
      obtain ⟨fresh, debt⟩ := protocol.act code result
      apply noneLost.set
      · exact fun late => absurd late fresh
      · exact harmless arrives code result
      · exact fun owed => debt (protocol.access_owes arrives owed)
  | lock ready code => exact hop ready (congrArg Instr.sync code) (by rw [code]; nofun)
  | unlock ready code => exact hop ready (congrArg Instr.sync code) (by rw [code]; nofun)
  | @wait i point input other own next ready code =>
      apply noneLost.set
      · intro late
        rw [ready]
        exact protocol.sleep code late
      · exact fun _ _ late => .inl late
      · intro owed
        rw [point_ready ready] at owed
        exact (protocol.debt (congrArg Instr.sync code) owed).resolve_right (by rw [code]; nofun)
  | @broadcast i point input other next ready code =>
      by_cases same : other = cond
      · subst same
        rintro ⟨j, late⟩
        by_cases here : j = i
        · subst here
          simp only [Config.set_threads_self, Config.set_memory] at late
          exact absurd late (protocol.sync (congrArg Instr.sync code))
        · rw [Config.set_threads_of_ne _ _ here] at late
          exact absurd late (protocol.rouseAll_fresh owned ready code here)
      · apply (noneLost.rouseAll protocol other).hop protocol (Config.rouseAll_ready ready other)
          (congrArg Instr.sync code)
        rw [code]
        rintro ⟨⟩
        exact same rfl
  | join ready code => exact hop ready (congrArg Instr.sync code) (by rw [code]; nofun)
  | signal ready code sleeper =>
      exact (noneLost.wake protocol sleeper).hop protocol (Config.wake_ready ready sleeper)
        (congrArg Instr.sync code) (by rw [code]; nofun)
  | signalNone ready code => exact hop ready (congrArg Instr.sync code) (by rw [code]; nofun)
  | @create i point start next child idle memory final ready code dormant isDormant different result =>
      obtain ⟨born, own, paid, others⟩ := protocol.fork code result
      have started : NoneLost stale owes
          ⟨memory, config.owner, Function.update config.threads child (.ready start)⟩ := by
        apply noneLost.set
        · exact fun late => absurd late born
        · exact fun _ _ late => .inl (others _ late)
        · intro owed
          rw [point_ready dormant, protocol.dormant isDormant] at owed
          cases owed
      apply started.set
      · exact fun late => absurd late own
      · exact fun _ _ late => .inl late
      · intro owed
        have here : Config.point (⟨memory, config.owner, Function.update config.threads child
            (.ready start)⟩ : Config ι μ χ σ π) i = point := by
          simp [Config.point, different.symm, ready, Status.point]
        rw [here, paid] at owed
        cases owed
  | @createFails i point start next memory final ready code result =>
      obtain ⟨_, own, paid, others⟩ := protocol.fork code result
      apply noneLost.set
      · exact fun late => absurd late own
      · exact fun _ _ late => .inl (others _ late)
      · intro owed
        rw [point_ready ready, paid] at owed
        cases owed
  | spurious sleeper => exact noneLost.wake protocol sleeper

end Steps

end ThreadPool.Foundation
