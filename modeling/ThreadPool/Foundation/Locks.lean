import ThreadPool.Foundation.Reachability

namespace ThreadPool.Foundation

/-! # Lock discipline and proof outlines

`holds` annotates every program point with the mutexes held there. If the
instructions respect the annotation, a mutex is owned by exactly the thread whose
point holds it. Assertions attached to program points are then invariant as soon as
they survive the accesses of the threads that can run at the same time.
-/

variable {ι μ χ σ π α : Type}

/-- The mutexes of a thread; a sleeper has given up the one it waits with. -/
def Status.holds [DecidableEq μ] (holds : π → μ → Bool) : Status μ χ π → μ → Bool
  | .ready point, mutex => holds point mutex
  | .asleep _ released point, mutex => holds point mutex && decide (mutex ≠ released)
  | .woken released point, mutex => holds point mutex && decide (mutex ≠ released)

@[simp] theorem holds_ready [DecidableEq μ] (holds : π → μ → Bool) (point : π) (mutex : μ) :
    (Status.ready point : Status μ χ π).holds holds mutex = holds point mutex := rfl

/-- The mutex and the point at which a waiting thread continues. -/
def Status.parked : Status μ χ π → Option (μ × π)
  | .ready _ => none
  | .asleep _ mutex point => some (mutex, point)
  | .woken mutex point => some (mutex, point)

/-- The instructions acquire and release the mutexes as annotated. -/
structure Disciplined [DecidableEq μ] (program : Program ι μ χ σ π α) (holds : π → μ → Bool) :
    Prop where
  read : ∀ {i point choose memory input next}, program.code i point = .read choose →
    choose memory input = some next → holds next = holds point
  act : ∀ {i point run memory input written next}, program.code i point = .act run →
    run memory input = some (written, next) → holds next = holds point
  lock : ∀ {i point mutex next}, program.code i point = .lock mutex next →
    holds point mutex = false ∧ holds next = Function.update (holds point) mutex true
  enter : ∀ {i point mutex next}, program.code i point = .enter mutex next →
    holds point mutex = false ∧ holds next = Function.update (holds point) mutex true
  unlock : ∀ {i point mutex next}, program.code i point = .unlock mutex next →
    holds point mutex = true ∧ holds next = Function.update (holds point) mutex false
  wait : ∀ {i point cond mutex next}, program.code i point = .wait cond mutex next →
    holds point mutex = true ∧ holds next = holds point
  signal : ∀ {i point cond next}, program.code i point = .signal cond next → holds next = holds point
  broadcast : ∀ {i point cond next}, program.code i point = .broadcast cond next →
    holds next = holds point
  join : ∀ {i point awaits next}, program.code i point = .join awaits next → holds next = holds point
  fork : ∀ {i point start next}, program.code i point = .fork start next →
    (holds start = fun _ => false) ∧ ∀ memory target, holds (next memory target).2 = holds point
  dormant : ∀ {idle}, program.dormant idle = true → holds idle = fun _ => false

/-- One instruction acquires and releases the mutexes as annotated; accesses are those of
its body. -/
def Instr.Respects [DecidableEq μ] (holds : π → μ → Bool) (point : π) : Instr ι μ χ σ π α → Prop
  | .read next => ∀ memory input final, next memory input = some final → holds final = holds point
  | .act run => ∀ memory input written final, run memory input = some (written, final) →
      holds final = holds point
  | .lock mutex next => holds point mutex = false ∧ holds next = Function.update (holds point) mutex true
  | .enter mutex next => holds point mutex = false ∧ holds next = Function.update (holds point) mutex true
  | .unlock mutex next => holds point mutex = true ∧ holds next = Function.update (holds point) mutex false
  | .wait _ mutex next => holds point mutex = true ∧ holds next = holds point
  | .signal _ next => holds next = holds point
  | .broadcast _ next => holds next = holds point
  | .join _ next => holds next = holds point
  | .fork _ _ => False
  | .halt => True

theorem Instr.respects_of_body [DecidableEq μ] {holds : π → μ → Bool} {point : π}
    {instr : Instr ι μ χ σ π α}
    (kept : ∀ memory input written next, instr.body memory input = some (written, next) →
      holds next = holds point)
    (access : instr.sync = none) (sequential : ∀ start next, instr ≠ .fork start next) :
    instr.Respects holds point := by
  cases instr with
  | read next =>
      intro memory input final result
      exact kept memory input memory final (by simp [Instr.body, result])
  | act run => exact kept
  | fork start next => exact sequential start next rfl
  | halt => trivial
  | _ => cases access

/-- A program without forks is disciplined if each of its instructions is. -/
theorem Disciplined.of_respects [DecidableEq μ] {program : Program ι μ χ σ π α}
    {holds : π → μ → Bool} (respects : ∀ i point, (program.code i point).Respects holds point)
    (dormant : ∀ {idle}, program.dormant idle = true → holds idle = fun _ => false) :
    Disciplined program holds := by
  have kept : ∀ {i point instr}, program.code i point = instr → instr.Respects holds point := by
    rintro i point _ rfl
    exact respects i point
  exact
    { read := fun code result => kept code _ _ _ result
      act := fun code result => kept code _ _ _ _ result
      lock := fun code => kept code
      enter := fun code => kept code
      unlock := fun code => kept code
      wait := fun code => kept code
      signal := fun code => kept code
      broadcast := fun code => kept code
      join := fun code => kept code
      fork := fun code => (kept code).elim
      dormant := dormant }

/-- Every mutex is owned by the thread whose status holds it. -/
structure Owned [DecidableEq μ] (holds : π → μ → Bool) (config : Config ι μ χ σ π) : Prop where
  owner : ∀ i mutex, config.owner mutex = some i ↔ (config.threads i).holds holds mutex = true
  parked : ∀ {i mutex point}, (config.threads i).parked = some (mutex, point) →
    holds point mutex = true

section Ownership

variable [DecidableEq ι] [DecidableEq μ] {program : Program ι μ χ σ π α} {holds : π → μ → Bool}
  {config middle after : Config ι μ χ σ π} {label : Label ι α} {i j : ι} {point next : π} {mutex : μ}
  {status : Status μ χ π}

omit [DecidableEq ι] in
theorem Owned.exclusive (owned : Owned holds config)
    (first : (config.threads i).holds holds mutex = true)
    (second : (config.threads j).holds holds mutex = true) : i = j := by
  have left := (owned.owner i mutex).mpr first
  have right := (owned.owner j mutex).mpr second
  exact Option.some.inj (left.symm.trans right)

omit [DecidableEq ι] in
/-- A mutex that nobody waits with is held at the points of one thread at a time. -/
theorem Owned.exclusive_points (owned : Owned holds config)
    (waits : ∀ i, (config.threads i).Waits program i)
    (unwaited : ∀ {i before cond next}, program.code i before ≠ .wait cond mutex next)
    (first : holds (config.point i) mutex = true) (second : holds (config.point j) mutex = true) :
    i = j := by
  have held : ∀ {k}, holds (config.point k) mutex = true →
      (config.threads k).holds holds mutex = true := by
    intro k inside
    have parked := waits k
    unfold Config.point at inside
    cases status : config.threads k with
    | ready point =>
        rw [status] at inside
        exact inside
    | asleep cond released point =>
        rw [status] at inside parked
        obtain ⟨before, code⟩ := parked
        have different : mutex ≠ released := fun same => unwaited (same ▸ code)
        exact Bool.and_eq_true_iff.mpr ⟨inside, decide_eq_true different⟩
    | woken released point =>
        rw [status] at inside parked
        obtain ⟨cond, before, code⟩ := parked
        have different : mutex ≠ released := fun same => unwaited (same ▸ code)
        exact Bool.and_eq_true_iff.mpr ⟨inside, decide_eq_true different⟩
  exact owned.exclusive (held first) (held second)

/-- One thread changes its status, and the owners with it. -/
theorem Owned.set {owner : μ → Option ι} (owned : Owned holds config) (memory : σ)
    (own : ∀ mutex, owner mutex = some i ↔ status.holds holds mutex = true)
    (rest : ∀ j mutex, j ≠ i → (owner mutex = some j ↔ config.owner mutex = some j))
    (parked : ∀ {mutex point}, status.parked = some (mutex, point) → holds point mutex = true) :
    Owned holds ⟨memory, owner, Function.update config.threads i status⟩ := by
  constructor
  · intro j mutex
    by_cases same : j = i
    · subst same
      simpa using own mutex
    · simpa [same] using (rest j mutex same).trans (owned.owner j mutex)
  · intro j mutex point waiting
    by_cases same : j = i
    · subst same
      exact parked (by simpa using waiting)
    · exact owned.parked (by simpa [same] using waiting)

omit [DecidableEq ι] in
/-- No thread changes what it holds. -/
theorem Owned.congr {threads : ι → Status μ χ π} (owned : Owned holds config) (memory : σ)
    (same : ∀ j, (threads j).holds holds = (config.threads j).holds holds)
    (parked : ∀ j, (threads j).parked = none ∨ (threads j).parked = (config.threads j).parked) :
    Owned holds ⟨memory, config.owner, threads⟩ := by
  constructor
  · intro j mutex
    exact (owned.owner j mutex).trans (by rw [same j])
  · intro j mutex point waiting
    rcases parked j with none | kept
    · rw [none] at waiting
      cases waiting
    · exact owned.parked (kept.symm.trans waiting)

/-- A step between two points that hold the same mutexes. -/
theorem Owned.goto (owned : Owned holds config) (ready : config.threads i = .ready point)
    (same : holds next = holds point) (memory : σ) :
    Owned holds { config.set i (.ready next) with memory } := by
  apply owned.congr memory
  · intro j
    by_cases here : j = i
    · subst here
      funext mutex
      simp [ready, same]
    · rw [Config.set_threads_of_ne _ _ here]
  · intro j
    by_cases here : j = i
    · subst here
      exact .inl (by simp [Status.parked])
    · exact .inr (by rw [Config.set_threads_of_ne _ _ here])

/-- A free mutex goes to the thread whose next point holds it. -/
theorem Owned.take (owned : Owned holds config) (free : config.owner mutex = none)
    (status : ∀ other, (config.threads i).holds holds other = true ↔
      holds next other = true ∧ other ≠ mutex)
    (held : holds next mutex = true) :
    Owned holds ((config.take mutex i).set i (.ready next)) := by
  apply owned.set config.memory
  · intro other
    by_cases same : other = mutex
    · subst same
      simp [Config.take, held]
    · simp [Config.take, same, owned.owner i other, status other]
  · intro j other different
    by_cases same : other = mutex
    · subst same
      simp [Config.take, free, different.symm]
    · simp [Config.take, same]
  · intro other point waiting
    cases waiting

theorem Owned.acquire (owned : Owned holds config) (ready : config.threads i = .ready point)
    (free : config.owner mutex = none) (before : holds point mutex = false)
    (after : holds next = Function.update (holds point) mutex true) :
    Owned holds ((config.take mutex i).set i (.ready next)) := by
  apply owned.take free
  · intro other
    rw [ready, holds_ready, after]
    by_cases same : other = mutex
    · subst same
      simp [before]
    · simp [same]
  · simp [after]

theorem Owned.release (owned : Owned holds config) (ready : config.threads i = .ready point)
    (held : holds point mutex = true)
    (status' : ∀ other, status.holds holds other = true ↔ holds point other = true ∧ other ≠ mutex)
    (parked : ∀ {mutex point}, status.parked = some (mutex, point) → holds point mutex = true) :
    Owned holds ((config.release mutex).set i status) := by
  have own : ∀ other, config.owner other = some i ↔ holds point other = true := by
    intro other
    rw [owned.owner i other, ready]
    rfl
  apply owned.set config.memory
  · intro other
    by_cases same : other = mutex
    · subst same
      simp [Config.release, status' other]
    · simp [Config.release, same, own other, status' other]
  · intro j other different
    by_cases same : other = mutex
    · subst same
      simp [Config.release, (own other).mpr held, different.symm]
    · simp [Config.release, same]
  · exact parked

omit [DecidableEq ι] in
theorem holds_rouse [DecidableEq χ] (cond : χ) (status : Status μ χ π) :
    (status.rouse cond).holds holds = status.holds holds := by
  rcases status.rouse_cases cond with same | ⟨mutex, point, rfl, woken⟩
  · rw [same]
  · rw [woken]
    rfl

omit [DecidableEq ι] [DecidableEq μ] in
theorem parked_rouse [DecidableEq χ] (cond : χ) (status : Status μ χ π) :
    (status.rouse cond).parked = status.parked := by
  rcases status.rouse_cases cond with same | ⟨mutex, point, rfl, woken⟩
  · rw [same]
  · rw [woken]
    rfl

omit [DecidableEq ι] in
theorem Owned.rouseAll [DecidableEq χ] (owned : Owned holds config) (cond : χ) :
    Owned holds (config.rouseAll cond) :=
  owned.congr config.memory (fun j => holds_rouse cond (config.threads j))
    fun j => .inr (parked_rouse cond (config.threads j))

theorem Owned.wake {cond : χ} (owned : Owned holds config)
    (sleeper : config.threads j = .asleep cond mutex point) :
    Owned holds (config.set j (.woken mutex point)) := by
  apply owned.congr config.memory
  · intro other
    by_cases here : other = j
    · subst here
      rw [Function.update_self, sleeper]
      rfl
    · rw [Function.update_of_ne here]
  · intro other
    by_cases here : other = j
    · subst here
      exact .inr (by rw [Function.update_self, sleeper]; rfl)
    · exact .inr (by rw [Function.update_of_ne here])

theorem Arrives.owned (arrives : Arrives program config i point middle)
    (disciplined : Disciplined program holds) (owned : Owned holds config) :
    Owned holds (middle.set i (.ready point)) := by
  cases arrives with
  | here ready => exact owned.goto ready rfl config.memory
  | entering ready code free =>
      obtain ⟨before, after⟩ := disciplined.enter code
      exact owned.acquire ready free before after
  | resuming woken free =>
      apply owned.take free
      · intro other
        rw [woken]
        simp [Status.holds]
      · exact owned.parked (by rw [woken]; rfl)

/-- Ownership is invariant. -/
theorem Moves.owned [DecidableEq χ] [Fintype ι] (moves : Moves program config label after)
    (disciplined : Disciplined program holds) (owned : Owned holds config) : Owned holds after := by
  cases moves with
  | read arrives code result =>
      have arrived := arrives.owned disciplined owned
      have moved := arrived.goto (Config.set_threads_self ..) (disciplined.read code result)
        config.memory
      rw [Config.set_set, ← arrives.memory_eq] at moved
      exact moved
  | @act i point middle input run memory next arrives code result =>
      have arrived := arrives.owned disciplined owned
      have moved := arrived.goto (Config.set_threads_self ..) (disciplined.act code result) memory
      rwa [Config.set_set] at moved
  | lock ready code free =>
      obtain ⟨before, after⟩ := disciplined.lock code
      exact owned.acquire ready free before after
  | @unlock i point input mutex next ready code =>
      obtain ⟨held, after⟩ := disciplined.unlock code
      apply owned.release ready held
      · intro other
        by_cases same : other = mutex <;> simp [after, same]
      · intro mutex point waiting
        cases waiting
  | @wait i point input cond mutex next ready code =>
      obtain ⟨held, after⟩ := disciplined.wait code
      apply owned.release ready held
      · intro other
        simp [Status.holds, after]
      · intro other point waiting
        simp only [Status.parked, Option.some.injEq, Prod.mk.injEq] at waiting
        obtain ⟨rfl, rfl⟩ := waiting
        rw [after, held]
  | @broadcast i point input cond next ready code =>
      exact (owned.rouseAll cond).goto (Config.rouseAll_ready ready cond)
        (disciplined.broadcast code) config.memory
  | join ready code => exact owned.goto ready (disciplined.join code) config.memory
  | signal ready code sleeper =>
      exact (owned.wake sleeper).goto (Config.wake_ready ready sleeper)
        (disciplined.signal code) config.memory
  | signalNone ready code => exact owned.goto ready (disciplined.signal code) config.memory
  | @create i point start next child idle memory final ready code dormant isDormant different result =>
      obtain ⟨startHolds, nextHolds⟩ := disciplined.fork code
      have started : Owned holds (config.set child (.ready start)) :=
        owned.goto dormant (startHolds.trans (disciplined.dormant isDormant).symm) config.memory
      have awake : (config.set child (.ready start)).threads i = .ready point := by
        rw [Config.set_threads_of_ne _ _ different.symm, ready]
      have same := nextHolds config.memory (some child)
      rw [result] at same
      exact started.goto awake same memory
  | @createFails i point start next memory final ready code result =>
      have same := (disciplined.fork code).2 config.memory none
      rw [result] at same
      exact owned.goto ready same memory
  | spurious sleeper => exact owned.wake sleeper

end Ownership

/-- A proof outline: `global` holds of the memory at all times and `assert` holds
of it whenever a thread is at a point. -/
structure Outline [DecidableEq μ] (program : Program ι μ χ σ π α) (holds : π → μ → Bool)
    (global : σ → Prop) (assert : ι → π → σ → Prop) : Prop where
  read : ∀ {i point choose memory input next}, global memory → assert i point memory →
    program.code i point = .read choose → choose memory input = some next → assert i next memory
  act : ∀ {i point run memory input written next}, global memory → assert i point memory →
    program.code i point = .act run → run memory input = some (written, next) →
    global written ∧ assert i next written
  sync : ∀ {i point next memory}, global memory → (program.code i point).sync = some next →
    assert i point memory → assert i next memory
  /-- A sleeper cannot rely on anything when it wakes up. -/
  wait : ∀ {i point cond mutex next memory}, program.code i point = .wait cond mutex next →
    global memory → assert i next memory
  fork : ∀ {i point start next memory target written final}, global memory →
    program.code i point = .fork start next → next memory target = (written, final) →
    assert i point memory →
    global written ∧ assert i final written ∧ ∀ child, assert child start written
  /-- The accesses of another thread that holds no common mutex. -/
  stable : ∀ {i j point other run memory input written next}, i ≠ j → global memory →
    assert i point memory → assert j other memory →
    (∀ mutex, ¬ (holds point mutex = true ∧ holds other mutex = true)) →
    program.code i point = .act run → run memory input = some (written, next) →
    assert j other written
  stableFork : ∀ {i j point other start next memory target written final}, i ≠ j → global memory →
    assert j other memory → program.code i point = .fork start next →
    next memory target = (written, final) → assert j other written

structure Outlined (global : σ → Prop) (assert : ι → π → σ → Prop) (config : Config ι μ χ σ π) :
    Prop where
  memory : global config.memory
  ready : ∀ {j point}, config.threads j = .ready point → assert j point config.memory
  parked : ∀ {j mutex point}, (config.threads j).parked = some (mutex, point) →
    ∀ memory, global memory → assert j point memory

section Outlines

variable [DecidableEq ι] [DecidableEq μ] {program : Program ι μ χ σ π α} {holds : π → μ → Bool}
  {global : σ → Prop} {assert : ι → π → σ → Prop} {config middle after : Config ι μ χ σ π}
  {label : Label ι α} {i j : ι} {point : π} {memory : σ}

omit [DecidableEq ι] [DecidableEq μ] in
/-- The assertion at the point of a thread, whether it runs or waits. -/
theorem Outlined.assertion (outlined : Outlined global assert config) (i : ι) :
    assert i (config.point i) config.memory := by
  cases status : config.threads i with
  | ready point =>
      rw [point_ready status]
      exact outlined.ready status
  | asleep cond mutex point | woken mutex point =>
      have waiting := outlined.parked (j := i) (by rw [status]; rfl)
      have here : config.point i = point := by rw [Config.point, status]; rfl
      rw [here]
      exact waiting config.memory outlined.memory

omit [DecidableEq μ] in
/-- One thread changes its status and the memory. -/
theorem Outlined.set {status : Status μ χ π} {owner : μ → Option ι}
    (outlined : Outlined global assert config) (valid : global memory)
    (own : ∀ {point}, status = .ready point → assert i point memory)
    (sleep : ∀ {mutex point}, status.parked = some (mutex, point) →
      ∀ memory, global memory → assert i point memory)
    (rest : ∀ {j point}, j ≠ i → config.threads j = .ready point → assert j point memory) :
    Outlined global assert ⟨memory, owner, Function.update config.threads i status⟩ := by
  constructor
  · exact valid
  · intro j point ready
    by_cases here : j = i
    · subst here
      exact own (by simpa using ready)
    · exact rest here (by simpa [here] using ready)
  · intro j mutex point waiting
    by_cases here : j = i
    · subst here
      exact sleep (by simpa using waiting)
    · exact outlined.parked (by simpa [here] using waiting)

omit [DecidableEq μ] in
/-- A thread moves on and the memory stays. -/
theorem Outlined.goto {owner : μ → Option ι} (outlined : Outlined global assert config) {next : π}
    (own : assert i next config.memory) :
    Outlined global assert
      ⟨config.memory, owner, Function.update config.threads i (.ready next)⟩ := by
  apply outlined.set outlined.memory
  · intro point same
    cases same
    exact own
  · intro mutex point waiting
    cases waiting
  · intro j point _ ready
    exact outlined.ready ready

omit [DecidableEq μ] in
theorem Outlined.wake {cond : χ} {mutex : μ} (outlined : Outlined global assert config)
    (sleeper : config.threads j = .asleep cond mutex point) :
    Outlined global assert (config.set j (.woken mutex point)) := by
  apply outlined.set outlined.memory
  · intro point same
    cases same
  · intro other resume waiting
    apply outlined.parked
    rw [sleeper]
    exact waiting
  · intro other resume _ ready
    exact outlined.ready ready

omit [DecidableEq ι] [DecidableEq μ] in
theorem Outlined.rouseAll [DecidableEq χ] (outlined : Outlined global assert config) (cond : χ) :
    Outlined global assert (config.rouseAll cond) := by
  constructor
  · exact outlined.memory
  · intro j point ready
    change (config.threads j).rouse cond = .ready point at ready
    rcases (config.threads j).rouse_cases cond with same | ⟨mutex, resume, _, woken⟩
    · exact outlined.ready (same.symm.trans ready)
    · cases woken.symm.trans ready
  · intro j mutex point waiting
    apply outlined.parked
    simpa [Config.rouseAll, parked_rouse] using waiting

omit [DecidableEq ι] in
theorem Arrives.outlined (arrives : Arrives program config i point middle)
    (outline : Outline program holds global assert) (outlined : Outlined global assert config) :
    assert i point config.memory := by
  cases arrives with
  | here ready => exact outlined.ready ready
  | entering ready code =>
      exact outline.sync outlined.memory (congrArg Instr.sync code) (outlined.ready ready)
  | resuming woken =>
      apply outlined.parked (by rw [woken]; rfl)
      exact outlined.memory

/-- A thread that performs an access shares no mutex with another ready thread. -/
theorem Arrives.apart {other : π} (arrives : Arrives program config i point middle)
    (disciplined : Disciplined program holds) (owned : Owned holds config) (different : i ≠ j)
    (ready : config.threads j = .ready other) (mutex : μ) :
    ¬ (holds point mutex = true ∧ holds other mutex = true) := by
  intro ⟨first, second⟩
  have mine : ((middle.set i (.ready point)).threads i).holds holds mutex = true := by
    simpa using first
  have yours : ((middle.set i (.ready point)).threads j).holds holds mutex = true := by
    rw [Config.set_threads_of_ne _ _ different.symm, arrives.threads_eq, ready]
    exact second
  exact different ((arrives.owned disciplined owned).exclusive mine yours)

theorem Outlined.forked {start final : π} {next : σ → Option ι → σ × π} {target : Option ι}
    (outlined : Outlined global assert config) (outline : Outline program holds global assert)
    (ready : config.threads i = .ready point) (code : program.code i point = .fork start next)
    (result : next config.memory target = (memory, final)) :
    Outlined global assert
        ⟨memory, config.owner, Function.update config.threads i (.ready final)⟩ ∧
      ∀ child, assert child start memory := by
  obtain ⟨valid, own, born⟩ := outline.fork outlined.memory code result (outlined.ready ready)
  refine ⟨?_, born⟩
  apply outlined.set valid
  · intro point same
    cases same
    exact own
  · intro mutex point waiting
    cases waiting
  · intro j other different there
    exact outline.stableFork different.symm outlined.memory (outlined.ready there) code result

/-- Outlines are invariant. -/
theorem Moves.outlined [DecidableEq χ] [Fintype ι] (moves : Moves program config label after)
    (disciplined : Disciplined program holds) (outline : Outline program holds global assert)
    (owned : Owned holds config) (outlined : Outlined global assert config) :
    Outlined global assert after := by
  have hop : ∀ {i point next}, config.threads i = .ready point →
      (program.code i point).sync = some next → assert i next config.memory := by
    intro i point next ready code
    exact outline.sync outlined.memory code (outlined.ready ready)
  cases moves with
  | @read i point middle input choose next arrives code result =>
      have holding := arrives.outlined outline outlined
      rw [arrives.set_eq]
      exact outlined.goto (outline.read outlined.memory holding code result)
  | @act i point middle input run memory next arrives code result =>
      have holding := arrives.outlined outline outlined
      obtain ⟨valid, own⟩ := outline.act outlined.memory holding code result
      rw [arrives.write_eq]
      apply outlined.set valid
      · intro point same
        cases same
        exact own
      · intro mutex point waiting
        cases waiting
      · intro j other different ready
        exact outline.stable different.symm outlined.memory holding (outlined.ready ready)
          (arrives.apart disciplined owned different.symm ready) code result
  | lock ready code => exact outlined.goto (hop ready (congrArg Instr.sync code))
  | unlock ready code => exact outlined.goto (hop ready (congrArg Instr.sync code))
  | @wait i point input cond mutex next ready code =>
      apply outlined.set outlined.memory
      · intro point same
        cases same
      · intro other resume waiting memory valid
        cases waiting
        exact outline.wait code valid
      · intro j other _ there
        exact outlined.ready there
  | broadcast ready code =>
      exact (outlined.rouseAll _).goto (hop ready (congrArg Instr.sync code))
  | join ready code => exact outlined.goto (hop ready (congrArg Instr.sync code))
  | signal ready code sleeper =>
      exact (outlined.wake sleeper).goto (hop ready (congrArg Instr.sync code))
  | signalNone ready code => exact outlined.goto (hop ready (congrArg Instr.sync code))
  | @create i point start next child idle memory final ready code dormant isDormant different result =>
      obtain ⟨moved, born⟩ := outlined.forked outline ready code result
      have started : Outlined global assert ⟨memory, config.owner, Function.update
          (Function.update config.threads i (.ready final)) child (.ready start)⟩ :=
        moved.goto (born child)
      rwa [Function.update_comm different.symm] at started
  | createFails ready code result => exact (outlined.forked outline ready code result).1
  | spurious sleeper => exact outlined.wake sleeper

end Outlines

section Reachable

variable [DecidableEq ι] [DecidableEq μ] [DecidableEq χ] [Fintype ι]
  {program : Program ι μ χ σ π α} {allowed : Config ι μ χ σ π → Label ι α → Prop}
  {start config : Config ι μ χ σ π} {holds : π → μ → Bool} {global : σ → Prop}
  {assert : ι → π → σ → Prop}

theorem Reaches.owned (reaches : Reaches program allowed start config)
    (disciplined : Disciplined program holds) (initial : Owned holds start) : Owned holds config :=
  reaches.invariant (Owned holds) initial fun _ owned _ moves => moves.owned disciplined owned

theorem Reaches.outlined (reaches : Reaches program allowed start config)
    (disciplined : Disciplined program holds) (outline : Outline program holds global assert)
    (owned : Owned holds start) (initial : Outlined global assert start) :
    Outlined global assert config :=
  reaches.invariant (Outlined global assert) initial fun reached outlined _ moves =>
    moves.outlined disciplined outline (reached.owned disciplined owned) outlined

end Reachable

end ThreadPool.Foundation
