import ThreadPool.Foundation.Observation
import ThreadPool.Pool.Execution

namespace ThreadPool.Pool

open Foundation

/-! # Pausing the pool

A worker looks at `paused` at the top of its loop and not again before it has popped a
task. A pause therefore lets every worker that is past the check take one more task,
also a task that is submitted later.
-/

/-- A worker between its last look at `paused` and its pop. -/
def Pc.committed : Pc → Bool
  | .worker .pauseUnlock => true
  | .worker .popLock => true
  | .worker .popTest => true
  | .worker .popShutdown => true
  | .worker .popWait => true
  | _ => false

/-- The task that a worker has popped in its last step. -/
def Pc.popped : Pc → Option Addr
  | .worker (.unlockPopped task) => some task
  | _ => none

def Pc.hasPopped (pc : Pc) : Bool := pc.popped.isSome

/-- A worker between its last look at `paused` and the call of its task. -/
def Pc.mayStart : Pc → Bool
  | .worker (.unlockPopped _) => true
  | .worker (.setBusy _) => true
  | .worker (.call _) => true
  | pc => pc.committed

def Pc.runsTask : Pc → Bool
  | .worker (.running _) => true
  | _ => false

def Pc.isWorker : Pc → Bool
  | .worker _ => true
  | _ => false

section Transitions

variable {ι : Type} [DecidableEq ι] {me : ι} {memory after : Memory ι} {pc access next : Pc}

theorem syncs_isWorker (syncs : Syncs pc next) : next.isWorker = pc.isWorker := by
  cases syncs <;> rfl

theorem goes_isWorker (goes : Goes me memory pc after next) : next.isWorker = pc.isWorker := by
  cases goes with
  | sync syncs => exact syncs_isWorker syncs
  | read behind reads =>
      rw [← behind.same syncs_isWorker]
      cases reads with
      | call _ _ entry => cases entry <;> rfl
      | _ => rfl
  | write behind writes =>
      rw [← behind.same syncs_isWorker]
      cases writes <;> rfl
  | create | createFails | created => rfl

/-- While the pool is paused a thread comes inside only from inside, and the event takes
a worker from the inside out. -/
structure Gate (inside event : Pc → Bool) : Prop where
  sync : ∀ {pc next}, Syncs pc next →
    (inside next = true → inside pc = true) ∧ event next = false
  read : ∀ {ι : Type} {memory : Memory ι} {pc next}, Reads memory pc next →
    (memory.paused = true → inside next = true → inside pc = true) ∧ event next = false
  write : ∀ {ι : Type} [DecidableEq ι] {me : ι} {memory after : Memory ι} {pc next},
    Writes me memory pc after next →
    (inside next = true → inside pc = true) ∧ (event next = true → inside pc = true)
  worker : ∀ {pc}, inside pc = true ∨ event pc = true → pc.isWorker = true
  left : ∀ {pc}, event pc = true → inside pc = false

theorem Gate.closed {inside event : Pc → Bool} (gate : Gate inside event)
    (goes : Goes me memory pc after next) (paused : memory.paused = true)
    (there : inside next = true) : inside pc = true := by
  have back : ∀ {pc next}, Syncs pc next → inside next = true → inside pc = true :=
    fun syncs => (gate.sync syncs).1
  cases goes with
  | sync syncs => exact back syncs there
  | read behind reads => exact behind.reflects back ((gate.read reads).1 paused there)
  | write behind writes => exact behind.reflects back ((gate.write writes).1 there)
  | create | createFails | created => cases gate.worker (.inl there)

theorem Gate.passed {inside event : Pc → Bool} (gate : Gate inside event)
    (goes : Goes me memory pc after next) (happens : event next = true) : inside pc = true := by
  cases goes with
  | sync syncs => simp [(gate.sync syncs).2] at happens
  | read behind reads => simp [(gate.read reads).2] at happens
  | write behind writes =>
      exact behind.reflects (fun syncs => (gate.sync syncs).1) ((gate.write writes).2 happens)
  | create | createFails | created => cases gate.worker (.inr happens)

theorem pop_gate : Gate Pc.committed Pc.hasPopped where
  sync syncs := by
    cases syncs with
    | pauseUnlock | popLock | popWait => exact ⟨fun _ => rfl, rfl⟩
    | _ => exact ⟨nofun, rfl⟩
  read reads := by
    cases reads with
    | topRunning running | resumed running => simp [running, Pc.hasPopped, Pc.popped]
    | call _ _ entry => cases entry <;> exact ⟨nofun, rfl⟩
    | popSleep => exact ⟨fun _ _ => rfl, rfl⟩
    | _ => exact ⟨nofun, rfl⟩
  write writes := by
    cases writes with
    | pop => exact ⟨nofun, fun _ => rfl⟩
    | popEmpty => exact ⟨fun _ => rfl, nofun⟩
    | _ => exact ⟨nofun, nofun⟩
  worker {pc} here := by
    cases pc with
    | worker => rfl
    | _ => exact here.elim nofun nofun
  left {pc} happens := by
    cases pc with
    | worker pc => cases pc <;> first | rfl | cases happens
    | _ => cases happens

theorem start_gate : Gate Pc.mayStart Pc.runsTask where
  sync syncs := by
    cases syncs with
    | pauseUnlock | popLock | popWait | unlockPopped => exact ⟨fun _ => rfl, rfl⟩
    | _ => exact ⟨nofun, rfl⟩
  read reads := by
    cases reads with
    | topRunning running | resumed running => simp [running, Pc.runsTask]
    | call _ _ entry => cases entry <;> exact ⟨nofun, rfl⟩
    | popSleep => exact ⟨fun _ _ => rfl, rfl⟩
    | _ => exact ⟨nofun, rfl⟩
  write writes := by
    cases writes with
    | call => exact ⟨nofun, fun _ => rfl⟩
    | pop | popEmpty | setBusy => exact ⟨fun _ => rfl, nofun⟩
    | _ => exact ⟨nofun, nofun⟩
  worker {pc} here := by
    cases pc with
    | worker => rfl
    | _ => exact here.elim nofun nofun
  left {pc} happens := by
    cases pc with
    | worker pc => cases pc <;> first | rfl | cases happens
    | _ => cases happens

end Transitions

section Leak

variable {ι : Type} [DecidableEq ι] [Fintype ι] {config after : PoolConfig ι} {label : Label ι Input}
  {roles : ι → Role} {idCount : Nat} {inside event : Pc → Bool} {count : ι → Nat}

/-- Count the threads that an event happens to in a step. -/
def tally (event : Pc → Bool) (config after : PoolConfig ι) (count : ι → Nat) (i : ι) : Nat :=
  if event (after.point i) = true ∧ event (config.point i) = false then count i + 1 else count i

/-- The pops and the calls of tasks since the pool was paused, thread by thread. -/
structure Leak (ι : Type) where
  pops : ι → Nat := fun _ => 0
  starts : ι → Nat := fun _ => 0

def countLeak (leak : Leak ι) (config : PoolConfig ι) (_ : Label ι Input) (after : PoolConfig ι) :
    Leak ι :=
  if after.memory.paused = true then
    { pops := tally Pc.hasPopped config after leak.pops
      starts := tally Pc.runsTask config after leak.starts }
  else {}

/-- Nobody has left the gate twice since the pool was paused. -/
structure AtMostOnce (roles : ι → Role) (inside : Pc → Bool) (config : PoolConfig ι) (count : ι → Nat) :
    Prop where
  unpaused : config.memory.paused = false → ∀ i, count i = 0
  once : ∀ i, count i ≤ 1
  before : ∀ i, inside (config.point i) = true → count i = 0
  workers : ∀ i, count i ≠ 0 → roles i = .worker

theorem moves_worker (moves : Moves pool config label after)
    (workers : ∀ i, (config.point i).isWorker = true → roles i = .worker) (i : ι)
    (here : (after.point i).isWorker = true) : roles i = .worker := by
  apply workers i
  rcases moves_goes moves i with same | goes
  · rwa [same] at here
  · rwa [goes_isWorker goes] at here

theorem reachable_worker {allowed : PoolConfig ι → Label ι Input → Prop}
    (reaches : Reaches pool allowed (threadPoolInit roles idCount) config) (i : ι)
    (here : (config.point i).isWorker = true) : roles i = .worker := by
  refine reaches.invariant (fun config => ∀ i, (config.point i).isWorker = true → roles i = .worker)
    ?_ (fun _ workers _ moves => moves_worker moves workers) i here
  intro i here
  change (roles i).start.isWorker = true at here
  cases role : roles i with
  | worker => rfl
  | client | spare =>
      rw [role] at here
      cases here

omit [DecidableEq ι] [Fintype ι] in
theorem atMostOnce_zero (roles : ι → Role) (inside : Pc → Bool) (config : PoolConfig ι) :
    AtMostOnce roles inside config fun _ => 0 :=
  ⟨fun _ _ => rfl, fun _ => Nat.zero_le 1, fun _ _ => rfl, fun _ nonzero => absurd rfl nonzero⟩

theorem atMostOnce_step (gate : Gate inside event) (moves : Moves pool config label after)
    (paused : after.memory.paused = true)
    (workers : ∀ i, (after.point i).isWorker = true → roles i = .worker)
    (invariant : AtMostOnce roles inside config count) :
    AtMostOnce roles inside after (tally event config after count) := by
  -- A thread that the event happens to was inside a paused pool, so it is its first time.
  have fresh : ∀ i, event (after.point i) = true → event (config.point i) = false → count i = 0 := by
    intro i happens quiet
    rcases moves_goes moves i with same | goes
    · rw [same, quiet] at happens
      cases happens
    · exact invariant.before i (gate.passed goes happens)
  refine ⟨by simp [paused], ?_, ?_, ?_⟩
  · intro i
    unfold tally
    split
    case isTrue happens => rw [fresh i happens.1 happens.2]
    case isFalse => exact invariant.once i
  · intro i there
    have quiet : event (after.point i) = false := by
      refine Bool.eq_false_of_not_eq_true fun happens => ?_
      rw [gate.left happens] at there
      cases there
    simp only [tally, quiet, Bool.false_eq_true, false_and, if_false]
    cases before : config.memory.paused with
    | false => exact invariant.unpaused before i
    | true =>
        apply invariant.before
        rcases moves_goes moves i with same | goes
        · rwa [same] at there
        · exact gate.closed goes before there
  · intro i nonzero
    unfold tally at nonzero
    split at nonzero
    case isTrue happens => exact workers i (gate.worker (.inr happens.1))
    case isFalse => exact invariant.workers i nonzero

omit [DecidableEq ι] in
theorem sum_atMostOnce (invariant : AtMostOnce roles inside config count) :
    ∑ i, count i ≤ (Finset.univ.filter fun i => roles i = .worker).card := by
  rw [Finset.card_filter]
  refine Finset.sum_le_sum fun i _ => ?_
  split
  case isTrue => exact invariant.once i
  case isFalse other =>
    rw [Nat.le_zero]
    by_contra nonzero
    exact other (invariant.workers i nonzero)

theorem observed_leak {allowed : Leak ι → PoolConfig ι → Label ι Input → Prop} {leak : Leak ι}
    (observed : Observed pool countLeak allowed (threadPoolInit roles idCount) {} config leak) :
    AtMostOnce roles Pc.committed config leak.pops ∧ AtMostOnce roles Pc.mayStart config leak.starts := by
  refine observed.invariant
    (fun config leak => AtMostOnce roles Pc.committed config leak.pops ∧
      AtMostOnce roles Pc.mayStart config leak.starts)
    ⟨atMostOnce_zero .., atMostOnce_zero ..⟩ ?_
  intro config leak label after reaches ⟨pops, starts⟩ _ moves
  have workers := moves_worker moves (reachable_worker reaches)
  unfold countLeak
  split
  case isTrue paused =>
    exact ⟨atMostOnce_step pop_gate moves paused workers pops,
      atMostOnce_step start_gate moves paused workers starts⟩
  case isFalse => exact ⟨atMostOnce_zero .., atMostOnce_zero ..⟩

/-- From the store of a pause to the store that ends it, every worker pops at most one
task and starts at most one, so all workers together as many as there are workers. -/
theorem pause_leaks_one_task_per_worker {allowed : Leak ι → PoolConfig ι → Label ι Input → Prop}
    {leak : Leak ι}
    (observed : Observed pool countLeak allowed (threadPoolInit roles idCount) {} config leak) :
    (∀ i, leak.pops i ≤ 1 ∧ leak.starts i ≤ 1) ∧
      ∑ i, leak.pops i ≤ (Finset.univ.filter fun i => roles i = .worker).card ∧
      ∑ i, leak.starts i ≤ (Finset.univ.filter fun i => roles i = .worker).card := by
  obtain ⟨pops, starts⟩ := observed_leak observed
  exact ⟨fun i => ⟨pops.once i, starts.once i⟩, sum_atMostOnce pops, sum_atMostOnce starts⟩

end Leak

/-- Worker 0 has passed the check of `paused`; the pause is stored and worker 0 pops the
task that is submitted then. -/
theorem pause_leaks_one_task_per_worker_sleeper : ∃ config leak,
    Observed pool countLeak (fun _ _ _ => True) (threadPoolInit oneWorker 0) {} config leak ∧
      leak.pops 0 = 1 ∧ ∑ i, leak.pops i ≤ 1 := by
  obtain ⟨config, leak, observed, popped⟩ := Observed.of_schedule pool countLeak (fun _ _ _ => True)
    (threadPoolInit oneWorker 0) {}
    ([go 0, .run 1 (.call .pause), go 1] ++ submitSteps 2 ⟨1, 0, .low⟩ ++ [go 0])
    (fun _ leak => leak.pops 0 = 1) (by decide)
  exact ⟨config, leak, observed, popped, (pause_leaks_one_task_per_worker observed).2.1⟩

/-! ## Tasks submitted under a pause -/

def Pc.submits : Pc → Bool
  | .submit _ => true
  | _ => false

section Late

variable {ι : Type} [DecidableEq ι] [Fintype ι] {config after : PoolConfig ι} {label : Label ι Input}
  {roles : ι → Role} {idCount : Nat}

/-- What is known of the pause in force. -/
structure PauseWatch (ι : Type) where
  /-- A call of `thread_pool_pause` has returned. -/
  inForce : Bool := false
  /-- The threads inside a submit call that began under the pause in force. -/
  late : ι → Bool := fun _ => false
  /-- The tasks that such calls created. -/
  tasks : List Addr := []

/-- The task that a step creates in a late submit call. -/
def lateTask (watch : PauseWatch ι) (config after : PoolConfig ι) : Label ι Input → Option Addr
  | .run i _ =>
      match config.point i, after.point i with
      | .submit (.create _), .submit (.count ticket) => if watch.late i then some ticket.task else none
      | _, _ => none
  | _ => none

/-- A store of `paused = false` ends the pause and what is known of it. -/
def watchPause (watch : PauseWatch ι) (config : PoolConfig ι) (label : Label ι Input)
    (after : PoolConfig ι) : PauseWatch ι :=
  if after.memory.paused = true then
    { inForce := watch.inForce ||
        decide (∃ i, config.point i = .wakeAll .pause .unlock ∧ after.point i = .client none)
      late := fun i => (after.point i).submits &&
        (watch.late i || (watch.inForce && !(config.point i).submits))
      tasks := (lateTask watch config after label).toList ++ watch.tasks }
  else {}

def beginsSubmit : Label ι Input → Bool
  | .run _ (.call (.submit _)) => true
  | _ => false

/-- When a submit call begins under a pause in force, no worker is between its check of
`paused` and its pop. -/
def SubmitFindsNoneCommitted (watch : PauseWatch ι) (config : PoolConfig ι) (label : Label ι Input) :
    Prop :=
  beginsSubmit label = true → watch.inForce = true → ∀ j, (config.point j).committed = false

instance (watch : PauseWatch ι) (config : PoolConfig ι) (label : Label ι Input) :
    Decidable (SubmitFindsNoneCommitted watch config label) :=
  inferInstanceAs (Decidable (beginsSubmit label = true → watch.inForce = true →
    ∀ j, (config.point j).committed = false))

theorem submit_region : Region Pc.submits where
  sync syncs there := by cases syncs <;> first | rfl | cases there
  read reads := by
    cases reads with
    | call last => exact .inl ⟨last, rfl⟩
    | refuse | pass | unbounded | bounded | deep | shallow | aged | unaged | loadCap =>
        exact .inr fun _ => rfl
    | _ => exact .inr nofun
  write writes there := by cases writes <;> first | rfl | cases there
  undo := nofun
  client := rfl
  aging := rfl

/-- A submit call begins with the call of an application thread. -/
theorem submit_begins (moves : Moves pool config label after) {i : ι}
    (outside : (config.point i).submits = false) (begins : (after.point i).submits = true) :
    ∃ args, label = .run i (.call (.submit args)) := by
  obtain ⟨call, rfl, entry⟩ := submit_region.entered moves outside begins
  rw [entry] at begins
  cases call with
  | submit args => exact ⟨args, rfl⟩
  | enableAging =>
      simp only [Call.entry] at begins
      split at begins <;> cases begins
  | _ => cases begins

omit [Fintype ι] in
/-- A created task is new. -/
theorem goes_creates {me : ι} {memory after : Memory ι} {args : SubmitArgs} {ticket : Ticket}
    (goes : Goes me memory (.submit (.create args)) after (.submit (.count ticket))) :
    ticket.task = memory.fresh := by
  cases goes with
  | sync syncs => cases syncs
  | read behind reads =>
      rcases behind with rfl | syncs
      · cases reads
      · cases syncs
  | write behind writes =>
      rcases behind with rfl | syncs
      · cases writes
        rfl
      · cases syncs

theorem popped_not_fresh {allowed : PoolConfig ι → Label ι Input → Prop}
    (reaches : Reaches pool allowed (threadPoolInit roles idCount) config) (j : ι) :
    (config.point j).popped ≠ some config.memory.fresh := by
  intro popped
  obtain ⟨lanes, books⟩ := reachable_balanced reaches
  have taken : config.memory.fresh ∈ holding config Phase.share .taken := by
    rw [holding, Config.total, Finset.sum_apply, Multiset.mem_sum]
    refine ⟨j, Finset.mem_univ j, ?_⟩
    change config.memory.fresh ∈ (config.point j).phase.share .taken
    generalize config.point j = pc at popped ⊢
    cases pc with
    | worker pc =>
        cases pc <;> cases popped
        exact Multiset.mem_singleton_self _
    | _ => cases popped
  exact lt_irrefl _ (books.accepted_created (books.taken_accepted taken))

/-- From the first late submit call on no worker is committed, and nobody pops. -/
structure LateQuiet (config : PoolConfig ι) (watch : PauseWatch ι) : Prop where
  paused : watch.inForce = true ∨ (∃ i, watch.late i = true) ∨ watch.tasks ≠ [] →
    config.memory.paused = true
  calm : (∃ i, watch.late i = true) ∨ watch.tasks ≠ [] → ∀ j, (config.point j).committed = false
  kept : ∀ task ∈ watch.tasks, ∀ j, (config.point j).popped ≠ some task

theorem lateTask_cases {watch : PauseWatch ι} {task : Addr}
    (moves : Moves pool config label after) (created : lateTask watch config after label = some task) :
    (∃ i, watch.late i = true) ∧ task = config.memory.fresh := by
  unfold lateTask at created
  split at created
  case h_1 i _ =>
    split at created
    case h_1 before behind =>
      split at created
      case isTrue late =>
        cases created
        refine ⟨⟨i, late⟩, ?_⟩
        have step := moves_goes moves i
        rw [before, behind] at step
        exact goes_creates (step.resolve_left nofun)
      case isFalse => cases created
    case h_2 => cases created
  case h_2 => cases created

/-- A paused pool without committed workers stays so. -/
theorem uncommitted_step (moves : Moves pool config label after) (paused : config.memory.paused = true)
    (calm : ∀ j, (config.point j).committed = false) (j : ι) : (after.point j).committed = false := by
  refine Bool.eq_false_of_not_eq_true fun there => ?_
  rcases moves_goes moves j with same | goes
  · simp [same, calm j] at there
  · have before := pop_gate.closed goes paused there
    rw [calm j] at before
    cases before

/-- Without committed workers nobody pops. -/
theorem uncommitted_popped (moves : Moves pool config label after)
    (calm : ∀ j, (config.point j).committed = false) {j : ι} {task : Addr}
    (popped : (after.point j).popped = some task) : (config.point j).popped = some task := by
  rcases moves_goes moves j with same | goes
  · rwa [same] at popped
  · have inside := pop_gate.passed goes (by rw [Pc.hasPopped, popped]; rfl)
    rw [calm j] at inside
    cases inside

theorem lateQuiet_step {watch : PauseWatch ι}
    (reaches : Reaches pool (fun _ _ => True) (threadPoolInit roles idCount) config)
    (quiet : LateQuiet config watch) (permitted : SubmitFindsNoneCommitted watch config label)
    (moves : Moves pool config label after) :
    LateQuiet after (watchPause watch config label after) := by
  unfold watchPause
  split
  case isFalse => exact ⟨by simp, by simp, by simp⟩
  case isTrue paused =>
    refine ⟨fun _ => paused, ?_, ?_⟩
    · intro active
      have before : config.memory.paused = true ∧ ∀ j, (config.point j).committed = false := by
        rcases active with ⟨i, late⟩ | tasks
        · simp only [Bool.and_eq_true, Bool.or_eq_true, Bool.not_eq_true'] at late
          obtain ⟨begins, late | ⟨inForce, outside⟩⟩ := late
          · exact ⟨quiet.paused (.inr (.inl ⟨i, late⟩)), quiet.calm (.inl ⟨i, late⟩)⟩
          · obtain ⟨args, rfl⟩ := submit_begins moves outside begins
            exact ⟨quiet.paused (.inl inForce), permitted rfl inForce⟩
        · cases created : lateTask watch config after label with
          | none =>
              simp only [created, Option.toList_none, List.nil_append] at tasks
              exact ⟨quiet.paused (.inr (.inr tasks)), quiet.calm (.inr tasks)⟩
          | some task =>
              have late := (lateTask_cases moves created).1
              exact ⟨quiet.paused (.inr (.inl late)), quiet.calm (.inl late)⟩
      exact uncommitted_step moves before.1 before.2
    · intro task member j popped
      simp only [List.mem_append, Option.mem_toList] at member
      rcases member with created | old
      · obtain ⟨late, rfl⟩ := lateTask_cases moves created
        exact popped_not_fresh reaches j (uncommitted_popped moves (quiet.calm (.inl late)) popped)
      · have calm := quiet.calm (.inr (List.ne_nil_of_mem old))
        exact quiet.kept task old j (uncommitted_popped moves calm popped)

/-- If no worker is past its check of `paused` whenever a submit call begins under a pause
in force, no worker pops a task of such a call while the pause lasts. -/
theorem late_tasks_stay_queued {watch : PauseWatch ι}
    (observed : Observed pool watchPause SubmitFindsNoneCommitted (threadPoolInit roles idCount) {}
      config watch) (i : ι) (task : Addr) (late : task ∈ watch.tasks) :
    (config.point i).popped ≠ some task := by
  have initial : LateQuiet (threadPoolInit roles idCount) {} := ⟨by simp, by simp, by simp⟩
  exact (observed.invariant LateQuiet initial lateQuiet_step).kept task late i

end Late

/-- A call of `thread_pool_pause`. -/
def pauseSteps {ι : Type} (i : ι) : List (Label ι Input) :=
  [.run i (.call .pause), go i, go i, go i, go i]

/-- The worker is stopped by the pause before the task is submitted. -/
theorem late_tasks_stay_queued_parked : ∃ config watch,
    Observed pool watchPause SubmitFindsNoneCommitted (threadPoolInit oneWorker 0) {} config watch ∧
      0 ∈ watch.tasks ∧ (config.point 0).popped ≠ some 0 := by
  obtain ⟨config, watch, observed, late⟩ := Observed.of_schedule pool watchPause SubmitFindsNoneCommitted
    (threadPoolInit oneWorker 0) {} (pauseSteps 1 ++ submitSteps 2 ⟨1, 0, .low⟩ ++ [go 0, go 0, go 0])
    (fun _ watch => 0 ∈ watch.tasks) (by decide)
  exact ⟨config, watch, observed, late, late_tasks_stay_queued observed 0 0 late⟩

/-- Worker 0 sleeps on the empty queue, the pause wakes it, it sleeps again, and it pops
the task that is submitted after the pause has returned. -/
theorem sleeper_pops_late_task : ∃ config watch,
    Observed pool watchPause (fun _ _ _ => True) (threadPoolInit oneWorker 0) {} config watch ∧
      config.memory.paused = true ∧ 0 ∈ watch.tasks ∧ (config.point 0).popped = some 0 := by
  exact Observed.of_schedule pool watchPause (fun _ _ _ => True) (threadPoolInit oneWorker 0) {}
    (List.replicate 4 (go 0) ++ pauseSteps 1 ++ List.replicate 3 (go 0) ++
      [.run 2 (.call (.submit ⟨1, 0, .low⟩)), go 2, go 2, go 2, .run 2 (.alloc true), go 2, go 2, go 2,
        go 2, go 2, .pick 2 (some 0), go 2, go 0])
    (fun config watch => config.memory.paused = true ∧ 0 ∈ watch.tasks ∧
      (config.point 0).popped = some 0)
    (by decide)

end ThreadPool.Pool
