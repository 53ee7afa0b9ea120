import ThreadPool.Foundation.Quiescence
import ThreadPool.Pool.Execution

namespace ThreadPool.Pool

open Foundation

/-! # Shutdown

A submit call announces itself before it looks at the flag, and `thread_pool_destroy`
sets the flag before it looks for announced calls. Once it has seen none, no call can
be past its check of the flag any more, so the counter can only fall. A call that announces
itself later is not awaited, and uses the pool even if it was freed in the meantime.
-/

/-- How far a call of `thread_pool_destroy` has come: it has set the flag (1), has seen
no announced submit call (2), has left its drain loop (3). -/
def Pc.destroyStage : Pc → Nat
  | .destroy .storeShutdown => 0
  | .destroy .storePaused => 1
  | .destroy .spin => 1
  | .wakeAll .destroy _ => 2
  | .wakePause .destroy _ => 2
  | .wakePause (.disable .destroy) _ => 2
  | .disable .destroy _ => 2
  | .drain .destroy .unlock => 3
  | .drain .destroy _ => 2
  | .destroy _ => 3
  | _ => 0

/-- A submit call behind its check of the flag that did not fail there. -/
def SubmitPc.passed : SubmitPc → Bool
  | .announce _ => false
  | .checkShutdown _ => false
  | .fail .eshutdown => false
  | _ => true

def Pc.passed : Pc → Bool
  | .submit pc => pc.passed
  | _ => false

/-- The share of a thread in the outstanding tasks. -/
def Phase.outstanding : Phase → Nat
  | .idle => 0
  | _ => 1

section Transitions

variable {ι : Type} [DecidableEq ι] {me : ι} {memory after : Memory ι} {pc access next : Pc}

theorem syncs_stage (syncs : Syncs pc next) : next.destroyStage = pc.destroyStage := by
  cases syncs with
  | wakePauseLock caller | wakePauseBroadcast caller => rcases caller with _ | ⟨_ | _⟩ | _ <;> rfl
  | waiterLock caller | waiterSleep caller => cases caller <;> rfl
  | disableWoken caller | disableLock caller | disableSignal caller | disableUnlock caller =>
      cases caller <;> rfl
  | wakeAllLock caller | wakeAllBroadcast caller => cases caller <;> rfl
  | _ => rfl

theorem syncs_passed (syncs : Syncs pc next) : next.passed = pc.passed := by
  cases syncs <;> rfl

theorem writes_shutdown (writes : Writes me memory pc after next) (flagged : memory.shutdown = true) :
    after.shutdown = true := by
  cases writes with
  | storeShutdown => rfl
  | _ => exact flagged

omit [DecidableEq ι] in
theorem reads_stage (reads : Reads memory pc next) :
    next.destroyStage = pc.destroyStage ∨
      (pc.destroyStage = 1 ∧ next.destroyStage = 2 ∧ memory.inFlightSubmits = 0#32) ∨
      (pc.destroyStage = 2 ∧ next.destroyStage = 3 ∧ memory.totalTaskInSystem ≤ 0) := by
  cases reads with
  | call last next entry => cases entry <;> exact .inl rfl
  | quiet none =>
      refine .inr (.inl ⟨rfl, rfl, ?_⟩)
      bv_omega
  | drained caller empty =>
      cases caller with
      | wait => exact .inl rfl
      | destroy => exact .inr (.inr ⟨rfl, rfl, empty⟩)
  | undrained caller | enabled caller => cases caller <;> exact .inl rfl
  | _ => exact .inl rfl

theorem writes_stage (writes : Writes me memory pc after next) :
    next.destroyStage = pc.destroyStage ∨ (next.destroyStage = 1 ∧ after.shutdown = true) := by
  cases writes with
  | storeShutdown => exact .inr ⟨rfl, rfl⟩
  | disableStore caller => cases caller <;> exact .inl rfl
  | _ => exact .inl rfl

/-- The three steps with which `thread_pool_destroy` comes further. -/
theorem goes_stage (goes : Goes me memory pc after next) :
    next.destroyStage = pc.destroyStage ∨ (next.destroyStage = 1 ∧ after.shutdown = true) ∨
      (pc.destroyStage = 1 ∧ next.destroyStage = 2 ∧ memory.inFlightSubmits = 0#32) ∨
      (pc.destroyStage = 2 ∧ next.destroyStage = 3 ∧ memory.totalTaskInSystem ≤ 0) := by
  cases goes with
  | sync syncs => exact .inl (syncs_stage syncs)
  | read behind reads =>
      rw [← behind.same syncs_stage]
      exact (reads_stage reads).imp_right .inr
  | write behind writes =>
      rw [← behind.same syncs_stage]
      exact (writes_stage writes).imp_right .inl
  | create | createFails | created => exact .inl rfl

/-- A submit call passes its check only while the flag is clear. -/
theorem goes_passed (goes : Goes me memory pc after next) (passed : next.passed = true) :
    pc.passed = true ∨ memory.shutdown = false := by
  cases goes with
  | sync syncs => exact .inl (by rw [← syncs_passed syncs, passed])
  | read behind reads =>
      rw [← behind.same syncs_passed]
      cases reads with
      | pass args running => exact .inr running
      | call last next entry => cases entry <;> cases passed
      | unbounded | bounded | deep | shallow | aged | unaged | loadCap => exact .inl rfl
      | _ => cases passed
  | write behind writes =>
      rw [← behind.same syncs_passed]
      cases writes with
      | create | createFails | count | stamp | full | insert | uncount | discard => exact .inl rfl
      | _ => cases passed
  | create | createFails | created => cases passed

/-- A submit call that has not passed its check leaves the queue and the counter alone,
and fails. -/
theorem goes_refused {submit : SubmitPc} (goes : Goes me memory (.submit submit) after next)
    (stopped : submit.passed = false) :
    after.pq = memory.pq ∧ after.totalTaskInSystem = memory.totalTaskInSystem ∧
      ∀ result, next = .client result → result = some (.error .eshutdown) := by
  have behind_self : ∀ {access}, Behind (.submit submit) access → access = .submit submit := by
    intro access behind
    rcases behind with same | syncs
    · exact same.symm
    · cases syncs <;> cases stopped
  cases goes with
  | sync syncs => cases syncs <;> cases stopped
  | read behind reads =>
      cases behind_self behind
      cases reads <;> exact ⟨rfl, rfl, fun _ target => by cases target⟩
  | write behind writes =>
      cases behind_self behind
      cases writes with
      | announce args => exact ⟨rfl, rfl, fun _ target => by cases target⟩
      | fail errno =>
          cases errno <;> cases stopped
          exact ⟨rfl, rfl, fun _ target => by cases target; rfl⟩
      | _ => cases stopped

end Transitions

section Reachable

variable {ι : Type} [DecidableEq ι] [Fintype ι] {config after : PoolConfig ι} {label : Label ι Input}
  {allowed : PoolConfig ι → Label ι Input → Prop} {roles : ι → Role} {idCount : Nat}

/-- The tasks that are queued, with a worker, or brought by a submit call in flight. -/
def outstandingTasks (config : PoolConfig ι) : Nat :=
  config.memory.countedTasks + holding config Phase.outstanding

omit [DecidableEq ι] in
theorem holding_le {share bound : Phase → Nat} (below : ∀ phase, share phase ≤ bound phase) :
    holding config share ≤ holding config bound :=
  Finset.sum_le_sum fun _ _ => below _

omit [DecidableEq ι] in
theorem tasksInSystem_le (config : PoolConfig ι) : tasksInSystem config ≤ outstandingTasks config := by
  have counts : holding config Phase.counts ≤ holding config Phase.outstanding :=
    holding_le fun phase => by cases phase <;> simp [Phase.counts, Phase.outstanding]
  simp only [tasksInSystem, outstandingTasks]
  omega

omit [DecidableEq ι] in
theorem submitsInFlight_le (config : PoolConfig ι) : submitsInFlight config ≤ outstandingTasks config := by
  have inFlight : holding config Phase.inFlight ≤ holding config Phase.outstanding :=
    holding_le fun phase => by cases phase <;> simp [Phase.inFlight, Phase.outstanding]
  simp only [submitsInFlight, outstandingTasks]
  omega

theorem passed_inFlight {pc : Pc} (passed : pc.passed = true) : pc.phase.inFlight = 1 := by
  cases pc with
  | submit pc => cases pc <;> first | rfl | cases passed
  | _ => cases passed

/-- When no submit call is in flight, none has passed its check. -/
theorem none_passed (reaches : Reaches pool allowed (threadPoolInit roles idCount) config)
    (few : outstandingTasks config < 2 ^ 31) (zero : config.memory.inFlightSubmits = 0#32) (j : ι) :
    (config.point j).passed = false := by
  have counter := congrArg BitVec.toNat ((reachable_inFlight reaches).symm.trans zero)
  have bound := submitsInFlight_le config
  simp only [BitVec.toNat_ofNat] at counter
  have none : submitsInFlight config = 0 := by omega
  have mine : (config.point j).phase.inFlight = 0 :=
    Finset.sum_eq_zero_iff.mp none j (Finset.mem_univ j)
  cases passed : (config.point j).passed with
  | false => rfl
  | true => simp [passed_inFlight passed] at mine

/-- What holds once a call of `thread_pool_destroy` has come to a stage. -/
structure Quiescing (config : PoolConfig ι) : Prop where
  flagged : ∀ i, 1 ≤ (config.point i).destroyStage → config.memory.shutdown = true
  quiet : ∀ i, 2 ≤ (config.point i).destroyStage → ∀ j, (config.point j).passed = false
  drained : ∀ i, 3 ≤ (config.point i).destroyStage → tasksInSystem config = 0

theorem moves_shutdown (moves : Moves pool config label after)
    (flagged : config.memory.shutdown = true) : after.memory.shutdown = true := by
  rcases moves_holding (fun _ => 0) moves with
    ⟨memory, _⟩ | ⟨_, _, _, _, _, writes, _⟩ | ⟨_, memory, _⟩
  · rw [memory, flagged]
  · exact writes_shutdown writes flagged
  · rw [memory]
    exact flagged

/-- Points that a thread reaches only while the flag is clear. -/
theorem moves_enters {inside : Pc → Bool}
    (enters : ∀ {me memory pc after next}, Goes (ι := ι) me memory pc after next → inside next = true →
      inside pc = true ∨ memory.shutdown = false)
    (moves : Moves pool config label after) (j : ι) (here : inside (after.point j) = true) :
    inside (config.point j) = true ∨ config.memory.shutdown = false := by
  rcases moves_goes moves j with same | goes
  · exact .inl (by rwa [← same])
  · exact enters goes here

/-- Without calls past their check nothing more is counted. -/
theorem moves_drained (reaches : Reaches pool allowed (threadPoolInit roles idCount) config)
    (moves : Moves pool config label after) (quiet : ∀ j, (config.point j).passed = false)
    (none : tasksInSystem config = 0) : tasksInSystem after = 0 := by
  obtain ⟨lanes, books⟩ := reachable_balanced reaches
  rcases moves_total moves books.represents with
    ⟨_, tasks⟩ | ⟨⟨i, ticket, counting⟩, _⟩ | ⟨_, tasks⟩
  · rw [tasks, none]
  · have passed := quiet i
    rw [counting] at passed
    cases passed
  · omega

/-- The shutdown of the pool in stages. -/
def quiescence (config : PoolConfig ι) : Quiescence ι where
  stage i := (config.point i).destroyStage
  flag := config.memory.shutdown
  inside j := (config.point j).passed
  drained := tasksInSystem config = 0

theorem moves_quiescence (reaches : Reaches pool allowed (threadPoolInit roles idCount) config)
    (few : outstandingTasks config < 2 ^ 31) (moves : Moves pool config label after) :
    Quiescence.Step (quiescence config) (quiescence after) where
  stages i := by
    rcases moves_goes moves i with same | goes
    · exact .inl (congrArg Pc.destroyStage same)
    rcases goes_stage goes with same | first | ⟨one, two, zero⟩ | ⟨two, three, empty⟩
    · exact .inl same
    · exact .inr (.inl first)
    · exact .inr (.inr (.inl ⟨one, two, none_passed reaches few zero⟩))
    · have bound := tasksInSystem_le config
      have counter := reachable_total_eq reaches (by omega)
      have drained : tasksInSystem config = 0 := by omega
      exact .inr (.inr (.inr ⟨two, three, drained⟩))
  flag := moves_shutdown moves
  enters := moves_enters goes_passed moves
  settles := moves_drained reaches moves

theorem quiescing_step (reaches : Reaches pool allowed (threadPoolInit roles idCount) config)
    (few : outstandingTasks config < 2 ^ 31) (moves : Moves pool config label after)
    (quiescing : Quiescing config) : Quiescing after := by
  have staged := (moves_quiescence reaches few moves).staged
    ⟨quiescing.flagged, quiescing.quiet, quiescing.drained⟩
  exact ⟨staged.flagged, staged.quiet, staged.drained⟩

theorem reachable_quiescing
    (reaches : Reaches pool (fun config _ => outstandingTasks config < 2 ^ 31)
      (threadPoolInit roles idCount) config) : Quiescing config := by
  apply reaches.invariant Quiescing
  · have start : ∀ i, ((threadPoolInit roles idCount).point i).destroyStage = 0 := by
      intro i
      change (roles i).start.destroyStage = 0
      cases roles i <;> rfl
    constructor <;> intro i reached <;> simp [start] at reached
  · intro config label after reached quiescing few moves
    exact quiescing_step reached few moves quiescing

/-- Fewer than 2^31 tasks are outstanding, and no thread is about to use a freed pool. -/
def Graceful (config : PoolConfig ι) (_ : Label ι Input) : Prop :=
  outstandingTasks config < 2 ^ 31 ∧ ¬ UsesFreed config

instance (config : PoolConfig ι) (label : Label ι Input) : Decidable (Graceful config label) :=
  inferInstanceAs (Decidable (_ ∧ _))

/-- As long as fewer than 2^31 tasks are outstanding and no call uses the freed pool: behind
its drain loop `thread_pool_destroy` finds the queue empty and all tasks with an id executed
once, and behind its loop on `in_flight_submits` no submit call changes the queue or the
counter any more, and each one that returns fails with `ESHUTDOWN`. -/
theorem graceful_destroy (reaches : Reaches pool Graceful (threadPoolInit roles idCount) config) (i : ι) :
    ((config.point i).destroyStage = 3 →
      config.memory.pq.lanes = Lanes.empty ∧ ∀ task ∈ config.memory.journal.returned,
        config.memory.journal.called.count task = 1 ∧
          config.memory.journal.completed.count task = 1) ∧
    (2 ≤ (config.point i).destroyStage → ∀ j submit label after, config.point j = .submit submit →
      Graceful config label → pool.step config label = some after → after.point j ≠ config.point j →
      after.memory.pq = config.memory.pq ∧
        after.memory.totalTaskInSystem = config.memory.totalTaskInSystem ∧
        ∀ result, after.point j = .client result → result = some (.error .eshutdown)) := by
  have quiescing := reachable_quiescing (reaches.mono And.left)
  constructor
  · intro stage
    have none := quiescing.drained i (by omega)
    exact ⟨(settled reaches none).1, fun task returned => settled_returned reaches none returned⟩
  · intro stage j submit label after point _ stepped moved
    have stopped := quiescing.quiet i stage j
    rcases moves_goes (step_moves stepped) j with same | goes
    · exact absurd same moved
    · rw [point] at goes stopped
      exact goes_refused goes stopped

end Reachable

theorem graceful_destroy_oneTask : ∃ config after : PoolConfig (Fin 3),
    Reaches pool Graceful (threadPoolInit oneWorker 0) config ∧
      config.point 2 = .destroy .lockQueue ∧ config.memory.pq.lanes = Lanes.empty ∧
      0 ∈ config.memory.journal.returned ∧ config.memory.journal.completed.count 0 = 1 ∧
      pool.step config (go 1) = some after ∧ after.point 1 = .client (some (.error .eshutdown)) ∧
      after.memory.pq = config.memory.pq := by
  obtain ⟨config, reaches, point, returned, submit, graceful, stepped⟩ := Reaches.of_schedule pool
    Graceful (threadPoolInit oneWorker 0)
    (submitSteps 1 ⟨1, 0, .low⟩ ++ List.replicate 9 (go 0) ++ [go 0, .pick 0 none, go 0] ++
      [.run 2 (.call .destroy)] ++ List.replicate 13 (go 2) ++ List.replicate 4 (go 0) ++ [go 2] ++
      [.run 1 (.call (.submit ⟨1, 0, .low⟩)), go 1, go 1])
    (fun config => config.point 2 = .destroy .lockQueue ∧ 0 ∈ config.memory.journal.returned ∧
      config.point 1 = .submit (.fail .eshutdown) ∧ Graceful config (go 1) ∧
      (pool.step config (go 1)).map (·.point 1) = some (.client (some (.error .eshutdown))))
    (by decide)
  obtain ⟨after, stepped, fails⟩ := Option.map_eq_some_iff.mp stepped
  have stage : (config.point 2).destroyStage = 3 := by rw [point]; rfl
  obtain ⟨empty, executed⟩ := (graceful_destroy reaches 2).1 stage
  have moved : after.point 1 ≠ config.point 1 := by simp [fails, submit]
  have refused := (graceful_destroy reaches 2).2 (by omega) 1 _ _ after submit graceful stepped moved
  exact ⟨config, after, reaches, point, empty, returned, (executed 0 returned).2, stepped, fails,
    refused.1⟩

/-- Thread `i` destroys the pool up to its join of the workers. -/
def stopSteps {ι : Type} (i : ι) : List (Label ι Input) :=
  .run i (.call .destroy) :: List.replicate 13 (go i)

/-- The worker exits, and thread `i` joins it and frees the pool. -/
def freeSteps {ι : Type} (worker i : ι) : List (Label ι Input) :=
  List.replicate 4 (go worker) ++ List.replicate 4 (go i)

/-- A submit call that has begun before `thread_pool_destroy` announces itself in the freed
pool; one that has announced itself behind the loop on `in_flight_submits` reads the flag of
the freed pool. -/
theorem late_submit_uses_freed :
    (∃ config : PoolConfig (Fin 3),
      Reaches pool (fun config _ => outstandingTasks config < 2 ^ 31) (threadPoolInit oneWorker 0) config ∧
        config.point 1 = .submit (.announce ⟨1, 0, .low⟩) ∧ UsesFreed config) ∧
    ∃ config : PoolConfig (Fin 3),
      Reaches pool (fun config _ => outstandingTasks config < 2 ^ 31) (threadPoolInit oneWorker 0) config ∧
        config.point 1 = .submit (.checkShutdown ⟨1, 0, .low⟩) ∧ UsesFreed config := by
  constructor
  · exact Reaches.of_schedule pool (fun config _ => outstandingTasks config < 2 ^ 31)
      (threadPoolInit oneWorker 0)
      ([.run 1 (.call (.submit ⟨1, 0, .low⟩))] ++ stopSteps 2 ++ freeSteps 0 2)
      (fun config => config.point 1 = .submit (.announce ⟨1, 0, .low⟩) ∧ UsesFreed config) (by decide)
  · exact Reaches.of_schedule pool (fun config _ => outstandingTasks config < 2 ^ 31)
      (threadPoolInit oneWorker 0)
      (stopSteps 2 ++ [.run 1 (.call (.submit ⟨1, 0, .low⟩)), go 1] ++ freeSteps 0 2)
      (fun config => config.point 1 = .submit (.checkShutdown ⟨1, 0, .low⟩) ∧ UsesFreed config)
      (by decide)

end ThreadPool.Pool
