import Mathlib.Algebra.BigOperators.Pi
import ThreadPool.Pool.Counters

namespace ThreadPool.Pool

open Foundation

/-! # Execution of the tasks

When nothing is counted any more, every accepted task has been executed to
completion; the loop of `thread_pool_wait` is left only in such a state.
-/

variable {ι : Type} [DecidableEq ι]

theorem share_of_counts {phase : Phase} (uncounted : phase.counts = 0) :
    phase.share .taken = 0 ∧ phase.share .running = 0 := by
  cases phase <;> first | exact ⟨rfl, rfl⟩ | cases uncounted

/-- The drain loop is left by its own test only. -/
theorem goes_leaves {me : ι} {memory after : Memory ι} {pc : Pc} {caller : DrainCaller}
    (goes : Goes me memory pc after (.drain caller .unlock)) : memory.totalTaskInSystem ≤ 0 := by
  cases goes with
  | sync syncs => cases syncs
  | read _ reads =>
      cases reads with
      | call _ _ entry => cases entry
      | drained _ empty => exact empty
  | write _ writes => cases writes

section Reachable

variable [Fintype ι] {config after : PoolConfig ι} {label : Label ι Input}
  {allowed : PoolConfig ι → Label ι Input → Prop} {roles : ι → Role} {idCount : Nat}

omit [DecidableEq ι] in
theorem holding_counts (none : holding config Phase.counts = 0) :
    holding config Phase.share .taken = 0 ∧ holding config Phase.share .running = 0 := by
  have uncounted : ∀ j, (config.point j).phase.counts = 0 := by
    intro j
    exact Finset.sum_eq_zero_iff.mp none j (Finset.mem_univ j)
  simp only [holding, Config.total, Finset.sum_apply]
  constructor
  · exact Finset.sum_eq_zero fun j _ => (share_of_counts (uncounted j)).1
  · exact Finset.sum_eq_zero fun j _ => (share_of_counts (uncounted j)).2

/-- With nothing left to count, the queue is empty and all accepted tasks are done. -/
theorem settled (reaches : Reaches pool allowed (threadPoolInit roles idCount) config)
    (none : tasksInSystem config = 0) :
    config.memory.pq.lanes = Lanes.empty ∧
      (config.memory.journal.called : Multiset Addr) = config.memory.journal.accepted ∧
      (config.memory.journal.completed : Multiset Addr) = config.memory.journal.accepted := by
  obtain ⟨lanes, books⟩ := reachable_balanced reaches
  simp only [tasksInSystem, Memory.countedTasks, Nat.add_eq_zero_iff] at none
  obtain ⟨⟨size, destroyed⟩, held⟩ := none
  obtain ⟨taken, running⟩ := holding_counts held
  rw [books.represents.size, Multiset.card_eq_zero] at size
  have called := books.called
  have accepted := books.accepted
  rw [size, List.eq_nil_of_length_eq_zero destroyed, taken] at accepted
  rw [running, add_zero] at called
  simp only [Multiset.coe_nil, zero_add, add_zero] at accepted
  refine ⟨?_, accepted.symm, (accepted.trans called).symm⟩
  rw [books.represents.lanes_eq]
  funext p
  exact Lanes.contents_eq_zero.mp size p

theorem settled_returned (reaches : Reaches pool allowed (threadPoolInit roles idCount) config)
    (none : tasksInSystem config = 0) {task : Addr} (returned : task ∈ config.memory.journal.returned) :
    config.memory.journal.called.count task = 1 ∧ config.memory.journal.completed.count task = 1 := by
  obtain ⟨_, called, completed⟩ := settled reaches none
  obtain ⟨lanes, books⟩ := reachable_balanced reaches
  have accepted : (config.memory.journal.accepted : Multiset Addr).count task = 1 := by
    apply Multiset.count_eq_one_of_mem books.accepted_nodup
    rw [books.returned]
    simp [returned]
  rw [← Multiset.coe_count, ← Multiset.coe_count, called, completed]
  exact ⟨accepted, accepted⟩

/-- Below 2^31 tasks no function is called twice or for a refused task, the counter is
not negative, and `thread_pool_wait` leaves its loop only when every task whose id was
returned is done. -/
theorem executed_once_and_awaited
    (reaches : Reaches pool allowed (threadPoolInit roles idCount) config)
    (few : tasksInSystem config < 2 ^ 31) :
    config.memory.journal.called.Nodup ∧
      (∀ task ∈ config.memory.journal.called,
        task ∈ config.memory.journal.accepted ∧ task ∉ config.memory.journal.refused) ∧
      0 ≤ config.memory.totalTaskInSystem ∧
      ∀ i label after, pool.step config label = some after →
        config.point i ≠ .drain .wait .unlock → after.point i = .drain .wait .unlock →
        ∀ task ∈ config.memory.journal.returned, task ∈ config.memory.journal.completed := by
  obtain ⟨lanes, books⟩ := reachable_balanced reaches
  have counter := reachable_total_eq reaches few
  have accepted : ∀ task ∈ config.memory.journal.called, task ∈ config.memory.journal.accepted := by
    intro task called
    rw [← Multiset.mem_coe, books.accepted]
    simp [called]
  refine ⟨?_, ?_, ?_, ?_⟩
  · have nodup := books.accepted_nodup
    rw [books.accepted] at nodup
    exact (Multiset.nodup_add.mp nodup).2.1
  · intro task called
    exact ⟨accepted task called, fun refused => books.refused_not_accepted refused (accepted task called)⟩
  · rw [counter]
    exact Int.natCast_nonneg _
  · intro i label after stepped outside leaves task returned
    rcases moves_goes (step_moves stepped) i with same | goes
    · exact absurd (same.symm.trans leaves) outside
    · rw [leaves] at goes
      have none : tasksInSystem config = 0 := by
        have empty := goes_leaves goes
        omega
      exact List.count_pos_iff.mp (by rw [(settled_returned reaches none returned).2]; decide)

end Reachable

/-- A step without input. -/
def go (i : ι) : Label ι Input := .run i .none

/-- Thread 0 is a worker and the others are application threads. -/
def oneWorker (i : Fin 3) : Role := if i = 0 then .worker else .client

/-- A submit call without aging that nobody sleeps for. -/
def submitSteps (i : ι) (args : SubmitArgs) : List (Label ι Input) :=
  [.run i (.call (.submit args)), go i, go i, go i, .run i (.alloc true), go i, go i, go i, go i, go i,
    .pick i none, go i]

theorem executed_once_and_awaited_oneTask : ∃ config after : PoolConfig (Fin 3),
    Reaches pool (fun _ _ => True) (threadPoolInit oneWorker 0) config ∧
      tasksInSystem config < 2 ^ 31 ∧ pool.step config (go 2) = some after ∧
      config.point 2 ≠ .drain .wait .unlock ∧ after.point 2 = .drain .wait .unlock ∧
      0 ∈ config.memory.journal.returned ∧ 0 ∈ config.memory.journal.completed := by
  obtain ⟨config, reaches, few, inside, returned, stepped⟩ := Reaches.of_schedule pool (fun _ _ => True)
    (threadPoolInit oneWorker 0)
    (submitSteps 1 ⟨1, 0, .low⟩ ++ List.replicate 9 (go 0) ++ [.run 2 (.call .wait), go 2])
    (fun config => tasksInSystem config < 2 ^ 31 ∧ config.point 2 = .drain .wait .lock ∧
      0 ∈ config.memory.journal.returned ∧
      (pool.step config (go 2)).map (·.point 2) = some (.drain .wait .unlock))
    (by decide)
  obtain ⟨after, stepped, leaves⟩ := Option.map_eq_some_iff.mp stepped
  have outside : config.point 2 ≠ .drain .wait .unlock := by simp [inside]
  exact ⟨config, after, reaches, few, stepped, outside, leaves, returned,
    (executed_once_and_awaited reaches few).2.2.2 2 _ after stepped outside leaves 0 returned⟩

end ThreadPool.Pool
