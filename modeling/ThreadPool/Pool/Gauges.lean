import ThreadPool.Pool.Execution
import ThreadPool.Pool.Pausing
import ThreadPool.Server.Stats

namespace ThreadPool.Pool

open Foundation

/-! # The gauges of the pool

`thread_pool_num_working` counts the `busy` flags and `thread_pool_queue_depth` subtracts
that count from `total_task_in_system`. Both counters are kept at different moments, so
they agree with the queue only when no thread is between two of its updates.
-/

variable {ι : Type} [DecidableEq ι]

/-- `thread_pool_num_working` over the array of workers; `num_workers` is passed on as a
`uint16_t`. -/
def threadPoolNumWorking (memory : Memory ι) (workers : List ι) : Nat :=
  Server.workerCapacityBusy ((workers.take (workers.length % 2 ^ 16)).map memory.busy)

def threadPoolQueueDepth (memory : Memory ι) (workers : List ι) : Nat :=
  Server.queueDepth memory.totalTaskInSystem (threadPoolNumWorking memory workers)

/-- A worker between the two stores to its `busy` flag. -/
def Pc.flagged : Pc → Bool
  | .worker (.call _) => true
  | .worker (.running _) => true
  | .worker (.destroy _) => true
  | .worker .clearBusy => true
  | _ => false

omit [DecidableEq ι] in
theorem reads_flagged {memory : Memory ι} {pc next : Pc} (reads : Reads memory pc next) :
    next.flagged = pc.flagged := by
  cases reads with
  | call _ _ entry => cases entry <;> rfl
  | _ => rfl

theorem syncs_flagged {pc next : Pc} (syncs : Syncs pc next) : next.flagged = pc.flagged := by
  cases syncs <;> rfl

/-- A write stores the flag that belongs to its next program point. -/
theorem writes_busy {me : ι} {memory after : Memory ι} {pc next : Pc}
    (writes : Writes me memory pc after next) (here : memory.busy me = pc.flagged) :
    after.busy = Function.update memory.busy me next.flagged := by
  cases writes with
  | setBusy | clearBusy => rfl
  | _ =>
      exact (Function.update_eq_self_iff.mpr here.symm).symm

section Reachable

variable [Fintype ι] {config after : PoolConfig ι} {label : Label ι Input}
  {allowed : PoolConfig ι → Label ι Input → Prop} {roles : ι → Role} {idCount : Nat}

theorem moves_busy (moves : Moves pool config label after)
    (flags : config.memory.busy = Pc.flagged ∘ config.point) :
    after.memory.busy = Pc.flagged ∘ after.point := by
  have unmoved : ∀ {i next}, next.flagged = (config.point i).flagged →
      Pc.flagged ∘ Function.update config.point i next = Pc.flagged ∘ config.point := by
    intro i next same
    rw [Function.comp_update, same]
    exact Function.update_eq_self i _
  cases moves_step moves with
  | still memory points => rw [memory, points, flags]
  | sync syncs memory points => rw [memory, points, flags, unmoved (syncs_flagged syncs)]
  | read arrives reads _ memory points =>
      have same := (reads_flagged reads).trans ((arrives_behind arrives).same syncs_flagged)
      rw [memory, points, flags, unmoved same]
  | write arrives writes points =>
      have here := (congrFun flags _).trans ((arrives_behind arrives).same syncs_flagged).symm
      rw [writes_busy writes here, points, flags, Function.comp_update]
  | create here dormant _ memory points =>
      have started : Pc.flagged ∘ Function.update config.point _ (.aging .start) =
          Pc.flagged ∘ config.point := unmoved (by rw [dormant]; rfl)
      rw [memory, points, Function.comp_update, started, ← Function.comp_update,
        unmoved (by rw [here]; rfl)]
      exact flags
  | createFails here memory points => rw [memory, points, flags, unmoved (by rw [here]; rfl)]

/-- The flag of a worker is set exactly between its two stores. -/
theorem reachable_busy (reaches : Reaches pool allowed (threadPoolInit roles idCount) config) :
    config.memory.busy = Pc.flagged ∘ config.point := by
  apply reaches.invariant fun config => config.memory.busy = Pc.flagged ∘ config.point
  · funext i
    change false = (roles i).start.flagged
    cases roles i <;> rfl
  · intro config label after _ flags _ moves
    exact moves_busy moves flags

end Reachable

/-- A worker between a pop and its store to `busy` or between clearing the flag and the
decrement, or a submit call in progress. -/
def Pc.unsettled : Pc → Bool
  | .worker (.unlockPopped _) => true
  | .worker (.setBusy _) => true
  | .worker .decrement => true
  | .submit _ => true
  | _ => false

def Quiescent (config : PoolConfig ι) : Prop := ∀ i, (config.point i).unsettled = false

theorem Pc.counts_eq {pc : Pc} (settled : pc.unsettled = false) :
    pc.phase.counts = if pc.flagged then 1 else 0 := by
  cases pc with
  | submit => cases settled
  | worker pc => cases pc <;> first | rfl | cases settled
  | _ => rfl

theorem countBusy_foldl {flags : List Bool} {count : Nat} (fits : count + flags.length < 2 ^ 16) :
    flags.foldl Server.countBusy count = count + flags.countP id := by
  induction flags generalizing count with
  | nil => rfl
  | cons flag rest ih =>
      rw [List.length_cons] at fits
      cases flag with
      | false =>
          rw [List.foldl_cons, List.countP_cons]
          exact ih (show count + rest.length < 2 ^ 16 by omega)
      | true =>
          have small : (count + 1) % 2 ^ 16 = count + 1 := Nat.mod_eq_of_lt (by omega)
          rw [List.foldl_cons, Server.countBusy, if_pos rfl, small, ih (by omega), List.countP_cons]
          simp
          omega

omit [DecidableEq ι] in
theorem numWorking_eq (memory : Memory ι) {workers : List ι} (narrow : workers.length < 2 ^ 16) :
    threadPoolNumWorking memory workers = (workers.filter memory.busy).length := by
  rw [threadPoolNumWorking, Nat.mod_eq_of_lt narrow, List.take_length, Server.workerCapacityBusy,
    countBusy_foldl (by simpa using narrow), List.countP_map, List.countP_eq_length_filter, Nat.zero_add]
  rfl

theorem countBusy_lt (flags : List Bool) {count : Nat} (small : count < 2 ^ 16) :
    flags.foldl Server.countBusy count < 2 ^ 16 := by
  induction flags generalizing count with
  | nil => exact small
  | cons flag rest ih =>
      rw [List.foldl_cons]
      refine ih ?_
      cases flag with
      | false => exact small
      | true => exact Nat.mod_lt _ (by decide)

omit [DecidableEq ι] in
/-- The number of workers is exact for every assignment of the flags only as long as it fits
16 bits: otherwise it is wrong when all are busy. -/
theorem numWorking_exact_iff (memory : Memory ι) (workers : List ι) :
    (∀ memory : Memory ι, threadPoolNumWorking memory workers = (workers.filter memory.busy).length) ↔
      workers.length < 2 ^ 16 := by
  refine ⟨fun exactly => ?_, fun narrow memory => numWorking_eq memory narrow⟩
  have allBusy := exactly { memory with busy := fun _ => true }
  rw [List.filter_true] at allBusy
  rw [← allBusy]
  exact countBusy_lt _ (by decide)

section Reachable

variable [Fintype ι] {config after : PoolConfig ι} {label : Label ι Input}
  {allowed : PoolConfig ι → Label ι Input → Prop} {roles : ι → Role} {idCount : Nat} {workers : List ι}

omit [DecidableEq ι] in
theorem holding_single {i : ι} (others : ∀ j, j ≠ i → (config.point j).phase.counts = 0) :
    holding config Phase.counts = (config.point i).phase.counts :=
  Finset.sum_eq_single i (fun j _ other => others j other) fun absent =>
    absurd (Finset.mem_univ i) absent

/-- In a quiescent state the threads hold one task for each busy worker. -/
theorem quiescent_holding (reaches : Reaches pool allowed (threadPoolInit roles idCount) config)
    (nodup : workers.Nodup) (members : ∀ i, i ∈ workers ↔ roles i = .worker)
    (quiescent : Quiescent config) :
    holding config Phase.counts = (workers.filter config.memory.busy).length := by
  have busy := reachable_busy reaches
  have flagged : Finset.univ.filter (fun i => (config.point i).flagged = true) =
      (workers.filter config.memory.busy).toFinset := by
    ext i
    simp only [Finset.mem_filter, Finset.mem_univ, true_and, List.mem_toFinset, List.mem_filter, busy,
      Function.comp_apply, members]
    refine ⟨fun here => ⟨reachable_worker reaches i ?_, here⟩, fun here => here.2⟩
    cases point : config.point i <;> rw [point] at here <;> first | rfl | cases here
  calc holding config Phase.counts
      = ∑ i, if (config.point i).flagged then 1 else 0 :=
        Finset.sum_congr rfl fun i _ => Pc.counts_eq (quiescent i)
    _ = (Finset.univ.filter fun i => (config.point i).flagged = true).card :=
        (Finset.card_filter ..).symm
    _ = (workers.filter config.memory.busy).length := by
        rw [flagged, List.toFinset_card_of_nodup (nodup.filter _)]

/-- The number of workers is exact for every assignment of the flags if and only if it is
below 2^16. Then, in a quiescent state with fewer than 2^31 tasks, the number of queued tasks
is exact unless `pq_destroy` has destroyed some that are still counted. -/
theorem gauges_exact (reaches : Reaches pool allowed (threadPoolInit roles idCount) config)
    (nodup : workers.Nodup) (members : ∀ i, i ∈ workers ↔ roles i = .worker)
    (quiescent : Quiescent config) (few : tasksInSystem config < 2 ^ 31) :
    ((∀ memory : Memory ι,
        threadPoolNumWorking memory workers = (workers.filter memory.busy).length) ↔
      workers.length < 2 ^ 16) ∧
    (workers.length < 2 ^ 16 →
      (threadPoolQueueDepth config.memory workers = config.memory.pq.lanes.contents.card ↔
        config.memory.journal.destroyed = [])) := by
  refine ⟨numWorking_exact_iff config.memory workers, fun narrow => ?_⟩
  obtain ⟨lanes, books⟩ := reachable_balanced reaches
  have total := reachable_total_eq reaches few
  have held := quiescent_holding reaches nodup members quiescent
  rw [tasksInSystem, Memory.countedTasks, held] at total
  rw [threadPoolQueueDepth, numWorking_eq _ narrow, Server.queueDepth, total, books.represents.lanes_eq,
    ← books.represents.size, ← List.length_eq_zero_iff]
  split <;> omega

end Reachable

theorem gauges_exact_oneWorker : ∃ config : PoolConfig (Fin 3),
    Reaches pool (fun _ _ => True) (threadPoolInit oneWorker 0) config ∧ Quiescent config ∧
      config.memory.journal.destroyed = [] ∧ tasksInSystem config = 2 ∧
      threadPoolNumWorking config.memory [0] = ([0].filter config.memory.busy).length ∧
      threadPoolQueueDepth config.memory [0] = config.memory.pq.lanes.contents.card := by
  obtain ⟨config, reaches, quiescent, alive, two⟩ := Reaches.of_schedule pool (fun _ _ => True)
    (threadPoolInit oneWorker 0)
    (submitSteps 1 ⟨1, 0, .low⟩ ++ submitSteps 2 ⟨2, 0, .high⟩ ++ List.replicate 4 (go 0))
    (fun config => (∀ i, (config.point i).unsettled = false) ∧
      config.memory.journal.destroyed = [] ∧ tasksInSystem config = 2)
    (by decide)
  obtain ⟨working, depth⟩ := gauges_exact reaches (List.nodup_singleton 0) (by decide) quiescent
    (by rw [two]; decide)
  have narrow : [0].length < 2 ^ 16 := by decide
  exact ⟨config, reaches, quiescent, alive, two, working.mpr narrow config.memory, (depth narrow).mpr alive⟩

/-- The last of 65537 threads is an application thread, and the others are workers. -/
def wideRoles (i : Fin 65537) : Role := if i = Fin.last 65536 then .client else .worker

def wideWorkers : List (Fin 65537) := (List.finRange 65536).map Fin.castSucc

theorem wideWorkers_spec : wideWorkers.Nodup ∧ ∀ i, i ∈ wideWorkers ↔ wideRoles i = .worker := by
  constructor
  · exact (List.nodup_finRange _).map (Fin.castSucc_injective _)
  · intro i
    simp [wideWorkers, wideRoles, Fin.exists_castSucc_eq]

/-- Worker 0 sleeps on an empty queue, is woken by a submit call and takes the task. -/
def wokenSteps (i : ι) (worker : ι) (args : SubmitArgs) : List (Label ι Input) :=
  List.replicate 4 (go worker) ++
    [.run i (.call (.submit args)), go i, go i, go i, .run i (.alloc true), go i, go i, go i, go i, go i,
      .pick i (some worker), go i] ++
    List.replicate 3 (go worker)

theorem wide_pool_reaches : ∃ config : PoolConfig (Fin 65537),
    Reaches pool (fun _ _ => True) (threadPoolInit wideRoles 0) config ∧
      (config.point 0 = .worker (.call 0) ∧ config.point (Fin.last 65536) = .client (some (.id 0)) ∧
        config.memory.pq.size = 0 ∧ config.memory.totalTaskInSystem = 1 ∧
        config.memory.journal.destroyed = []) ∧
      ∀ k, k ∉ [0, Fin.last 65536] → config.point k = (threadPoolInit wideRoles 0).point k :=
  Reaches.of_schedule_among pool (fun _ _ => True) (threadPoolInit wideRoles 0)
    (wokenSteps (Fin.last 65536) 0 ⟨1, 0, .low⟩)
    (fun config => config.point 0 = .worker (.call 0) ∧
      config.point (Fin.last 65536) = .client (some (.id 0)) ∧ config.memory.pq.size = 0 ∧
      config.memory.totalTaskInSystem = 1 ∧ config.memory.journal.destroyed = [])
    [0, Fin.last 65536] (by decide) (by decide +kernel)

/-- With 65536 workers the length of the array becomes 0: one worker is busy and nothing is
queued, but the gauges report an idle pool with one task in the queue. -/
theorem wide_pool_gauges_wrong : ∃ config : PoolConfig (Fin 65537),
    Reaches pool (fun _ _ => True) (threadPoolInit wideRoles 0) config ∧
      wideWorkers.length = 65536 ∧ Quiescent config ∧ config.memory.journal.destroyed = [] ∧
      tasksInSystem config = 1 ∧ (wideWorkers.filter config.memory.busy).length = 1 ∧
      config.memory.pq.lanes.contents.card = 0 ∧
      threadPoolNumWorking config.memory wideWorkers = 0 ∧
      threadPoolQueueDepth config.memory wideWorkers = 1 := by
  obtain ⟨config, reaches, ⟨busy, client, size, total, destroyed⟩, others⟩ := wide_pool_reaches
  obtain ⟨nodup, members⟩ := wideWorkers_spec
  obtain ⟨lanes, books⟩ := reachable_balanced reaches
  have wide : wideWorkers.length = 65536 := by simp [wideWorkers]
  have points : ∀ i, i ≠ 0 → (config.point i).unsettled = false ∧ (config.point i).phase = .idle := by
    intro i other
    by_cases last : i = Fin.last 65536
    · rw [last, client]
      exact ⟨rfl, rfl⟩
    · have top : config.point i = (wideRoles i).start := others i fun member =>
        (List.mem_pair.mp member).elim other last
      rw [top, wideRoles, if_neg last]
      exact ⟨rfl, rfl⟩
  have quiescent : Quiescent config := by
    intro i
    by_cases first : i = 0
    · rw [first, busy]
      rfl
    · exact (points i first).1
  have held : holding config Phase.counts = 1 := by
    rw [holding_single (i := 0) fun i other => by rw [(points i other).2]; rfl, busy]
    rfl
  have idle : threadPoolNumWorking config.memory wideWorkers = 0 := by
    rw [threadPoolNumWorking, wide]
    rfl
  refine ⟨config, reaches, wide, quiescent, destroyed, ?_, ?_, ?_, idle, ?_⟩
  · rw [tasksInSystem, Memory.countedTasks, size, destroyed, held]
    rfl
  · rw [← quiescent_holding reaches nodup members quiescent, held]
  · rw [books.represents.lanes_eq, ← books.represents.size, size]
  · rw [threadPoolQueueDepth, idle, total]
    rfl

end ThreadPool.Pool
