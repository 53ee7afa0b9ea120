import ThreadPool.Foundation.Blocks
import ThreadPool.Pool.Execution

namespace ThreadPool.Pool

open Foundation

/-! # Blocks of the pool

Each `task_t` on the heap is somebody's: a submit call has it until the push or until it
gives up, then the queue, then the worker that popped it. Nothing else is allocated.
-/

/-- The block that a thread has to hand on or to free. -/
def Phase.block : Phase → Multiset Addr
  | .created task => {task}
  | .counted task => {task}
  | .refused task => {task}
  | .uncounted task => {task}
  | .taken task => {task}
  | .running task => {task}
  | .finished task => {task}
  | _ => 0

def Pc.block (pc : Pc) : Multiset Addr := pc.phase.block

/-- The heap holds the queued tasks and the blocks of the threads. -/
structure Tidy (pq : PriorityQueue) (lanes : Lanes Priority Addr) (fresh : Addr)
    (blocks : Multiset Addr) : Prop where
  represents : pq.Represents lanes
  tenanted : Tenanted pq.heap (lanes.contents + blocks)
  unused : ∀ a, fresh ≤ a → pq.heap a = none

namespace Tidy

variable {pq pq' : PriorityQueue} {lanes : Lanes Priority Addr} {fresh task : Addr}
  {blocks rest : Multiset Addr} {record : Task}

theorem not_queued (tidy : Tidy pq lanes fresh blocks) (held : task ∈ blocks) : ¬ lanes.Queued task := by
  intro queued
  have apart := (Multiset.nodup_add.mp tidy.tenanted.once).2.2
  exact Multiset.disjoint_left.mp apart (Lanes.mem_contents.mpr queued) held

theorem allocated (tidy : Tidy pq lanes fresh blocks) (held : task ∈ blocks) :
    ∃ record, pq.heap task = some record := by
  apply Option.isSome_iff_exists.mp
  exact (tidy.tenanted.allocated task).mpr (Multiset.mem_add.mpr (.inr held))

theorem keeps_isSome (keeps : pq.KeepsTasks pq') (a : Addr) :
    (pq'.heap a).isSome = (pq.heap a).isSome := by
  simpa using congrArg Option.isSome (keeps.heap a)

theorem keeps_none (keeps : pq.KeepsTasks pq') {a : Addr} (free : pq.heap a = none) :
    pq'.heap a = none := by
  have same := keeps_isSome keeps a
  rw [free] at same
  exact Option.isNone_iff_eq_none.mp (Option.isSome_eq_false_iff.mp same)

/-- The blocks stay as they are while the queue passes them around. -/
theorem relink {lanes' : Lanes Priority Addr} {blocks' : Multiset Addr}
    (tidy : Tidy pq lanes fresh blocks) (represents : pq'.Represents lanes')
    (keeps : pq.KeepsTasks pq') (same : lanes'.contents + blocks' = lanes.contents + blocks) :
    Tidy pq' lanes' fresh blocks' where
  represents := represents
  tenanted := by
    rw [same]
    exact tidy.tenanted.rewrite (keeps_isSome keeps)
  unused a above := keeps_none keeps (tidy.unused a above)

theorem create (tidy : Tidy pq lanes fresh blocks) (record : Task) :
    Tidy (pq.store fresh record) lanes (fresh + 1) (fresh ::ₘ blocks) := by
  have free := tidy.unused fresh le_rfl
  have unqueued : ¬ lanes.Queued fresh := by
    intro queued
    obtain ⟨record, found⟩ := tidy.represents.allocated queued
    rw [free] at found
    cases found
  refine ⟨tidy.represents.write unqueued (some record), ?_, fun a above => ?_⟩
  · rw [Multiset.add_cons]
    exact tidy.tenanted.alloc free record
  · have different : a ≠ fresh := Nat.ne_of_gt above
    exact (Function.update_of_ne different ..).trans (tidy.unused a (Nat.le_of_succ_le above))

theorem stamp {now : Timespec} (tidy : Tidy pq lanes fresh blocks) (held : task ∈ blocks)
    (found : pq.heap task = some record) :
    Tidy (pq.store task { record with submitTime := now }) lanes fresh blocks := by
  refine ⟨tidy.represents.write (tidy.not_queued held) _, tidy.tenanted.rewrite fun a => ?_,
    fun a above => ?_⟩
  · by_cases same : a = task <;> simp [PriorityQueue.store, same, found]
  · have none := tidy.unused a above
    have different : a ≠ task := by
      rintro rfl
      rw [none] at found
      cases found
    exact (Function.update_of_ne different ..).trans none

theorem insert (tidy : Tidy pq lanes fresh (task ::ₘ rest))
    (inserted : pq.pqInsertLocked task = some pq') : ∃ lanes', Tidy pq' lanes' fresh rest := by
  have mine : task ∈ task ::ₘ rest := Multiset.mem_cons_self task rest
  obtain ⟨record, found⟩ := tidy.allocated mine
  obtain ⟨grown, result, represents, keeps⟩ :=
    PriorityQueue.insert_spec tidy.represents found (tidy.not_queued mine)
  obtain rfl : grown = pq' := Option.some.inj (result.symm.trans inserted)
  refine ⟨_, tidy.relink represents keeps ?_⟩
  rw [Lanes.contents_push, Multiset.cons_add, Multiset.add_cons]

theorem pop (tidy : Tidy pq lanes fresh rest) (ready : pq.readyMask ≠ 0)
    (popped : pq.popHighest = some (task, pq')) : ∃ lanes', Tidy pq' lanes' fresh (task ::ₘ rest) := by
  obtain ⟨p, first, others, shrunk, _, lane, result, represents, keeps⟩ :=
    PriorityQueue.pop_spec tidy.represents ready
  obtain ⟨rfl, rfl⟩ : first = task ∧ shrunk = pq' :=
    Prod.mk.inj (Option.some.inj (result.symm.trans popped))
  refine ⟨_, tidy.relink represents keeps ?_⟩
  rw [Lanes.contents_dropHead lane, Multiset.cons_add, Multiset.add_cons]

theorem promote {src dst : Priority} {now : Timespec} {promoteMs : Int} {promoted : Bool}
    (tidy : Tidy pq lanes fresh blocks) (different : src ≠ dst)
    (result : pq.promoteLocked src dst now promoteMs = some (promoted, pq')) :
    ∃ lanes', Tidy pq' lanes' fresh blocks := by
  obtain ⟨moved, final, promotion, represents, keeps, _⟩ :=
    PriorityQueue.promoteLocked_spec tidy.represents different now promoteMs
  obtain ⟨rfl, rfl⟩ : moved = promoted ∧ final = pq' :=
    Prod.mk.inj (Option.some.inj (promotion.symm.trans result))
  refine ⟨_, tidy.relink represents keeps ?_⟩
  rw [Lanes.contents_promote different]

/-- `task_destroy` frees the block of the thread that calls it. -/
theorem free (tidy : Tidy pq lanes fresh (task ::ₘ rest)) :
    Tidy { pq with heap := Function.update pq.heap task none } lanes fresh rest := by
  have mine : task ∈ task ::ₘ rest := Multiset.mem_cons_self task rest
  have tenanted := tidy.tenanted
  rw [Multiset.add_cons] at tenanted
  refine ⟨tidy.represents.write (tidy.not_queued mine) none, tenanted.free, fun a above => ?_⟩
  by_cases same : a = task
  · simp [same]
  · exact (Function.update_of_ne same ..).trans (tidy.unused a above)

/-- `pq_destroy` frees the blocks of the queue and no others. -/
theorem destroyQueue {tasks : List Addr} (tidy : Tidy pq lanes fresh blocks)
    (result : pq.pqDestroy = some (tasks, pq')) : Tidy pq' Lanes.empty fresh blocks := by
  obtain ⟨final, destroyed, represents, heap⟩ := PriorityQueue.pqDestroy_spec tidy.represents
  obtain ⟨rfl, rfl⟩ : _ = tasks ∧ final = pq' :=
    Prod.mk.inj (Option.some.inj (destroyed.symm.trans result))
  have tenanted := tidy.tenanted
  rw [← PriorityQueue.destroyed_contents lanes] at tenanted
  refine ⟨represents, ?_, fun a above => ?_⟩
  · rw [Lanes.contents_empty, zero_add, heap]
    exact tenanted.freeAll (fun a queued => if_pos queued) fun a other => if_neg other
  · rw [heap, PriorityQueue.freed, tidy.unused a above, ite_self]

end Tidy

section Program

variable {ι : Type} [DecidableEq ι] {me : ι} {memory after : Memory ι} {pc next : Pc}
  {rest : Multiset Addr}

def Memory.Tidied (memory : Memory ι) (blocks : Multiset Addr) : Prop :=
  ∃ lanes, Tidy memory.pq lanes memory.fresh blocks

omit [DecidableEq ι] in
theorem tidied_of_same (tidied : memory.Tidied (pc.block + rest)) (pq : after.pq = memory.pq)
    (fresh : after.fresh = memory.fresh) (same : next.block = pc.block) :
    after.Tidied (next.block + rest) := by
  rw [Memory.Tidied, pq, fresh, same]
  exact tidied

theorem submit_tidied {pc : SubmitPc} (writes : Writes me memory (.submit pc) after next)
    (tidied : memory.Tidied ((Pc.submit pc).block + rest)) : after.Tidied (next.block + rest) := by
  have ⟨lanes, tidy⟩ := tidied
  cases writes with
  | announce | count | uncount | createFails | fail | full | leave =>
      exact tidied_of_same tidied rfl rfl rfl
  | create args =>
      have empty : (Pc.submit (.create args)).block + rest = rest := zero_add rest
      rw [empty] at tidy
      exact ⟨lanes, tidy.create _⟩
  | stamp ticket record now found =>
      have mine : ticket.task ∈ (Pc.submit (.stamp ticket)).block + rest :=
        Multiset.mem_add.mpr (.inl (Multiset.mem_singleton_self _))
      exact ⟨lanes, tidy.stamp mine found⟩
  | insert ticket max pq room inserted =>
      have empty : (Pc.submit (.unlockInserted ticket)).block + rest = rest := zero_add rest
      rw [empty]
      exact tidy.insert inserted
  | discard ticket =>
      have empty : (Pc.submit (.fail .eagain)).block + rest = rest := zero_add rest
      rw [empty]
      exact ⟨lanes, tidy.free⟩

theorem worker_tidied {pc : WorkerPc} (writes : Writes me memory (.worker pc) after next)
    (tidied : memory.Tidied ((Pc.worker pc).block + rest)) : after.Tidied (next.block + rest) := by
  have ⟨lanes, tidy⟩ := tidied
  cases writes with
  | popEmpty | setBusy | call | running | clearBusy | decrement | decrementLast =>
      exact tidied_of_same tidied rfl rfl rfl
  | pop task pq ready popped =>
      have empty : (Pc.worker .popTest).block + rest = rest := zero_add rest
      rw [empty] at tidy
      exact tidy.pop ready popped
  | destroy task =>
      have empty : (Pc.worker .clearBusy).block + rest = rest := zero_add rest
      rw [empty]
      exact ⟨lanes, tidy.free⟩

/-- Every write keeps the blocks of the heap with their owners. -/
theorem writes_tidied (writes : Writes me memory pc after next)
    (tidied : memory.Tidied (pc.block + rest)) : after.Tidied (next.block + rest) := by
  cases pc with
  | submit pc => exact submit_tidied writes tidied
  | worker pc => exact worker_tidied writes tidied
  | setMaxTasks maxTasks =>
      obtain ⟨lanes, tidy⟩ := tidied
      cases writes
      exact ⟨lanes, tidy.represents.setMaxTasks maxTasks, tidy.tenanted, tidy.unused⟩
  | aging pc =>
      obtain ⟨lanes, tidy⟩ := tidied
      cases writes with
      | promote scan promoteMs now promoted pq result =>
          exact tidy.promote (by cases scan <;> decide) result
  | destroy pc =>
      have ⟨lanes, tidy⟩ := tidied
      cases writes with
      | storeShutdown | storePaused | free => exact tidied
      | destroyQueue tasks pq result => exact ⟨_, tidy.destroyQueue result⟩
  | _ => cases writes <;> exact tidied

variable [Fintype ι] {allowed : PoolConfig ι → Label ι Input → Prop} {config : PoolConfig ι}
  {roles : ι → Role} {idCount : Nat}

theorem reachable_tidied (reaches : Reaches pool allowed (threadPoolInit roles idCount) config) :
    config.memory.Tidied (holding config Phase.block) := by
  apply reaches.invariant fun config => config.memory.Tidied (holding config Phase.block)
  · rw [holding_init Phase.block rfl]
    exact ⟨Lanes.empty, PriorityQueue.represents_init _, .empty, fun _ _ => rfl⟩
  · intro config label after _ tidied _ moves
    rcases moves_holding Phase.block moves with ⟨memory, total⟩ |
      ⟨i, pc, next, rest, _, writes, old, new⟩ | ⟨tid, memory, total⟩
    · rwa [memory, total]
    · rw [old] at tidied
      rw [new]
      exact writes_tidied writes tidied
    · rw [memory, total]
      exact tidied

omit [DecidableEq ι] in
theorem mem_holding_block {task : Addr} :
    task ∈ holding config Phase.block ↔ ∃ i, task ∈ (config.point i).block := by
  simp only [holding, Config.total, Multiset.mem_sum, Finset.mem_univ, true_and]
  rfl

/-- In every reachable state the allocated tasks are those in the queue and those in the
hands of a thread; the lanes hold no task twice, no task is both queued and in the hands of a
thread, and no task is in the hands of two threads. -/
theorem task_blocks_owned_once (reaches : Reaches pool allowed (threadPoolInit roles idCount) config) :
    (∀ task, (config.memory.pq.heap task).isSome = true ↔
        config.memory.pq.lanes.Queued task ∨ ∃ i, task ∈ (config.point i).block) ∧
      config.memory.pq.lanes.contents.Nodup ∧
      (∀ task, config.memory.pq.lanes.Queued task → ∀ i, task ∉ (config.point i).block) ∧
      ∀ task i j, task ∈ (config.point i).block → task ∈ (config.point j).block → i = j := by
  obtain ⟨lanes, tidy⟩ := reachable_tidied reaches
  obtain ⟨queuedOnce, heldOnce, _⟩ := Multiset.nodup_add.mp tidy.tenanted.once
  rw [tidy.represents.lanes_eq]
  refine ⟨fun task => ?_, queuedOnce, fun task queued i held => ?_, fun task i j mine other => ?_⟩
  · rw [tidy.tenanted.allocated task, Multiset.mem_add, Lanes.mem_contents, mem_holding_block]
  · exact tidy.not_queued (mem_holding_block.mpr ⟨i, held⟩) queued
  · by_contra different
    exact apart_of_sum_nodup (fun pc : Pc => pc.phase.block) config.point heldOnce different mine other

end Program

/-- The worker runs the first task while the second one is queued. -/
theorem task_blocks_owned_once_twoTasks : ∃ config : PoolConfig (Fin 3),
    Reaches pool (fun _ _ => True) (threadPoolInit oneWorker 0) config ∧
      config.memory.pq.lanes .low = [1] ∧ (config.memory.pq.heap 1).isSome = true ∧
      (∀ i, 1 ∉ (config.point i).block) ∧ ∀ i, 0 ∈ (config.point i).block → 0 = i := by
  obtain ⟨config, reaches, queued, running⟩ := Reaches.of_schedule pool (fun _ _ => True)
    (threadPoolInit oneWorker 0)
    (submitSteps 1 ⟨1, 0, .low⟩ ++ submitSteps 1 ⟨1, 0, .low⟩ ++ List.replicate 5 (go 0))
    (fun config => config.memory.pq.lanes .low = [1] ∧ config.point 0 = .worker (.running 0))
    (by decide)
  obtain ⟨allocated, _, apart, alone⟩ := task_blocks_owned_once reaches
  have waiting : config.memory.pq.lanes.Queued 1 := ⟨.low, by simp [queued]⟩
  refine ⟨config, reaches, queued, (allocated 1).mpr (.inl waiting), apart 1 waiting, fun i held => ?_⟩
  refine alone 0 0 i ?_ held
  rw [running]
  exact Multiset.mem_singleton_self 0

end ThreadPool.Pool
