import ThreadPool.Baseline.Fifo
import ThreadPool.Foundation.Blocks
import ThreadPool.Foundation.Progress

namespace ThreadPool.Baseline

open Foundation

/-! # Who owns a task of the baseline pool

A block belongs to the submit call that has allocated it, then to the queue, and then to the
worker that frees it. So no access of the pool meets a block that is not there. The queue is
freed with the pool, and in an orderly run it is empty then.
-/

/-- The block that a thread owns. -/
def Pc.block : Pc → Multiset Addr
  | .submit (.count task) => {task}
  | .submit (.lockQueue task) => {task}
  | .submit (.push task) => {task}
  | .worker (.unlockPopped task) => {task}
  | .worker (.call task) => {task}
  | .worker (.running task) => {task}
  | .worker (.free task) => {task}
  | _ => 0

/-- The heap holds the blocks of the queue and those of the threads. -/
structure Tidy (memory : Memory) (blocks : Multiset Addr) : Prop where
  tenanted : Tenanted memory.queue.heap (memory.tasks + blocks)
  unused : ∀ a, memory.fresh ≤ a → memory.queue.heap a = none

section Steps

variable {memory after : Memory} {tasks : List Addr} {pc next : Pc} {shares : Account → Multiset Addr}
  {blocks rest : Multiset Addr} {task : Addr} {queue : Queue}

theorem Tidy.allocated (tidy : Tidy memory blocks) (held : task ∈ blocks) :
    ∃ record, memory.queue.heap task = some record := by
  apply Option.isSome_iff_exists.mp
  exact (tidy.tenanted.allocated task).mpr (Multiset.mem_add.mpr (.inr held))

theorem Tidy.queued_allocated (tidy : Tidy memory blocks) (queued : task ∈ memory.tasks) :
    ∃ record, memory.queue.heap task = some record := by
  apply Option.isSome_iff_exists.mp
  exact (tidy.tenanted.allocated task).mpr (Multiset.mem_add.mpr (.inl (Multiset.mem_coe.mpr queued)))

/-- The blocks stay as they are while the queue passes them around. -/
theorem Tidy.relink {blocks' : Multiset Addr} (tidy : Tidy memory blocks)
    (heap : ∀ a, (after.queue.heap a).isSome = (memory.queue.heap a).isSome)
    (fresh : after.fresh = memory.fresh)
    (same : (after.tasks + blocks' : Multiset Addr) = memory.tasks + blocks) : Tidy after blocks' where
  tenanted := by
    rw [same]
    exact tidy.tenanted.rewrite heap
  unused a above := by
    have none := heap a
    rw [tidy.unused a (fresh ▸ above)] at none
    exact Option.isNone_iff_eq_none.mp (Option.isSome_eq_false_iff.mp none)

theorem Tidy.unchanged (tidy : Tidy memory (pc.block + rest)) (queue : after.queue = memory.queue)
    (fresh : after.fresh = memory.fresh) (same : next.block = pc.block) : Tidy after (next.block + rest) := by
  refine tidy.relink (fun a => by rw [queue]) fresh ?_
  rw [Memory.tasks, queue, fresh, same, Memory.tasks]

/-- `q_push` links the block behind the last one and allocates nothing. -/
theorem qPush_isSome (pushed : memory.queue.qPush task = some queue) (a : Addr) :
    (queue.heap a).isSome = (memory.queue.heap a).isSome := by
  cases tail : memory.queue.tail with
  | none =>
      simp only [Queue.qPush, tail, Option.some.injEq] at pushed
      subst pushed
      rfl
  | some last =>
      cases found : memory.queue.heap last with
      | none => simp [Queue.qPush, tail, found] at pushed
      | some record =>
          simp only [Queue.qPush, tail, found, Option.bind_eq_bind, Option.bind_some, Option.pure_def,
            Option.some.injEq] at pushed
          subst pushed
          by_cases same : a = last
          · subst same
            simp [Queue.store, found]
          · simp [Queue.store, same]

theorem steps_tidy (steps : Steps memory pc after next) (sound : Sound memory tasks (pc.share + shares))
    (tidy : Tidy memory (pc.block + rest)) : Tidy after (next.block + rest) := by
  have tenanted := tidy.tenanted
  cases steps with
  | create args =>
      have empty : (Pc.submit (.create args)).block + rest = rest := zero_add rest
      rw [empty, sound.tasks_eq] at tenanted
      refine ⟨?_, fun a above => ?_⟩
      · have grown : (tasks : Multiset Addr) + ((Pc.submit (.count memory.fresh)).block + rest) =
            memory.fresh ::ₘ (tasks + rest) := by
          rw [← Multiset.add_cons]
          rfl
        rw [sound.create.tasks_eq, grown]
        exact tenanted.alloc (tidy.unused _ le_rfl) _
      · have different : a ≠ memory.fresh := Nat.ne_of_gt above
        exact (Function.update_of_ne different ..).trans (tidy.unused a (Nat.le_of_succ_le above))
  | push task queue pushed =>
      refine tidy.relink (qPush_isSome pushed) rfl ?_
      rw [(sound.push pushed).tasks_eq, sound.tasks_eq, ← Multiset.coe_add, add_assoc]
      exact congrArg _ (congrArg _ (zero_add rest))
  | pop task queue popped =>
      obtain ⟨tasks', goes⟩ := sound.pop popped
      obtain ⟨remaining, rfl, represents, heap⟩ := Queue.qPop_represents sound.represents popped
      obtain rfl : tasks' = remaining := Chain.unique goes.represents.chain represents.chain
      refine tidy.relink (fun a => congrArg Option.isSome (congrFun heap a)) rfl ?_
      rw [goes.tasks_eq, sound.tasks_eq, ← Multiset.cons_coe, Multiset.cons_add, ← Multiset.add_cons]
      exact congrArg _ (congrArg _ (zero_add rest).symm)
  | free task =>
      have mine : (Pc.worker (.free task)).block + rest = task ::ₘ rest := Multiset.singleton_add ..
      have none : (Pc.worker .decrement).block + rest = rest := zero_add rest
      rw [mine, Multiset.add_cons, sound.tasks_eq] at tenanted
      refine ⟨?_, fun a above => ?_⟩
      · rw [sound.free.tasks_eq, none]
        exact tenanted.free
      · by_cases same : a = task
        · rw [same]
          exact Function.update_self ..
        · exact (Function.update_of_ne same ..).trans (tidy.unused a above)
  | _ => exact tidy.unchanged rfl rfl rfl

variable {ι : Type} {input : Input}

/-- The inputs that an access can get from its environment. -/
def Pc.takes : Pc → Input → Bool
  | .client _, .call _ => true
  | .client _, _ => false
  | .submit (.create _), .alloc _ => true
  | .submit (.create _), _ => false
  | _, _ => true

/-- On a tidy heap every access succeeds. -/
theorem access_defined (sound : Sound memory tasks shares) (tidy : Tidy memory blocks)
    (held : ∀ task ∈ pc.block, task ∈ blocks) (access : (code pc : BaselineInstr ι).isAccess = true)
    (takes : pc.takes input = true) : ((code pc : BaselineInstr ι).body memory input).isSome = true := by
  have tasksEq := sound.tasks_eq
  cases pc with
  | client last => cases input with
    | call call => rfl
    | _ => cases takes
  | submit pc =>
      cases pc with
      | create args => cases input with
        | alloc success => cases success <;> rfl
        | _ => cases takes
      | push task =>
          cases tail : memory.queue.tail with
          | none => simp [code, baselinePoolSubmit, Instr.body, Memory.pushTask, Queue.qPush, tail]
          | some last =>
              have queued : last ∈ memory.tasks := by
                rw [tasksEq]
                exact List.mem_of_getLast? (sound.represents.tail.symm.trans tail)
              obtain ⟨record, found⟩ := tidy.queued_allocated queued
              simp [code, baselinePoolSubmit, Instr.body, Memory.pushTask, Queue.qPush, tail, found]
      | _ => first | rfl | cases access
  | worker pc =>
      cases pc with
      | popTest =>
          cases head : memory.queue.head with
          | none => simp [code, workerFunc, Instr.body, Memory.popTask, head]
          | some first =>
              have queued : first ∈ memory.tasks := by
                rw [tasksEq]
                exact List.mem_of_head? (sound.represents.head_eq.symm.trans head)
              obtain ⟨record, found⟩ := tidy.queued_allocated queued
              simp [code, workerFunc, Instr.body, Memory.popTask, Queue.qPop, head, found]
      | call task =>
          obtain ⟨record, found⟩ := tidy.allocated (held task (Multiset.mem_singleton_self _))
          simp [code, workerFunc, Instr.body, Memory.callTask, found]
      | _ => first | rfl | cases access
  | drain caller pc | shutdown pc => cases pc <;> first | rfl | cases access

end Steps

section Reachable

variable {ι : Type} [DecidableEq ι] [Fintype ι] {config : BaselineConfig ι}
  {allowed : BaselineConfig ι → Label ι Input → Prop} {roles : ι → Role}

theorem reachable_tidy (reaches : Reaches baseline allowed (baselinePoolInit roles) config) :
    Tidy config.memory (config.total Pc.block) := by
  apply reaches.invariant fun config => Tidy config.memory (config.total Pc.block)
  · rw [total_init Pc.block (by intro role; cases role <;> rfl)]
    exact ⟨.empty, fun _ _ => rfl⟩
  · intro config label after reached tidy _ moves
    rcases moves_steps moves with ⟨memory, points⟩ | ⟨next, steps, points⟩
    · rwa [memory, total_still Pc.block points]
    · obtain ⟨tasks, sound⟩ := reachable_sound reached
      obtain ⟨shares, hold, _⟩ := total_moved Pc.share points
      obtain ⟨rest, before, later⟩ := total_moved Pc.block points
      rw [hold] at sound
      rw [before] at tidy
      rw [later]
      exact steps_tidy steps sound tidy

omit [DecidableEq ι] in
theorem mem_total_block {task : Addr} :
    task ∈ config.total Pc.block ↔ ∃ i, task ∈ (config.point i).block := by
  simp only [Config.total, Multiset.mem_sum, Finset.mem_univ, true_and]
  rfl

omit [Fintype ι] [DecidableEq ι] in
theorem steps_freed {memory after : Memory} {pc next : Pc} (steps : Steps memory pc after next)
    (freed : after.journal.freed = true) : memory.journal.freed = true ∨ next = .shutdown .freed := by
  cases steps with
  | freePool => exact .inr rfl
  | _ => exact .inl freed

/-- The call that has freed the pool does not go on. -/
theorem reachable_freed (reaches : Reaches baseline allowed (baselinePoolInit roles) config)
    (freed : config.memory.journal.freed = true) : ∃ i, config.point i = .shutdown .freed := by
  revert freed
  apply reaches.invariant fun config =>
    config.memory.journal.freed = true → ∃ i, config.point i = .shutdown .freed
  · intro freed
    cases freed
  · intro config label after _ ended _ moves freed
    rcases moves_steps moves with ⟨memory, points⟩ | ⟨next, steps, points⟩
    · rw [memory] at freed
      rw [points]
      exact ended freed
    · have stays : config.memory.journal.freed = true → ∃ i, after.point i = .shutdown .freed := by
        intro before
        obtain ⟨i, here⟩ := ended before
        refine ⟨i, ?_⟩
        have other : i ≠ label.thread := by
          rintro rfl
          rw [here] at steps
          cases steps
        rw [points, Function.update_of_ne other, here]
      rcases steps_freed steps freed with before | rfl
      · exact stays before
      · exact ⟨label.thread, by rw [points, Function.update_self]⟩

/-- Behind the drain loop of an orderly run no task is allocated. -/
theorem none_allocated (reaches : Reaches baseline Orderly (baselinePoolInit roles) config) {i : ι}
    (drained : (config.point i).shutdownStage = 3) (task : Addr) :
    config.memory.queue.heap task = none := by
  have quiescing := reachable_quiescing reaches
  have quiet := quiescing.quiet i (by omega)
  obtain ⟨tasks, sound⟩ := reachable_sound reaches
  obtain ⟨rfl, taken, uncounted⟩ := nothing_left sound (quiescing.drained i drained.ge)
  have unheld : ∀ j, (config.point j).block = 0 := by
    intro j
    have outside := quiet j
    have untaken : (config.point j).share .taken = 0 := by
      simp only [Config.total, Finset.sum_apply] at taken
      exact Finset.sum_eq_zero_iff.mp taken j (Finset.mem_univ j)
    have uncounted : (config.point j).counted = 0 :=
      Finset.sum_eq_zero_iff.mp uncounted j (Finset.mem_univ j)
    generalize config.point j = pc at outside untaken uncounted
    cases pc with
    | submit pc => cases pc <;> first | rfl | cases outside
    | worker pc => cases pc with
      | unlockPopped task | call task => exact absurd untaken (Multiset.singleton_ne_zero task)
      | running | free => cases uncounted
      | _ => rfl
    | _ => rfl
  have absent : ¬ (config.memory.queue.heap task).isSome = true := by
    rw [(reachable_tidy reaches).tenanted.allocated task, sound.tasks_eq, Multiset.mem_add, mem_total_block]
    simp [unheld]
  simpa using absent

/-- Until the pool is freed the allocated tasks are those in the queue and those in the hands
of a thread, and no task is in two of these places. A pool that is freed in an orderly run
leaves no task behind. -/
theorem baseline_blocks_owned_once (reaches : Reaches baseline allowed (baselinePoolInit roles) config) :
    (config.memory.journal.freed = false →
      (∀ task, (config.memory.queue.heap task).isSome = true ↔
        task ∈ config.memory.tasks ∨ ∃ i, task ∈ (config.point i).block) ∧
      config.memory.tasks.Nodup ∧
      (∀ task ∈ config.memory.tasks, ∀ i, task ∉ (config.point i).block) ∧
      ∀ task i j, task ∈ (config.point i).block → task ∈ (config.point j).block → i = j) ∧
    ((∀ {config label}, allowed config label → Orderly config label) →
      config.memory.journal.freed = true → ∀ task, config.memory.queue.heap task = none) := by
  have tidy := reachable_tidy reaches
  obtain ⟨queue, threads, apart⟩ := Multiset.nodup_add.mp tidy.tenanted.once
  refine ⟨fun _ => ⟨fun task => ?_, queue, fun task queued i held => ?_, fun task i j mine other => ?_⟩,
    fun orderly freed task => ?_⟩
  · rw [tidy.tenanted.allocated task, Multiset.mem_add, Multiset.mem_coe, mem_total_block]
  · exact Multiset.disjoint_left.mp apart (Multiset.mem_coe.mpr queued) (mem_total_block.mpr ⟨i, held⟩)
  · by_contra different
    exact apart_of_sum_nodup Pc.block config.point threads different mine other
  · obtain ⟨i, ended⟩ := reachable_freed reaches freed
    exact none_allocated (reaches.mono orderly) (by rw [ended]; rfl) task

theorem reachable_defined (reaches : Reaches baseline allowed (baselinePoolInit roles) config) :
    Defined baseline config := by
  intro i pc middle arrives access
  obtain ⟨tasks, sound⟩ := reachable_sound reaches
  have held : ∀ task ∈ pc.block, task ∈ config.total Pc.block := by
    rw [← arrives.flat baseline_flat]
    exact fun task mine => mem_total_block.mpr ⟨i, mine⟩
  obtain ⟨input, takes⟩ : ∃ input, pc.takes input = true := by
    cases pc with
    | client last => exact ⟨.call .wait, rfl⟩
    | submit pc => cases pc with
      | create args => exact ⟨.alloc true, rfl⟩
      | _ => exact ⟨.none, rfl⟩
    | _ => exact ⟨.none, rfl⟩
  exact ⟨input, access_defined sound (reachable_tidy reaches) held access takes⟩

end Reachable

/-- The worker runs the first task while the second one is queued; in another run the pool is
freed behind its only task. -/
theorem baseline_blocks_owned_once_twoTasks :
    (∃ config : BaselineConfig (Fin 3),
      Reaches baseline (fun _ _ => True) (baselinePoolInit oneWorker) config ∧
        config.memory.tasks = [1] ∧ (config.memory.queue.heap 1).isSome = true ∧
        (∀ i, 1 ∉ (config.point i).block) ∧ ∀ i, 0 ∈ (config.point i).block → 0 = i) ∧
    ∃ config : BaselineConfig (Fin 3), Reaches baseline Orderly (baselinePoolInit oneWorker) config ∧
      config.memory.journal.freed = true ∧ config.memory.journal.completed = [0] ∧
      ∀ task, config.memory.queue.heap task = none := by
  constructor
  · obtain ⟨config, reaches, alive, queued, running⟩ := Reaches.of_schedule baseline (fun _ _ => True)
      (baselinePoolInit oneWorker)
      (checkSteps 1 ++ pushSteps 1 ++ checkSteps 2 ++ pushSteps 2 ++ List.replicate 4 (go 0))
      (fun config => config.memory.journal.freed = false ∧ config.memory.tasks = [1] ∧
        config.point 0 = .worker (.running 0))
      (by decide +kernel)
    obtain ⟨allocated, _, apart, alone⟩ := (baseline_blocks_owned_once reaches).1 alive
    have waiting : 1 ∈ config.memory.tasks := by simp [queued]
    refine ⟨config, reaches, queued, (allocated 1).mpr (.inl waiting), apart 1 waiting, fun i held => ?_⟩
    refine alone 0 0 i ?_ held
    rw [running]
    exact Multiset.mem_singleton_self 0
  · obtain ⟨config, reaches, freed, completed⟩ := Reaches.of_schedule baseline Orderly
      (baselinePoolInit oneWorker)
      (checkSteps 1 ++ pushSteps 1 ++ List.replicate 10 (go 0) ++ [.run 2 (.call .shutdown)] ++
        List.replicate 8 (go 2) ++ List.replicate 4 (go 0) ++ [go 2, go 2])
      (fun config => config.memory.journal.freed = true ∧ config.memory.journal.completed = [0])
      (by decide +kernel)
    exact ⟨config, reaches, freed, completed, (baseline_blocks_owned_once reaches).2 id freed⟩

end ThreadPool.Baseline
