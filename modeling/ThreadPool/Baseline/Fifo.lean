import Mathlib.Order.CompletePartialOrder
import ThreadPool.Baseline.Shutdown
import ThreadPool.Foundation.Executor

namespace ThreadPool.Baseline

open Foundation Foundation.Executor

/-! # The baseline pool as an executor

The baseline pool has one lane: seen from its callers it takes the tasks in exactly the
order in which they were accepted.
-/

/-- The tasks in the queue. -/
def Memory.tasks (memory : Memory) : List Addr := walk memory.queue.link memory.fresh memory.queue.head

section Steps

variable {memory after : Memory} {tasks : List Addr} {pc next : Pc} {shares rest : Account → Multiset Addr}

def Journal.history (journal : Journal) : History Addr where
  accepted := journal.accepted
  started := journal.called
  finished := journal.completed

theorem Sound.tasks_eq (sound : Sound memory tasks shares) : memory.tasks = tasks := by
  refine walk_eq_of_chain sound.represents.chain ?_
  have below : ∀ task ∈ tasks, task ∈ List.range memory.fresh := fun task queued =>
    List.mem_range.mpr (sound.queued_created queued)
  simpa using (sound.represents.chain.nodup.subperm below).length_le

/-- What the callers see of the memory, with the tasks in the queue and those that the
threads hold. -/
def Memory.executor (memory : Memory) (tasks : List Addr) (shares : Account → Multiset Addr) :
    Executor Unit Addr where
  waiting _ := tasks
  taken := shares .taken
  running := shares .running
  finished := memory.journal.completed

/-- A step that leaves the queue and the executed tasks as they are is no event. -/
theorem emits_none (history : after.journal.history = memory.journal.history)
    (taken : next.share .taken = pc.share .taken) (running : next.share .running = pc.share .running) :
    Emits (memory.executor tasks (pc.share + rest)) (after.executor tasks (next.share + rest))
      memory.journal.history after.journal.history none := by
  have completed : after.journal.completed = memory.journal.completed :=
    congrArg History.finished history
  refine .none ?_ history
  simp only [Memory.executor, Pi.add_apply, completed, taken, running]

attribute [local simp] Pc.share Memory.executor

theorem Sound.executed_accepted {task : Addr} (sound : Sound memory tasks shares)
    (executed : task ∈ tasks ∨ task ∈ shares .taken + shares .running + memory.journal.completed) :
    task ∈ memory.journal.accepted := by
  have called : (memory.journal.called : Multiset Addr) = shares .running + memory.journal.completed :=
    sound.balanced.called
  have accepted : (memory.journal.accepted : Multiset Addr) =
      tasks + shares .taken + memory.journal.called := sound.balanced.accepted
  rw [← Multiset.mem_coe, accepted, called]
  simp only [Multiset.mem_add, Multiset.mem_coe] at executed ⊢
  tauto

/-- Every step is an event of the executor or none. -/
theorem steps_emits (steps : Steps memory pc after next) (sound : Sound memory tasks (pc.share + rest)) :
    ∃ tasks' event, Sound after tasks' (next.share + rest) ∧
      Emits (memory.executor tasks (pc.share + rest)) (after.executor tasks' (next.share + rest))
        memory.journal.history after.journal.history event := by
  obtain ⟨tasks', goes⟩ := sound_step steps sound
  -- the links determine the tasks in the queue
  have same : after.queue.link = memory.queue.link → after.queue.head = memory.queue.head →
      tasks' = tasks := by
    intro links head
    refine Chain.unique goes.represents.chain ?_
    rw [links, head]
    exact sound.represents.chain
  cases steps with
  | create args => exact ⟨tasks, none, sound.create, emits_none rfl rfl rfl⟩
  | free task => exact ⟨tasks, none, sound.free, emits_none rfl rfl rfl⟩
  | push task queue pushed =>
      have mine : task ∈ ((Pc.submit (.push task)).share + rest) .pending := by simp
      have unknown : task ∉ memory.journal.accepted := fun accepted =>
        sound.balanced.pending_not_accepted mine accepted
      have unqueued : ¬ Lanes.Queued (fun _ : Unit => tasks) task := by
        rintro ⟨_, queued⟩
        exact unknown (sound.executed_accepted (.inl queued))
      have does : Does (memory.executor tasks ((Pc.submit (.push task)).share + rest)) (.accept () task) _ :=
        .accept unqueued fun executed => unknown (sound.executed_accepted (.inr executed))
      have lane : Lanes.push (fun _ : Unit => tasks) () task = fun _ => tasks ++ [task] := by
        funext _
        exact Lanes.push_self
      refine ⟨_, _, sound.push pushed, does.emits ?_ rfl⟩
      simp [lane]
  | pop task queue popped =>
      obtain ⟨remaining, rfl, represents, heap⟩ := Queue.qPop_represents sound.represents popped
      obtain rfl : tasks' = remaining := Chain.unique goes.represents.chain represents.chain
      have top : Lanes.Top (fun _ : Unit => task :: tasks') () := by
        refine ⟨List.cons_ne_nil _ _, fun higher above => absurd above (lt_irrefl _)⟩
      have does : Does (memory.executor (task :: tasks') ((Pc.worker .popTest).share + rest))
          (.take () task) _ := .take top rfl
      have lane : Lanes.dropHead (fun _ : Unit => task :: tasks') () = fun _ => tasks' := by
        funext _
        exact Lanes.dropHead_self
      refine ⟨tasks', _, goes, does.emits ?_ rfl⟩
      simp [lane]
  | call task record found =>
      obtain rfl := same rfl rfl
      have taken : ((Pc.worker (.call task)).share + rest) .taken = task ::ₘ rest .taken := by simp
      have does : Does (memory.executor tasks' ((Pc.worker (.call task)).share + rest)) (.start task) _ :=
        .start taken
      refine ⟨tasks', _, goes, does.emits ?_ rfl⟩
      simp
  | running task =>
      obtain rfl := same rfl rfl
      have running : ((Pc.worker (.running task)).share + rest) .running = task ::ₘ rest .running := by
        simp
      have does : Does (memory.executor tasks' ((Pc.worker (.running task)).share + rest))
          (.finish task) _ := .finish running
      refine ⟨tasks', _, goes, does.emits ?_ rfl⟩
      simp [Memory.completeTask]
  | _ =>
      obtain rfl := same rfl rfl
      exact ⟨tasks', none, goes, emits_none rfl rfl rfl⟩

end Steps

section Reachable

variable {ι : Type} [DecidableEq ι] [Fintype ι] {config after : BaselineConfig ι} {label : Label ι Input}
  {allowed : BaselineConfig ι → Label ι Input → Prop} {roles : ι → Role}

/-- What the callers see of a state of the pool. -/
def executor (config : BaselineConfig ι) : Executor Unit Addr :=
  config.memory.executor config.memory.tasks (config.total Pc.share)

theorem explained_step {trace : List (Event Unit Addr)}
    (reaches : Reaches baseline allowed (baselinePoolInit roles) config)
    (explains : Explains trace (executor config) config.memory.journal.history)
    (moves : Moves baseline config label after) :
    ∃ trace, Explains trace (executor after) after.memory.journal.history := by
  rcases moves_steps moves with ⟨memory, points⟩ | ⟨next, steps, points⟩
  · refine ⟨trace, ?_⟩
    rwa [executor, memory, total_still Pc.share points]
  · obtain ⟨rest, before, later⟩ := total_moved Pc.share points
    obtain ⟨tasks, sound⟩ := reachable_sound reaches
    rw [executor, sound.tasks_eq, before] at explains
    rw [before] at sound
    obtain ⟨tasks', event, goes, emits⟩ := steps_emits steps sound
    rw [executor, later, goes.tasks_eq]
    exact ⟨_, explains.emits emits⟩

omit [DecidableEq ι] in
theorem explained_init : Explains [] (executor (baselinePoolInit roles : BaselineConfig ι))
    (baselinePoolInit roles : BaselineConfig ι).memory.journal.history := by
  rw [executor, total_init Pc.share (by intro role; funext account; cases role <;> cases account <;> rfl)]
  exact explains_nil

/-- The baseline pool is a queue of tasks, however its threads interleave: a run of the
executor leads to what the callers see, and the tasks accepted so far are those taken by the
workers and then those in the queue, in the same order. -/
theorem baseline_refines_queue (reaches : Reaches baseline allowed (baselinePoolInit roles) config) :
    ∃ trace, Explains trace (executor config) config.memory.journal.history ∧
      config.memory.journal.accepted = config.memory.tasks.reverse ++ trace.filterMap (Event.takenAt ()) := by
  have explained : ∃ trace, Explains trace (executor config) config.memory.journal.history := by
    apply reaches.invariant fun config =>
      ∃ trace, Explains trace (executor config) config.memory.journal.history
    · exact ⟨[], explained_init⟩
    · intro config label after reached ⟨trace, explains⟩ _ moves
      exact explained_step reached explains moves
  obtain ⟨trace, explains⟩ := explained
  refine ⟨trace, explains, ?_⟩
  have order := explains.runs.in_order () (explains.runs.flat fun _ _ => lt_irrefl ())
  have all : (Event.acceptedAt () : Event Unit Addr → Option Addr) = Event.accepted := by
    funext event
    cases event <;> rfl
  calc config.memory.journal.accepted
      = trace.filterMap Event.accepted := (congrArg History.accepted explains.history).symm
    _ = trace.filterMap (Event.acceptedAt ()) := by rw [all]
    _ = config.memory.tasks.reverse ++ trace.filterMap (Event.takenAt ()) := order

end Reachable

/-- The worker runs the first of two tasks. -/
theorem baseline_refines_queue_twoTasks :
    ∃ (config : BaselineConfig (Fin 3)) (trace : List (Event Unit Addr)),
      Reaches baseline (fun _ _ => True) (baselinePoolInit oneWorker) config ∧
        config.memory.journal.called = [0] ∧ config.memory.tasks = [1] ∧
        [1, 0] = [1].reverse ++ trace.filterMap (Event.takenAt ()) := by
  obtain ⟨config, reaches, accepted, called, queued⟩ := Reaches.of_schedule baseline (fun _ _ => True)
    (baselinePoolInit oneWorker)
    (checkSteps 1 ++ pushSteps 1 ++ checkSteps 2 ++ pushSteps 2 ++ List.replicate 4 (go 0))
    (fun config => config.memory.journal.accepted = [1, 0] ∧ config.memory.journal.called = [0] ∧
      config.memory.tasks = [1])
    (by decide +kernel)
  obtain ⟨trace, _, order⟩ := baseline_refines_queue reaches
  rw [accepted, queued] at order
  exact ⟨config, trace, reaches, called, queued, order⟩

end ThreadPool.Baseline
