import Mathlib.Algebra.BigOperators.Pi
import ThreadPool.Baseline.Code
import ThreadPool.Foundation.Custody

namespace ThreadPool.Baseline

open Foundation

/-! # Tasks and counters of the baseline pool

Every step of the pool is a step of the custody of its tasks or leaves it alone, so that
no task is lost or called twice. `total_task_in_system` counts the tasks between their
increment and their decrement, `in_flight_submits` the announced calls, both modulo the
width of `int`.
-/

inductive Account where
  | pending
  | taken
  | running
  | finished
  | returning
deriving DecidableEq

/-- The tasks that a thread holds at a program point. -/
def Pc.share : Pc → Account → Multiset Addr
  | .submit (.count task), .pending => {task}
  | .submit (.lockQueue task), .pending => {task}
  | .submit (.push task), .pending => {task}
  | .submit (.unlockQueue task), .returning => {task}
  | .submit (.signal task), .returning => {task}
  | .submit (.leave task), .returning => {task}
  | .worker (.unlockPopped task), .taken => {task}
  | .worker (.call task), .taken => {task}
  | .worker (.running task), .running => {task}
  | .worker (.free task), .finished => {task}
  | _, _ => 0

/-- The custody of the tasks, with those in the queue and those that the threads hold. -/
def Memory.custody (memory : Memory) (tasks : List Addr) (shares : Account → Multiset Addr) :
    Custody Addr where
  pending := shares .pending
  queued := tasks
  taken := shares .taken
  running := shares .running
  finished := shares .finished
  returning := shares .returning
  accepted := memory.journal.accepted
  returned := memory.journal.returned
  called := memory.journal.called
  completed := memory.journal.completed

structure Sound (memory : Memory) (tasks : List Addr) (shares : Account → Multiset Addr) : Prop where
  represents : memory.queue.Represents tasks
  balanced : (memory.custody tasks shares).Balanced
  created : ∀ task ∈ shares .pending + memory.journal.accepted, task < memory.fresh
  /-- A task that is not pushed yet has a null link. -/
  ends : ∀ task ∈ shares .pending, memory.queue.link task = some none

section Steps

variable {memory after : Memory} {tasks : List Addr} {pc next : Pc} {rest : Account → Multiset Addr}

theorem Sound.queued_created {shares : Account → Multiset Addr} {task : Addr}
    (sound : Sound memory tasks shares) (queued : task ∈ tasks) : task < memory.fresh := by
  have accepted : task ∈ (memory.custody tasks shares).accepted :=
    sound.balanced.queued_accepted (Multiset.mem_coe.mpr queued)
  exact sound.created task (Multiset.mem_add.mpr (.inr accepted))

theorem Sound.pending_not_queued {shares : Account → Multiset Addr} {task : Addr}
    (sound : Sound memory tasks shares) (pending : task ∈ shares .pending) : task ∉ tasks := by
  intro queued
  apply sound.balanced.pending_not_accepted pending
  exact sound.balanced.queued_accepted (Multiset.mem_coe.mpr queued)

attribute [local simp] Pc.share Memory.custody Memory.createTask Memory.completeTask
  Memory.freeTask Memory.addInFlight

/-- A step that touches neither the queue nor a task in preparation. -/
theorem Sound.journalled (sound : Sound memory tasks (pc.share + rest))
    (queue : after.queue = memory.queue) (fresh : after.fresh = memory.fresh)
    (accepted : after.journal.accepted = memory.journal.accepted)
    (pending : next.share .pending = pc.share .pending)
    (balanced : (after.custody tasks (next.share + rest)).Balanced) :
    Sound after tasks (next.share + rest) where
  represents := by rw [queue]; exact sound.represents
  balanced := balanced
  created := by
    rw [Pi.add_apply, pending, accepted, fresh]
    exact sound.created
  ends := by
    rw [Pi.add_apply, pending, queue]
    exact sound.ends

theorem Sound.unchanged (sound : Sound memory tasks (pc.share + rest))
    (queue : after.queue = memory.queue) (fresh : after.fresh = memory.fresh)
    (journal : after.journal = memory.journal) (share : next.share = pc.share) :
    Sound after tasks (next.share + rest) := by
  refine sound.journalled queue fresh (by rw [journal]) (by rw [share]) ?_
  rw [share, Memory.custody, journal]
  exact sound.balanced

theorem Sound.create {args : SubmitArgs}
    (sound : Sound memory tasks ((Pc.submit (.create args)).share + rest)) :
    Sound (memory.createTask args) tasks ((Pc.submit (.count memory.fresh)).share + rest) := by
  have links : (memory.createTask args).queue.link =
      Function.update memory.queue.link memory.fresh (some none) := Queue.link_store ..
  have created : ∀ task ∈ rest .pending + memory.journal.accepted, task < memory.fresh := by
    simpa using sound.created
  have unused : memory.fresh ∉ rest .pending + memory.journal.accepted := by
    intro member
    exact lt_irrefl _ (created _ member)
  have step : (memory.custody tasks ((Pc.submit (.create args)).share + rest)).Step
      ((memory.createTask args).custody tasks ((Pc.submit (.count memory.fresh)).share + rest)) := by
    simpa using Custody.Step.create memory.fresh (by simpa using unused)
  refine ⟨?_, step.balanced sound.balanced, ?_, ?_⟩
  · refine sound.represents.frame rfl rfl fun addr member => ?_
    rw [links, Function.update_of_ne (sound.queued_created member).ne]
  · intro task member
    have cases : task = memory.fresh ∨ task ∈ rest .pending + memory.journal.accepted := by
      simpa [or_assoc] using member
    rcases cases with same | old
    · exact same ▸ Nat.lt_succ_self _
    · exact Nat.lt_succ_of_lt (created task old)
  · intro task member
    rw [links]
    have cases : task = memory.fresh ∨ task ∈ rest .pending := by simpa using member
    rcases cases with rfl | old
    · exact Function.update_self ..
    · rw [Function.update_of_ne (created task (by simp [old])).ne]
      exact sound.ends task (by simpa using old)

theorem Sound.push {task : Addr} {queue : Queue}
    (sound : Sound memory tasks ((Pc.submit (.push task)).share + rest))
    (pushed : memory.queue.qPush task = some queue) :
    Sound { memory with queue, journal.accepted := task :: memory.journal.accepted } (tasks ++ [task])
      ((Pc.submit (.unlockQueue task)).share + rest) := by
  have mine : task ∈ ((Pc.submit (.push task)).share + rest) .pending := by simp
  obtain ⟨represents, links⟩ := Queue.qPush_represents sound.represents
    (sound.pending_not_queued mine) (sound.ends task mine) pushed
  have appended : (↑(tasks ++ [task]) : Multiset Addr) = task ::ₘ ↑tasks :=
    Multiset.coe_eq_coe.mpr (List.perm_append_singleton task tasks)
  have step : (memory.custody tasks ((Pc.submit (.push task)).share + rest)).Step
      (Memory.custody { memory with queue, journal.accepted := task :: memory.journal.accepted }
        (tasks ++ [task]) ((Pc.submit (.unlockQueue task)).share + rest)) := by
    simpa [appended, -Multiset.cons_coe, ← Multiset.cons_coe] using
      Custody.Step.accept task (rest .pending) (by simp)
  refine ⟨represents, step.balanced sound.balanced, ?_, ?_⟩
  · intro other member
    apply sound.created
    simpa [or_left_comm] using member
  · intro other member
    have old : other ∈ ((Pc.submit (.push task)).share + rest) .pending := by
      have held : other ∈ rest .pending := by simpa using member
      simp [held]
    rw [links other (sound.pending_not_queued old)]
    exact sound.ends other old

theorem Sound.pop {task : Addr} {queue : Queue}
    (sound : Sound memory tasks ((Pc.worker .popTest).share + rest))
    (popped : memory.queue.qPop = some (task, queue)) :
    ∃ tasks', Sound { memory with queue } tasks' ((Pc.worker (.unlockPopped task)).share + rest) := by
  obtain ⟨remaining, rfl, represents, heap⟩ := Queue.qPop_represents sound.represents popped
  have links : queue.link = memory.queue.link := by
    funext addr
    rw [Queue.link, heap, Queue.link]
  have step : (memory.custody (task :: remaining) ((Pc.worker .popTest).share + rest)).Step
      (Memory.custody { memory with queue } remaining
        ((Pc.worker (.unlockPopped task)).share + rest)) := by
    simpa using Custody.Step.take task (remaining : Multiset Addr) (by simp)
  refine ⟨remaining, represents, step.balanced sound.balanced, ?_, ?_⟩
  · simpa using sound.created
  · simpa [links] using sound.ends

theorem Sound.free {task : Addr}
    (sound : Sound memory tasks ((Pc.worker (.free task)).share + rest)) :
    Sound (memory.freeTask task) tasks ((Pc.worker .decrement).share + rest) := by
  have mine : task ∈ ((Pc.worker (.free task)).share + rest) .finished := by simp
  obtain ⟨unpending, unqueued⟩ := sound.balanced.finished_apart mine
  have links : ∀ addr, addr ≠ task → (memory.freeTask task).queue.link addr = memory.queue.link addr := by
    intro addr different
    simp [Queue.link, different]
  have step : (memory.custody tasks ((Pc.worker (.free task)).share + rest)).Step
      ((memory.freeTask task).custody tasks ((Pc.worker .decrement).share + rest)) := by
    simpa using Custody.Step.discard task (rest .finished) (by simp)
  refine ⟨?_, step.balanced sound.balanced, ?_, ?_⟩
  · refine sound.represents.frame rfl rfl fun addr member => links addr ?_
    rintro rfl
    exact unqueued (Multiset.mem_coe.mpr member)
  · simpa using sound.created
  · intro other member
    have held : other ∈ ((Pc.worker (.free task)).share + rest) .pending := by simpa using member
    rw [links other fun same => unpending (same ▸ held)]
    exact sound.ends other held

/-- Every step keeps the books of the tasks. -/
theorem sound_step (steps : Steps memory pc after next) (sound : Sound memory tasks (pc.share + rest)) :
    ∃ tasks', Sound after tasks' (next.share + rest) := by
  cases steps with
  | create args => exact ⟨tasks, sound.create⟩
  | push task queue pushed => exact ⟨_, sound.push pushed⟩
  | pop task queue popped => exact sound.pop popped
  | free task => exact ⟨tasks, sound.free⟩
  | leave task =>
      refine ⟨tasks, sound.journalled rfl rfl rfl rfl (Custody.Step.balanced ?_ sound.balanced)⟩
      simpa [-Multiset.cons_coe, ← Multiset.cons_coe]
        using Custody.Step.answer task (rest .returning) (by simp)
  | call task record found =>
      refine ⟨tasks, sound.journalled rfl rfl rfl rfl (Custody.Step.balanced ?_ sound.balanced)⟩
      simpa [-Multiset.cons_coe, ← Multiset.cons_coe]
        using Custody.Step.call task (rest .taken) (by simp)
  | running task =>
      refine ⟨tasks, sound.journalled rfl rfl rfl rfl (Custody.Step.balanced ?_ sound.balanced)⟩
      simpa [-Multiset.cons_coe, ← Multiset.cons_coe]
        using Custody.Step.complete task (rest .running) (by simp)
  | freePool =>
      have same : (Pc.shutdown .freed).share = (Pc.shutdown .free).share := by
        funext account
        cases account <;> rfl
      rw [same]
      exact ⟨tasks, sound.journalled rfl rfl rfl rfl sound.balanced⟩
  | _ => exact ⟨tasks, sound.unchanged rfl rfl rfl (by funext account; cases account <;> rfl)⟩

/-- The tasks that are accepted and not called yet. -/
def Memory.waiting (memory : Memory) : Int :=
  memory.journal.accepted.length - memory.journal.called.length

/-- The share of a thread in `total_task_in_system`, beside the waiting tasks. -/
def Pc.counted : Pc → Nat
  | .submit (.lockQueue _) => 1
  | .submit (.push _) => 1
  | .worker (.running _) => 1
  | .worker (.free _) => 1
  | .worker .decrement => 1
  | _ => 0

/-- The share of a thread in `in_flight_submits`. -/
def Pc.inFlight : Pc → Nat
  | .submit (.checkShutdown _) => 0
  | .submit (.announce _) => 0
  | .submit _ => 1
  | _ => 0

theorem wrap_moved {counter value moved : Int} (delta : Int) (exact : counter = wrap 32 value)
    (change : moved = value + delta) : wrap 32 (counter + delta) = wrap 32 moved := by
  rw [exact, wrap_add_left, change]

theorem total_step (steps : Steps memory pc after next) {others : Nat}
    (counter : memory.totalTaskInSystem = wrap 32 (memory.waiting + (pc.counted + others : Nat))) :
    after.totalTaskInSystem = wrap 32 (after.waiting + (next.counted + others : Nat)) := by
  cases steps with
  | count task =>
      apply wrap_moved 1 counter
      simp only [Memory.waiting, Memory.addTotal, Pc.counted]
      omega
  | decrement | decrementLast =>
      apply wrap_moved (-1) counter
      simp only [Memory.waiting, Memory.addTotal, Pc.counted]
      omega
  | push | call =>
      refine counter.trans (congrArg (wrap 32) ?_)
      simp only [Memory.waiting, Pc.counted, List.length_cons]
      omega
  | _ => exact counter

theorem inFlight_step (steps : Steps memory pc after next) {others : Nat}
    (counter : memory.inFlightSubmits = wrap 32 (pc.inFlight + others : Nat)) :
    after.inFlightSubmits = wrap 32 (next.inFlight + others : Nat) := by
  cases steps with
  | announce args =>
      apply wrap_moved 1 counter
      simp only [Pc.inFlight]
      omega
  | retire | leave =>
      apply wrap_moved (-1) counter
      simp only [Pc.inFlight]
      omega
  | _ => exact counter

end Steps

section Reachable

variable {ι : Type} [DecidableEq ι] [Fintype ι] {config : BaselineConfig ι}
  {allowed : BaselineConfig ι → Label ι Input → Prop} {roles : ι → Role}

omit [DecidableEq ι] in
theorem total_init {M : Type} [AddCommMonoid M] (share : Pc → M)
    (start : ∀ role : Role, share role.start = 0) :
    (baselinePoolInit roles).total share = 0 :=
  Finset.sum_eq_zero fun i _ => start (roles i)

theorem reachable_sound (reaches : Reaches baseline allowed (baselinePoolInit roles) config) :
    ∃ tasks, Sound config.memory tasks (config.total Pc.share) := by
  apply reaches.invariant fun config => ∃ tasks, Sound config.memory tasks (config.total Pc.share)
  · rw [total_init Pc.share (by intro role; funext account; cases role <;> cases account <;> rfl)]
    refine ⟨[], ⟨rfl, rfl⟩, ⟨?_, rfl, rfl, rfl, le_rfl⟩, ?_, ?_⟩
    · exact Multiset.nodup_zero
    · intro task member
      simp [baselinePoolInit] at member
    · intro task member
      simp at member
  · rintro config label after _ ⟨tasks, sound⟩ _ moves
    rcases moves_steps moves with ⟨memory, points⟩ | ⟨next, steps, points⟩
    · rw [memory, total_still Pc.share points]
      exact ⟨tasks, sound⟩
    · obtain ⟨rest, before, later⟩ := total_moved Pc.share points
      rw [before] at sound
      rw [later]
      exact sound_step steps sound

/-- What `total_task_in_system` counts. -/
def tasksInSystem (config : BaselineConfig ι) : Int :=
  config.memory.waiting + config.total Pc.counted

/-- What `in_flight_submits` counts. -/
def submitsInFlight (config : BaselineConfig ι) : Nat :=
  config.total Pc.inFlight

theorem reachable_total (reaches : Reaches baseline allowed (baselinePoolInit roles) config) :
    config.memory.totalTaskInSystem = wrap 32 (tasksInSystem config) := by
  apply reaches.invariant fun config =>
    config.memory.totalTaskInSystem = wrap 32 (tasksInSystem config)
  · rw [tasksInSystem, total_init Pc.counted (by intro role; cases role <;> rfl)]
    change (0 : Int) = wrap 32 0
    rw [wrap_of_range_32] <;> decide
  · intro config label after _ counter _ moves
    rw [tasksInSystem] at counter ⊢
    rcases moves_steps moves with ⟨memory, points⟩ | ⟨next, steps, points⟩
    · rw [memory, total_still Pc.counted points, counter]
    · obtain ⟨rest, before, later⟩ := total_moved Pc.counted points
      rw [before] at counter
      rw [later]
      exact total_step steps counter

theorem reachable_inFlight (reaches : Reaches baseline allowed (baselinePoolInit roles) config) :
    config.memory.inFlightSubmits = wrap 32 (submitsInFlight config) := by
  apply reaches.invariant fun config =>
    config.memory.inFlightSubmits = wrap 32 (submitsInFlight config)
  · rw [submitsInFlight, total_init Pc.inFlight (by intro role; cases role <;> rfl)]
    change (0 : Int) = wrap 32 0
    rw [wrap_of_range_32] <;> decide
  · intro config label after _ counter _ moves
    rw [submitsInFlight] at counter ⊢
    rcases moves_steps moves with ⟨memory, points⟩ | ⟨next, steps, points⟩
    · rw [memory, total_still Pc.inFlight points, counter]
    · obtain ⟨rest, before, later⟩ := total_moved Pc.inFlight points
      rw [before] at counter
      rw [later]
      exact inFlight_step steps counter

theorem waiting_eq {shares : Account → Multiset Addr} {memory : Memory} {tasks : List Addr}
    (sound : Sound memory tasks shares) :
    memory.waiting = tasks.length + Multiset.card (shares .taken) := by
  have lengths := congrArg Multiset.card sound.balanced.accepted
  simp only [Memory.custody, Multiset.card_add, Multiset.coe_card] at lengths
  rw [Memory.waiting]
  omega

omit [DecidableEq ι] in
/-- With nothing left to count, no task is queued or with a worker. -/
theorem nothing_left {tasks : List Addr} (sound : Sound config.memory tasks (config.total Pc.share))
    (none : tasksInSystem config = 0) :
    tasks = [] ∧ config.total Pc.share .taken = 0 ∧ config.total Pc.counted = 0 := by
  have waiting := waiting_eq sound
  rw [tasksInSystem] at none
  exact ⟨List.eq_nil_of_length_eq_zero (by omega), Multiset.card_eq_zero.mp (by omega), by omega⟩

/-- With nothing left to count, every task whose submit has returned is done. -/
theorem settled (reaches : Reaches baseline allowed (baselinePoolInit roles) config)
    (none : tasksInSystem config = 0) {task : Addr} (returned : task ∈ config.memory.journal.returned) :
    config.memory.journal.called.count task = 1 ∧
      config.memory.journal.completed.count task = 1 := by
  obtain ⟨tasks, sound⟩ := reachable_sound reaches
  obtain ⟨queued, taken, uncounted⟩ := nothing_left sound none
  have running : config.total Pc.share .running = 0 := by
    simp only [Config.total, Finset.sum_apply]
    refine Finset.sum_eq_zero fun j _ => ?_
    have mine : (config.point j).counted = 0 :=
      Finset.sum_eq_zero_iff.mp uncounted j (Finset.mem_univ j)
    change (config.point j).share .running = 0
    generalize config.point j = pc at mine
    cases pc with
    | worker pc => cases pc <;> first | rfl | cases mine
    | submit pc => cases pc <;> rfl
    | _ => rfl
  have done := sound.balanced.settled (by simp [Memory.custody, queued]) taken running
    (Multiset.mem_coe.mpr returned)
  simpa [Memory.custody] using done

end Reachable

end ThreadPool.Baseline
