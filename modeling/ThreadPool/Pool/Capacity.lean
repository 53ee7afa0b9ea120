import ThreadPool.Pool.Execution
import ThreadPool.Pool.NotEmpty

namespace ThreadPool.Pool

open Foundation

/-! # The cap on the queue

`pq_try_push` loads the cap under `pq_mutex` and `pq_set_max_tasks` stores it without.
A push that has loaded an old cap may add one task to a queue that the new cap calls
full; no other push does.
-/

/-- What a write can do to the size of the queue and to the cap. -/
inductive Resizes {ι : Type} (memory : Memory ι) (pc : Pc) (after : Memory ι) : Prop
  | keep : after.pq.size = memory.pq.size → after.pq.maxTasks = memory.pq.maxTasks →
      Resizes memory pc after
  | setCap {maxTasks} : pc = .setMaxTasks maxTasks → after.pq.size = memory.pq.size →
      after.pq.maxTasks = maxTasks → Resizes memory pc after
  | shrink : pc.holds .pqMutex = true → after.pq.size ≤ memory.pq.size →
      after.pq.maxTasks = memory.pq.maxTasks → Resizes memory pc after
  | grow {ticket max} : pc = .submit (.insert ticket max) → memory.pq.atCapacity max = false →
      after.pq.size = memory.pq.size + 1 → after.pq.maxTasks = memory.pq.maxTasks →
      Resizes memory pc after

section Writes

variable {ι : Type} [DecidableEq ι] {me : ι} {memory after : Memory ι} {pc next : Pc}

theorem destroy_cap {pq pq' : PriorityQueue} {tasks : List Addr}
    (result : pq.pqDestroy = some (tasks, pq')) : pq'.maxTasks = pq.maxTasks := by
  simp only [PriorityQueue.pqDestroy, Option.bind_eq_bind, Option.bind_eq_some_iff, Option.pure_def,
    Option.some.injEq, Prod.mk.injEq, Prod.exists] at result
  obtain ⟨_, _, _, _, _, _, _, _, _, _, rfl⟩ := result
  rfl

theorem writes_resizes {lanes : Lanes Priority Addr} (represents : memory.pq.Represents lanes)
    (writes : Writes me memory pc after next) : Resizes memory pc after := by
  cases writes with
  | insert ticket max pq room inserted =>
      obtain ⟨size, cap⟩ := insert_counts inserted
      exact .grow rfl room size cap
  | pop task pq ready popped =>
      obtain ⟨size, cap⟩ := pop_counts represents ready popped
      exact .shrink rfl (by simp only; omega) cap
  | promote scan promoteMs now promoted pq result =>
      obtain ⟨size, cap⟩ := promote_counts represents (by cases scan <;> decide) result
      exact .keep size cap
  | setMaxTasks maxTasks => exact .setCap rfl rfl rfl
  | destroyQueue tasks pq destroyed =>
      have size := (destroy_size represents destroyed).1
      exact .shrink rfl (by simp only; omega) (destroy_cap destroyed)
  | _ => exact .keep rfl rfl

/-- A push faces its capacity test with the cap that it has just loaded. -/
theorem goes_insert {ticket : Ticket} {max : Nat}
    (goes : Goes me memory pc after (.submit (.insert ticket max))) :
    max = memory.pq.maxTasks ∧ after = memory := by
  cases goes with
  | sync syncs => cases syncs
  | read behind reads =>
      cases reads with
      | call _ _ entry => cases entry
      | loadCap => exact ⟨rfl, rfl⟩
  | write behind writes => cases writes

omit [DecidableEq ι] in
theorem behind_insert {ticket : Ticket} {max : Nat} (behind : Behind pc (.submit (.insert ticket max))) :
    pc = .submit (.insert ticket max) := by
  rcases behind with here | syncs
  · exact here
  · cases syncs

omit [DecidableEq ι] in
theorem behind_setMaxTasks {maxTasks : Nat} (behind : Behind pc (.setMaxTasks maxTasks)) :
    pc = .setMaxTasks maxTasks := by
  rcases behind with here | syncs
  · exact here
  · cases syncs

theorem writes_not_insert (writes : Writes me memory pc after next) (ticket : Ticket) (max : Nat) :
    next ≠ .submit (.insert ticket max) := by
  cases writes <;> nofun

end Writes

/-- The cap that a thread is about to store. -/
def Pc.storesCap : Pc → Option Nat
  | .setMaxTasks maxTasks => some maxTasks
  | _ => none

section Runs

variable {ι : Type} [DecidableEq ι] [Fintype ι] {config after : PoolConfig ι} {label : Label ι Input}
  {roles : ι → Role} {idCount cap size : Nat} {stale : Prop}

/-- No step stores another cap than the one in force. -/
def KeepsCap (config : PoolConfig ι) : Label ι Input → Prop
  | .run i _ => ∀ maxTasks ∈ (config.point i).storesCap, maxTasks = config.memory.pq.maxTasks
  | _ => True

instance : ∀ label, Decidable (KeepsCap config label)
  | .run i _ => inferInstanceAs (Decidable (∀ maxTasks ∈ (config.point i).storesCap,
      maxTasks = config.memory.pq.maxTasks))
  | .pick .. => inferInstanceAs (Decidable True)
  | .wake _ => inferInstanceAs (Decidable True)

/-- The size of the queue under a constant cap, which was stored at some size; `stale`
says that a push had then passed its test with an older cap. -/
structure Capped (cap size : Nat) (stale : Prop) (config : PoolConfig ι) : Prop where
  constant : config.memory.pq.maxTasks = cap
  loaded : ∀ i ticket max, config.point i = .submit (.insert ticket max) → max = cap ∨
    (config.memory.pq.size = size ∧ (config.memory.pq.atCapacity max = false → stale))
  bound : config.memory.pq.size ≤ max cap size ∨ (config.memory.pq.size ≤ size + 1 ∧ stale)

omit [Fintype ι] in
/-- A thread in front of its insertion is running: nobody sleeps there. -/
theorem insert_ready {i : ι} {ticket : Ticket} {max : Nat} (waits : (config.threads i).Waits pool i)
    (here : config.point i = .submit (.insert ticket max)) :
    config.threads i = .ready (.submit (.insert ticket max)) := by
  rw [← here]
  apply waits.ready
  intro cond mutex before wait
  rw [here] at wait
  cases code_syncs (congrArg Instr.sync wait)

/-- A step that leaves the size and the cap alone. -/
theorem capped_keep (moves : Moves pool config label after) (capped : Capped cap size stale config)
    (sameSize : after.memory.pq.size = config.memory.pq.size)
    (sameCap : after.memory.pq.maxTasks = config.memory.pq.maxTasks) : Capped cap size stale after := by
  refine ⟨sameCap.trans capped.constant, ?_, by rw [sameSize]; exact capped.bound⟩
  intro i ticket max here
  rcases moves_goes moves i with same | goes
  · simpa only [sameSize, PriorityQueue.atCapacity] using capped.loaded i ticket max (same.symm.trans here)
  · rw [here] at goes
    exact .inl ((goes_insert goes).1.trans capped.constant)

/-- While one thread changes the size under the mutex, no push is in front of its insertion. -/
theorem insert_alone {i : ι} {access next : Pc} {middle : PoolConfig ι}
    (reaches : Reaches pool (fun _ _ => True) (threadPoolInit roles idCount) config)
    (arrives : Arrives pool config i access middle)
    (writes : Writes i config.memory access after.memory next)
    (points : after.point = Function.update config.point i next) (held : access.holds .pqMutex = true)
    (j : ι) (ticket : Ticket) (max : Nat) : after.point j ≠ .submit (.insert ticket max) := by
  intro there
  by_cases mover : j = i
  · subst mover
    rw [points, Function.update_self] at there
    exact writes_not_insert writes ticket max there
  · rw [points, Function.update_of_ne mover] at there
    have ready := insert_ready (reachable_waits reaches j) there
    exact arrives.apart pool_disciplined (reachable_owned reaches) (Ne.symm mover) ready .pqMutex
      ⟨held, rfl⟩

theorem capped_step (positive : 0 < cap)
    (reaches : Reaches pool (fun _ _ => True) (threadPoolInit roles idCount) config)
    (capped : Capped cap size stale config) (keeps : KeepsCap config label)
    (moves : Moves pool config label after) : Capped cap size stale after := by
  cases moves_step moves with
  | still same | sync _ same | read _ _ _ same | create _ _ _ same | createFails _ same =>
      exact capped_keep moves capped (by rw [same]) (by rw [same])
  | @write i access _ _ _ _ arrives writes points =>
      obtain ⟨lanes, books⟩ := reachable_balanced reaches
      have alone := insert_alone reaches arrives writes points
      cases writes_resizes books.represents writes with
      | keep sameSize sameCap => exact capped_keep moves capped sameSize sameCap
      | @setCap maxTasks here sameSize newCap =>
          subst here
          have there := behind_setMaxTasks (arrives_behind arrives)
          exact capped_keep moves capped sameSize (newCap.trans (keeps maxTasks (by rw [there]; rfl)))
      | shrink held smaller sameCap =>
          refine ⟨sameCap.trans capped.constant, ?_, ?_⟩
          · intro j ticket max there
            exact absurd there (alone held j ticket max)
          · rcases capped.bound with low | ⟨low, stale⟩
            · exact .inl (smaller.trans low)
            · exact .inr ⟨smaller.trans low, stale⟩
      | @grow ticket max here room larger sameCap =>
          subst here
          refine ⟨sameCap.trans capped.constant, ?_, ?_⟩
          · intro j ticket max there
            exact absurd there (alone rfl j ticket max)
          · have there := behind_insert (arrives_behind arrives)
            rcases capped.loaded i ticket max there with rfl | ⟨old, passed⟩
            · have below : ¬ max ≤ config.memory.pq.size := by
                simpa [PriorityQueue.atCapacity, positive.ne'] using room
              omega
            · exact .inr ⟨by omega, passed room⟩

/-- The bound on the size from a state in which the cap was stored. -/
theorem capped_run {later : PoolConfig ι} (positive : 0 < cap)
    (reaches : Reaches pool (fun _ _ => True) (threadPoolInit roles idCount) config)
    (constant : config.memory.pq.maxTasks = cap) (goes : Reaches pool KeepsCap config later) :
    Capped cap config.memory.pq.size (∃ i ticket old, config.point i = .submit (.insert ticket old) ∧
      config.memory.pq.atCapacity old = false) later := by
  apply goes.invariant (Capped cap config.memory.pq.size _)
  · refine ⟨constant, ?_, .inl (le_max_right ..)⟩
    intro i ticket old here
    exact .inr ⟨rfl, fun passed => ⟨i, ticket, old, here, passed⟩⟩
  · intro config label after reached capped keeps moves
    exact capped_step positive (reaches.extend reached) capped keeps moves

/-- A change of the cap leaves the queue alone. -/
theorem setMaxTasks_step {i : ι} {input : Input} {maxTasks : Nat}
    (here : config.point i = .setMaxTasks maxTasks)
    (stepped : pool.step config (.run i input) = some after) :
    after.memory.pq = config.memory.pq.pqSetMaxTasks maxTasks := by
  obtain ⟨next, result, _⟩ := (step_moves stepped).performed (by rw [here]; rfl)
  rw [here] at result
  rw [← (Prod.mk.inj (Option.some.inj result)).1]

/-- A change of the cap removes no task. While the cap is constant since the queue was
empty, the size is at most the cap; from a change at some size on it exceeds the larger of
that size and the cap by at most one, and only by a push that had passed its test before. -/
theorem size_bounded_by_cap
    (reaches : Reaches pool (fun _ _ => True) (threadPoolInit roles idCount) config) :
    (∀ i input maxTasks after, config.point i = .setMaxTasks maxTasks →
        pool.step config (.run i input) = some after →
        after.memory.pq.lanes = config.memory.pq.lanes ∧
          after.memory.pq.size = config.memory.pq.size) ∧
      (∀ later, 0 < config.memory.pq.maxTasks → config.memory.pq.size = 0 →
        Reaches pool KeepsCap config later → later.memory.pq.size ≤ config.memory.pq.maxTasks) ∧
      ∀ i input maxTasks after later, 0 < maxTasks → config.point i = .setMaxTasks maxTasks →
        pool.step config (.run i input) = some after → Reaches pool KeepsCap after later →
        later.memory.pq.size ≤ max maxTasks (config.memory.pq.size + 1) ∧
          (max maxTasks config.memory.pq.size < later.memory.pq.size →
            ∃ j ticket old, after.point j = .submit (.insert ticket old) ∧
              after.memory.pq.atCapacity old = false) := by
  refine ⟨?_, ?_, ?_⟩
  · intro i input maxTasks after here stepped
    rw [setMaxTasks_step here stepped]
    exact ⟨rfl, rfl⟩
  · intro later positive empty goes
    have bound := (capped_run positive reaches rfl goes).bound
    omega
  · intro i input maxTasks after later positive here stepped goes
    have stored := setMaxTasks_step here stepped
    have same : after.memory.pq.size = config.memory.pq.size := by rw [stored]; rfl
    have capped := capped_run positive (.step reaches trivial stepped) (by rw [stored]; rfl) goes
    rw [same] at capped
    rcases capped.bound with low | ⟨low, stale⟩
    · exact ⟨by omega, fun high => absurd low (by omega)⟩
    · exact ⟨by omega, fun _ => stale⟩

end Runs

/-- Thread 1 has pushed a task and has loaded the cap 0 for a second one when thread 2
stores the cap 1. -/
theorem size_bounded_by_cap_stalePush : ∃ config after later : PoolConfig (Fin 3),
    Reaches pool (fun _ _ => True) (threadPoolInit oneWorker 0) config ∧
      config.point 2 = .setMaxTasks 1 ∧ config.memory.pq.size = 1 ∧
      pool.step config (go 2) = some after ∧ Reaches pool KeepsCap after later ∧
      later.memory.pq.size = 2 ∧ later.memory.pq.size ≤ max 1 (config.memory.pq.size + 1) := by
  obtain ⟨config, reaches, here, size, steps⟩ := Reaches.of_schedule pool (fun _ _ => True)
    (threadPoolInit oneWorker 0)
    (submitSteps 1 ⟨1, 0, .low⟩ ++ (submitSteps 1 ⟨1, 0, .low⟩).take 8 ++
      [.run 2 (.call (.setMaxTasks 1))])
    (fun config => config.point 2 = .setMaxTasks 1 ∧ config.memory.pq.size = 1 ∧
      (pool.step config (go 2)).any (fun after => (pool.run KeepsCap after [go 1]).any
        fun later => decide (later.memory.pq.size = 2)) = true)
    (by decide)
  obtain ⟨after, stepped, runs⟩ := (Option.any_eq_true ..).mp steps
  obtain ⟨later, ran, larger⟩ := (Option.any_eq_true ..).mp runs
  have goes : Reaches pool KeepsCap after later := .of_run .refl ran
  exact ⟨config, after, later, reaches, here, size, stepped, goes, of_decide_eq_true larger,
    ((size_bounded_by_cap reaches).2.2 2 _ 1 after later (by decide) here stepped goes).1⟩

end ThreadPool.Pool
