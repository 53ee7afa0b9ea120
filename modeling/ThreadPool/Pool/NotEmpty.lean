import ThreadPool.Pool.PopSection
import ThreadPool.Pool.Execution

namespace ThreadPool.Pool

open Foundation

/-! # Wake-ups of `not_empty`

A pusher signals behind its critical section, so its wake-up can go to a worker whose
task has been taken in between. No task is forgotten all the same: while a worker
sleeps, every queued task is matched by a signal to come or by a worker on its way to
the lock.
-/

/-- A pusher between its insertion and its signal. -/
def signalling : Status Mutex Cond Pc → Nat
  | .ready (.submit (.unlockInserted _)) => 1
  | .ready (.submit (.signal _)) => 1
  | _ => 0

/-- A worker that was woken and does not hold the lock yet. -/
def waking : Status Mutex Cond Pc → Nat
  | .woken .pqMutex _ => 1
  | _ => 0

/-- The wake-ups in progress that a thread accounts for. -/
def wakes (status : Status Mutex Cond Pc) : Nat := signalling status + waking status

section Transitions

variable {ι : Type} [DecidableEq ι] {me : ι} {memory : Memory ι} {pc next : Pc} {cond : Cond}
  {mutex : Mutex} {status : Status Mutex Cond Pc}

theorem code_wait (wait : code me pc = .wait cond mutex next) :
    (cond = .notEmpty ∧ mutex = .pqMutex ∧ pc = .worker .popWait ∧ next = .worker .popTest) ∨
      (cond ≠ .notEmpty ∧ mutex ≠ .pqMutex) := by
  cases pc with
  | worker pc =>
      cases pc with
      | popWait =>
          cases wait
          exact .inl ⟨rfl, rfl, rfl, rfl⟩
      | pauseWait =>
          cases wait
          exact .inr ⟨nofun, nofun⟩
      | _ => cases wait
  | drain caller pc =>
      cases pc <;> cases wait
      exact .inr ⟨nofun, nofun⟩
  | submit pc | enable pc | destroy pc | wakeAll _ pc | wakePause _ pc | disable _ pc =>
      cases pc <;> cases wait
  | aging pc => cases pc <;> cases wait <;> exact .inr ⟨nofun, nofun⟩
  | _ => cases wait

theorem wakes_rouse (status : Status Mutex Cond Pc) (cond : Cond) :
    wakes status ≤ wakes (status.rouse cond) := by
  rcases status.rouse_cases cond with same | ⟨mutex, point, rfl, woken⟩
  · rw [same]
  · exact Nat.zero_le _

/-- The instructions between an insertion and its signal are of these kinds. -/
def endsPush : PoolInstr ι → Bool
  | .unlock .. => true
  | .signal cond _ => decide (cond = .notEmpty)
  | _ => false

theorem wakes_ready {instr : PoolInstr ι} (here : code me pc = instr) (other : endsPush instr = false) :
    wakes (.ready pc) = 0 := by
  subst here
  cases pc with
  | submit pc => cases pc <;> first | rfl | cases other
  | _ => rfl

theorem wakes_le_one (pc : Pc) : wakes (.ready pc) ≤ 1 := by
  cases pc with
  | submit pc => cases pc <;> first | exact le_rfl | exact Nat.zero_le _
  | _ => exact Nat.zero_le _

theorem unlock_wakes (unlock : code me pc = .unlock mutex next) :
    wakes (.ready pc) ≤ wakes (.ready next) := by
  cases pc with
  | submit pc => cases pc <;> cases unlock <;> exact le_rfl
  | _ => exact Nat.zero_le _

/-- The change of the queue by a write, against the wake-ups of its thread. -/
theorem writes_wakes {lanes : Lanes Priority Addr} {after : Memory ι} {weight : Nat}
    (writes : Writes me memory pc after next) (represents : memory.pq.Represents lanes)
    (before : weight = 0 ∨ (weight = 1 ∧ pc = .worker .popTest)) :
    after.pq.size + weight ≤ memory.pq.size + wakes (.ready next) ∨ after.pq.size = 0 := by
  cases writes with
  | popEmpty empty =>
      right
      rw [represents.size, represents.mask_eq_zero.mp empty, Multiset.card_zero]
  | pop task pq ready popped =>
      left
      have size := (pop_counts represents ready popped).1
      have bound : weight ≤ 1 := by omega
      simp only [size]
      omega
  | insert ticket max pq room inserted =>
      left
      have none : weight = 0 := by simpa using before
      simp [none, (insert_counts inserted).1, wakes, signalling]
  | promote scan promoteMs now promoted pq result =>
      left
      have none : weight = 0 := by simpa using before
      simp [none, (promote_counts represents (by cases scan <;> decide) result).1]
  | destroyQueue tasks pq result => exact .inr (destroy_size represents result).1
  | _ =>
      left
      have none : weight = 0 := by simpa using before
      rw [none]
      exact Nat.le_add_right _ _

end Transitions

section Steps

variable {ι : Type} [DecidableEq ι] [Fintype ι] {config middle after : PoolConfig ι}
  {label : Label ι Input} {i : ι} {pc : Pc}

/-- Some thread sleeps on `not_empty`. -/
def Asleep (config : PoolConfig ι) : Prop :=
  ∃ i, (config.threads i).sleepsOn Cond.notEmpty = true

omit [Fintype ι] in
theorem asleep_of_set {status : Status Mutex Cond Pc} (asleep : Asleep (config.set i status))
    (awake : status.sleepsOn Cond.notEmpty = false) : Asleep config := by
  obtain ⟨j, sleeps⟩ := asleep
  by_cases here : j = i
  · subst here
    rw [Config.set_threads_self, awake] at sleeps
    cases sleeps
  · rw [Config.set_threads_of_ne _ _ here] at sleeps
    exact ⟨j, sleeps⟩

omit [Fintype ι] in
/-- The thread of an access accounts for no wake-up, unless it is a woken worker. -/
theorem arrives_wakes (arrives : Arrives pool config i pc middle)
    (waits : (config.threads i).Waits pool i) (access : (pool.code i pc).sync = none) :
    wakes (config.threads i) = 0 ∨ (wakes (config.threads i) = 1 ∧ pc = .worker .popTest) := by
  cases arrives with
  | here ready =>
      rw [ready]
      have other : endsPush (pool.code i pc) = false := by
        cases instr : pool.code i pc with
        | unlock | signal => simp [instr, Instr.sync] at access
        | _ => rfl
      exact .inl (wakes_ready rfl other)
  | entering ready enter =>
      rw [ready]
      exact .inl (wakes_ready enter rfl)
  | @resuming mutex next woken =>
      rw [woken] at waits ⊢
      obtain ⟨cond, before, wait⟩ := waits
      rcases code_wait wait with ⟨_, rfl, _, rfl⟩ | ⟨_, other⟩
      · exact .inr ⟨rfl, rfl⟩
      · cases mutex with
        | pqMutex => exact absurd rfl other
        | _ => exact .inl rfl

/-- While a thread sleeps, the wake-ups in progress cover the queue. -/
def Covered (config : PoolConfig ι) : Prop :=
  Asleep config → config.memory.pq.size ≤ config.census wakes

/-- One thread changes its status, and the memory with it. -/
theorem covered_set {status : Status Mutex Cond Pc} {memory : Memory ι} {owner : Mutex → Option ι}
    (covered : Covered config) (awake : status.sleepsOn Cond.notEmpty = false)
    (enough : memory.pq.size + wakes (config.threads i) ≤ config.memory.pq.size + wakes status) :
    Covered ⟨memory, owner, Function.update config.threads i status⟩ := by
  intro asleep
  have bound := covered (asleep_of_set asleep awake)
  have count := census_set wakes config i status
  change memory.pq.size ≤ (config.set i status).census wakes
  omega

theorem covered_goto {owner : Mutex → Option ι} {next : Pc} (covered : Covered config)
    (ready : config.threads i = .ready pc) (enough : wakes (.ready pc) ≤ wakes (.ready next)) :
    Covered ⟨config.memory, owner, Function.update config.threads i (.ready next)⟩ := by
  apply covered_set covered rfl
  rw [ready]
  omega

theorem covered_wake {cond : Cond} {mutex : Mutex} (covered : Covered config)
    (sleeper : config.threads i = .asleep cond mutex pc) :
    Covered (config.set i (.woken mutex pc)) := by
  apply covered_set covered rfl
  rw [sleeper]
  exact Nat.add_le_add_left (Nat.zero_le _) _

omit [DecidableEq ι] in
theorem covered_rouseAll (covered : Covered config) (cond : Cond) :
    Covered (config.rouseAll cond) := by
  intro asleep
  have before : Asleep config := by
    obtain ⟨j, sleeps⟩ := asleep
    change ((config.threads j).rouse cond).sleepsOn Cond.notEmpty = true at sleeps
    rcases (config.threads j).rouse_cases cond with same | ⟨mutex, point, _, woken⟩
    · rw [same] at sleeps
      exact ⟨j, sleeps⟩
    · rw [woken] at sleeps
      cases sleeps
  exact (covered before).trans (Finset.sum_le_sum fun j _ => wakes_rouse (config.threads j) cond)

/-- The signal of a pusher turns into a worker on its way to the lock. -/
theorem covered_signal {j : ι} {mutex : Mutex} {next resume : Pc} (covered : Covered config)
    (waits : (config.threads j).Waits pool j) (ready : config.threads i = .ready pc)
    (sleeper : config.threads j = .asleep .notEmpty mutex resume) :
    Covered ((config.set j (.woken mutex resume)).set i (.ready next)) := by
  have queueMutex : mutex = .pqMutex := by
    rw [sleeper] at waits
    obtain ⟨before, wait⟩ := waits
    rcases code_wait wait with ⟨_, same, _⟩ | ⟨other, _⟩
    · exact same
    · exact absurd rfl other
  subst queueMutex
  intro _
  have bound := covered ⟨j, by rw [sleeper]; rfl⟩
  have woken := census_set wakes config j (.woken .pqMutex resume)
  have moved := census_set wakes (config.set j (.woken .pqMutex resume)) i (.ready next)
  rw [sleeper] at woken
  rw [Config.wake_ready ready sleeper] at moved
  have one := wakes_le_one pc
  simp only [wakes, signalling, waking] at woken
  simp only [Config.set_memory]
  omega

/-- Wake-ups in progress keep covering the queue. -/
theorem covered_step {lanes : Lanes Priority Addr} (moves : Moves pool config label after)
    (represents : config.memory.pq.Represents lanes)
    (waits : ∀ i, (config.threads i).Waits pool i)
    (seen : ∀ i, (config.point i).seesEmpty = true → config.memory.pq.readyMask = 0)
    (covered : Covered config) : Covered after := by
  -- A point that is neither an unlock nor a signal of `not_empty` accounts for nothing.
  have quiet : ∀ {i : ι} {point instr} (next : Pc), pool.code i point = instr →
      endsPush instr = false → wakes (.ready point) ≤ wakes (.ready next) := by
    intro i point instr next here other
    rw [wakes_ready here other]
    exact Nat.zero_le _
  cases moves with
  | @read i point middle input choose next arrives code result =>
      have none : wakes (config.threads i) = 0 := by
        rcases arrives_wakes arrives (waits i) (by rw [code]; rfl) with none | ⟨_, rfl⟩
        · exact none
        · cases code
      rw [arrives.set_eq]
      apply covered_set covered rfl
      omega
  | @act i point middle input run memory next arrives code result =>
      have before := arrives_wakes arrives (waits i) (by rw [code]; rfl)
      rw [arrives.write_eq]
      rcases writes_wakes (code_writes code result) represents before with enough | empty
      · exact covered_set covered rfl enough
      · intro _
        exact empty.le.trans (Nat.zero_le _)
  | lock ready code =>
      exact covered_goto covered ready (quiet _ code rfl)
  | unlock ready code => exact covered_goto covered ready (unlock_wakes code)
  | @wait i point input cond mutex next ready code =>
      rcases code_wait code with ⟨_, _, rfl, _⟩ | ⟨other, _⟩
      · intro _
        have mask := seen i (by rw [point_ready ready]; rfl)
        have empty : config.memory.pq.size = 0 := by
          rw [represents.size, represents.mask_eq_zero.mp mask, Multiset.card_zero]
        exact empty.le.trans (Nat.zero_le _)
      · apply covered_set covered
        · exact decide_eq_false other
        · rw [ready, wakes_ready code rfl]
          exact Nat.le_add_right _ _
  | @broadcast i point input cond next ready code =>
      exact covered_goto (covered_rouseAll covered cond) (Config.rouseAll_ready ready cond)
        (quiet _ code rfl)
  | join ready code =>
      exact covered_goto covered ready (quiet _ code rfl)
  | @signal i point cond next j mutex resume ready code sleeper =>
      by_cases same : cond = .notEmpty
      · subst same
        exact covered_signal covered (waits j) ready sleeper
      · exact covered_goto (covered_wake covered sleeper) (Config.wake_ready ready sleeper)
          (quiet _ code (decide_eq_false same))
  | @signalNone i point cond next ready code nobody =>
      by_cases same : cond = .notEmpty
      · intro asleep
        obtain ⟨j, sleeps⟩ := asleep_of_set asleep rfl
        rw [← same, nobody j] at sleeps
        cases sleeps
      · exact covered_goto covered ready (quiet _ code (decide_eq_false same))
  | @create i point start next child idle memory final ready code dormant isDormant different result =>
      obtain ⟨rfl, rfl, ⟨tid, _, rfl, rfl⟩ | ⟨none, _⟩⟩ := fork_result code result
      · have started : Covered (config.set child (.ready (.aging .start))) := by
          cases of_decide_eq_true isDormant
          exact covered_goto covered dormant (Nat.zero_le _)
        apply covered_set started rfl
        rw [Config.set_threads_of_ne _ _ different.symm, ready]
        exact le_rfl
      · cases none
  | @createFails i point start next memory final ready code result =>
      obtain ⟨rfl, rfl, ⟨_, none, _⟩ | ⟨_, rfl, rfl⟩⟩ := fork_result code result
      · cases none
      · exact covered_goto covered ready (Nat.zero_le _)
  | spurious sleeper => exact covered_wake covered sleeper

end Steps

section Reachable

variable {ι : Type} [DecidableEq ι] [Fintype ι] {config : PoolConfig ι}
  {allowed : PoolConfig ι → Label ι Input → Prop} {roles : ι → Role} {idCount : Nat}

/-- The signals that pushers behind their insertion are still to issue. -/
def signalsToIssue (config : PoolConfig ι) : Nat := config.census signalling

/-- The workers that were woken and do not hold the lock yet. -/
def workersWaking (config : PoolConfig ι) : Nat := config.census waking

theorem reachable_waits (reaches : Reaches pool allowed (threadPoolInit roles idCount) config) (i : ι) :
    (config.threads i).Waits pool i :=
  reaches.waits (fun _ => trivial) i

theorem reachable_covered (reaches : Reaches pool allowed (threadPoolInit roles idCount) config) :
    Covered config := by
  apply reaches.invariant Covered
  · intro ⟨i, asleep⟩
    cases asleep
  · intro config label after reached covered _ moves
    obtain ⟨lanes, books⟩ := reachable_balanced reached
    exact covered_step moves books.represents (reachable_waits reached)
      (fun i => reachable_seenEmpty reached) covered

/-- While a worker sleeps on `not_empty`, the queue is no longer than the signals to come
and the workers on their way to the lock, so a queued task has a wake-up in progress. -/
theorem wakeup_in_progress (reaches : Reaches pool allowed (threadPoolInit roles idCount) config)
    (asleep : ∃ i, (config.threads i).sleepsOn Cond.notEmpty = true) :
    config.memory.pq.size ≤ signalsToIssue config + workersWaking config ∧
      (config.memory.pq.size ≠ 0 →
        ∃ i, signalling (config.threads i) ≠ 0 ∨ waking (config.threads i) ≠ 0) := by
  have covered := reachable_covered reaches asleep
  have split : config.census wakes = signalsToIssue config + workersWaking config :=
    Finset.sum_add_distrib
  refine ⟨covered.trans split.le, fun filled => ?_⟩
  have busy : config.census wakes ≠ 0 := by omega
  obtain ⟨i, _, here⟩ := Finset.exists_ne_zero_of_sum_ne_zero busy
  refine ⟨i, ?_⟩
  simp only [wakes] at here
  omega

end Reachable

theorem wakeup_in_progress_push : ∃ config : PoolConfig (Fin 3),
    Reaches pool (fun _ _ => True) (threadPoolInit oneWorker 0) config ∧
      (∃ i, (config.threads i).sleepsOn Cond.notEmpty = true) ∧ config.memory.pq.size = 1 ∧
      config.memory.pq.size ≤ signalsToIssue config + workersWaking config := by
  obtain ⟨config, reaches, asleep, size⟩ := Reaches.of_schedule pool (fun _ _ => True)
    (threadPoolInit oneWorker 0) (List.replicate 4 (go 0) ++ (submitSteps 1 ⟨1, 0, .low⟩).take 9)
    (fun config => (∃ i, (config.threads i).sleepsOn Cond.notEmpty = true) ∧ config.memory.pq.size = 1)
    (by decide)
  exact ⟨config, reaches, asleep, size, (wakeup_in_progress reaches asleep).1⟩

end ThreadPool.Pool
