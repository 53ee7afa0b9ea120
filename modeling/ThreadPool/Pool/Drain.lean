import ThreadPool.Pool.NotEmpty

namespace ThreadPool.Pool

open Foundation

/-! # Wake-ups of `drain_cond`

The drain loop sleeps until `total_task_in_system` is zero. The worker that brings the
counter to zero signals once; a submit call that does so on its way back from a refused
push does not signal, and one signal wakes one sleeper only.
-/

/-- A thread that sleeps in the drain loop, or is about to. -/
def drainWaits : Status Mutex Cond Pc → Bool
  | .asleep .drainCond _ _ => true
  | .ready (.drain _ .wait) => true
  | _ => false

/-- A worker between the decrement to zero and its signal. -/
def Pc.signalsDrain : Pc → Bool
  | .worker .drainLock => true
  | .worker .drainSignal => true
  | _ => false

def Pc.inDrainLoop : Pc → Bool
  | .drain .. => true
  | _ => false

/-- What a submit call is about to add to `total_task_in_system`. -/
def Pc.submitDelta : Pc → Int
  | .submit (.count _) => 1
  | .submit (.uncount _) => -1
  | _ => 0

section Transitions

variable {ι : Type} [DecidableEq ι] {me : ι} {memory after : Memory ι} {pc access next : Pc}
  {cond : Cond} {mutex : Mutex}

omit [DecidableEq ι] in
theorem reads_drain (reads : Reads memory pc next) :
    next.signalsDrain = false ∧
      (drainWaits (.ready next) = true → memory.totalTaskInSystem > 0) := by
  cases reads with
  | call _ _ entry => cases entry <;> exact ⟨rfl, nofun⟩
  | undrained caller more => exact ⟨rfl, fun _ => more⟩
  | _ => exact ⟨rfl, nofun⟩

theorem writes_drain (writes : Writes me memory pc after next) :
    drainWaits (.ready next) = false ∧
      (after.totalTaskInSystem = memory.totalTaskInSystem ∨ after.totalTaskInSystem ≠ 0 ∨
        next.signalsDrain = true ∨
        (pc.submitDelta ≠ 0 ∧ (memory.addTotal pc.submitDelta).totalTaskInSystem = 0)) := by
  cases writes with
  | count | uncount =>
      refine ⟨rfl, .inr ?_⟩
      rw [← imp_iff_not_or]
      exact fun zero => .inr ⟨nofun, zero⟩
  | decrement more => exact ⟨rfl, .inr (.inl more)⟩
  | decrementLast => exact ⟨rfl, .inr (.inr (.inl rfl))⟩
  | _ => exact ⟨rfl, .inl rfl⟩

/-- The instructions of a signaller are of these kinds. -/
def endsDrain : PoolInstr ι → Bool
  | .lock .. => true
  | .signal cond _ => decide (cond = .drainCond)
  | _ => false

theorem signals_code {instr : PoolInstr ι} (here : code me pc = instr) (other : endsDrain instr = false) :
    pc.signalsDrain = false := by
  subst here
  cases pc with
  | worker pc => cases pc <;> first | rfl | cases other
  | _ => rfl

theorem lock_signals (lock : code me pc = .lock mutex next) :
    pc.signalsDrain = false ∨ next.signalsDrain = true := by
  cases pc with
  | worker pc =>
      cases pc <;> cases lock
      exact .inr rfl
  | _ => exact .inl rfl

omit [DecidableEq ι] in
theorem reads_signals (behind : Behind pc access) (reads : Reads memory access next) :
    pc.signalsDrain = false := by
  rcases behind with rfl | syncs
  · cases reads <;> rfl
  · cases syncs <;> first | rfl | cases reads

theorem writes_signals (behind : Behind pc access) (writes : Writes me memory access after next) :
    pc.signalsDrain = false := by
  rcases behind with rfl | syncs
  · cases writes <;> rfl
  · cases syncs <;> first | rfl | cases writes

theorem syncs_drain (syncs : Syncs pc next) : drainWaits (.ready next) = false := by
  cases syncs <;> rfl

theorem enter_delta (enter : code me pc = .enter mutex next) : next.submitDelta = 0 := by
  cases pc <;> (try (rename_i pc; cases pc)) <;> cases enter <;> rfl

theorem code_signal_drain (signal : code me pc = .signal .drainCond next) :
    pc = .worker .drainSignal ∧ next = .worker .drainUnlock := by
  cases pc <;> (try (rename_i pc; cases pc)) <;> cases signal
  exact ⟨rfl, rfl⟩

theorem drainWaits_cases {status : Status Mutex Cond Pc} (waits : drainWaits status = true) :
    status.sleepsOn Cond.drainCond = true ∨ ∃ caller, status = .ready (.drain caller .wait) := by
  cases status with
  | ready pc =>
      cases pc with
      | drain caller pc =>
          cases pc with
          | wait => exact .inr ⟨caller, rfl⟩
          | _ => cases waits
      | _ => cases waits
  | asleep cond mutex point =>
      cases cond with
      | drainCond => exact .inl rfl
      | _ => cases waits
  | woken => cases waits

theorem code_wait_drain (wait : code me pc = .wait cond mutex next) :
    (∃ caller, pc = .drain caller .wait ∧ next = .drain caller .test) ∨ cond ≠ .drainCond := by
  cases pc with
  | drain caller pc =>
      cases pc <;> cases wait
      exact .inl ⟨caller, rfl, rfl⟩
  | worker pc | aging pc => cases pc <;> cases wait <;> exact .inr nofun
  | submit pc | enable pc | destroy pc | wakeAll _ pc | wakePause _ pc | disable _ pc =>
      cases pc <;> cases wait
  | _ => cases wait

theorem wait_drain (wait : code me pc = .wait cond mutex next) :
    drainWaits (.asleep cond mutex next) = false ∨ drainWaits (.ready pc) = true := by
  rcases code_wait_drain wait with ⟨caller, rfl, _⟩ | other
  · exact .inr rfl
  · cases cond with
    | drainCond => exact absurd rfl other
    | _ => exact .inl rfl

end Transitions

/-- A submit call that is, or will be, refused for capacity. -/
def Pc.rejecting : Pc → Bool
  | .submit (.insert _ max) => decide (max ≠ 0)
  | .submit (.unlockFull _) => true
  | .submit (.uncount _) => true
  | _ => false

section Capacity

variable {ι : Type} [DecidableEq ι] {me : ι} {memory after : Memory ι} {pc access next : Pc}

theorem syncs_rejecting (syncs : Syncs pc next) (calm : pc.rejecting = false) :
    next.rejecting = false := by
  cases syncs <;> first | rfl | cases calm

/-- An unbounded pool refuses no task. -/
theorem goes_rejecting (goes : Goes me memory pc after next) (unbounded : memory.pq.maxTasks = 0)
    (calm : pc.rejecting = false) : next.rejecting = false := by
  cases goes with
  | sync syncs => exact syncs_rejecting syncs calm
  | read behind reads =>
      cases reads with
      | call _ _ entry => cases entry <;> rfl
      | loadCap ticket => simp [Pc.rejecting, unbounded]
      | _ => rfl
  | write behind writes =>
      have before := behind.keeps syncs_rejecting calm
      cases writes with
      | full ticket max room =>
          have zero : max = 0 := by simpa [Pc.rejecting] using before
          simp [PriorityQueue.atCapacity, zero] at room
      | _ => rfl
  | create | createFails | created => rfl

end Capacity

section Steps

variable {ι : Type} [DecidableEq ι] [Fintype ι] {config middle after : PoolConfig ι}
  {label : Label ι Input} {i : ι} {pc : Pc}

/-- Whoever waits in the drain loop is waiting for tasks or for a signal to come. -/
def Attended (config : PoolConfig ι) : Prop :=
  (∃ i, drainWaits (config.threads i) = true) →
    config.memory.totalTaskInSystem ≠ 0 ∨ ∃ j, (config.point j).signalsDrain = true

/-- A submit call brings the counter to zero only if nobody waits or a signal is to come. -/
def RollbackAttended (config : PoolConfig ι) : Label ι Input → Prop
  | .run i _ => (config.point i).submitDelta ≠ 0 →
      (config.memory.addTotal (config.point i).submitDelta).totalTaskInSystem = 0 →
      (∀ j, drainWaits (config.threads j) = false) ∨ ∃ j, (config.point j).signalsDrain = true
  | _ => True

/-- The last signal at counter zero finds at most one sleeper. -/
def SignalReachesAll (config : PoolConfig ι) : Label ι Input → Prop
  | .pick i _ => config.point i = .worker .drainSignal → config.memory.totalTaskInSystem = 0 →
      (∀ j, j ≠ i → (config.point j).signalsDrain = false) →
      ∀ j k, (config.threads j).sleepsOn Cond.drainCond = true →
        (config.threads k).sleepsOn Cond.drainCond = true → j = k
  | _ => True

omit [Fintype ι] in
/-- One thread changes its status and starts neither to wait nor gives up a signal. -/
theorem attended_set {status : Status Mutex Cond Pc} {memory : Memory ι} {owner : Mutex → Option ι}
    (attended : Attended config)
    (waiter : drainWaits status = false ∨ drainWaits (config.threads i) = true)
    (signaller : (config.point i).signalsDrain = false ∨ status.point.signalsDrain = true)
    (total : memory.totalTaskInSystem = config.memory.totalTaskInSystem) :
    Attended ⟨memory, owner, Function.update config.threads i status⟩ := by
  intro ⟨j, waits⟩
  have before : ∃ j, drainWaits (config.threads j) = true := by
    refine ⟨j, ?_⟩
    by_cases here : j = i
    · subst here
      have starts : drainWaits status = true := by simpa using waits
      exact waiter.resolve_left (by simp [starts])
    · simpa [here] using waits
  rcases attended before with nonzero | ⟨k, signals⟩
  · exact .inl (by rwa [total])
  · refine .inr ⟨k, ?_⟩
    by_cases here : k = i
    · subst here
      simpa [Config.point] using signaller.resolve_left (by simp [signals])
    · simpa [Config.point, here] using signals

omit [Fintype ι] in
theorem attended_goto {owner : Mutex → Option ι} {next : Pc} (attended : Attended config)
    (ready : config.threads i = .ready pc) (waiter : drainWaits (.ready next) = false)
    (signaller : pc.signalsDrain = false ∨ next.signalsDrain = true) :
    Attended ⟨config.memory, owner, Function.update config.threads i (.ready next)⟩ := by
  rw [← point_ready ready] at signaller
  exact attended_set attended (.inl waiter) signaller rfl

omit [Fintype ι] in
theorem attended_wake {cond : Cond} {mutex : Mutex} (attended : Attended config)
    (sleeper : config.threads i = .asleep cond mutex pc) :
    Attended (config.set i (.woken mutex pc)) := by
  apply attended_set attended (.inl rfl)
  · rw [Config.point, sleeper]
    exact (Bool.eq_false_or_eq_true _).symm
  · rfl

omit [DecidableEq ι] [Fintype ι] in
theorem attended_rouseAll (attended : Attended config) (cond : Cond) :
    Attended (config.rouseAll cond) := by
  intro ⟨j, waiting⟩
  rw [point_rouseAll]
  apply attended
  change drainWaits ((config.threads j).rouse cond) = true at waiting
  rcases (config.threads j).rouse_cases cond with same | ⟨mutex, point, _, woken⟩
  · rw [same] at waiting
    exact ⟨j, waiting⟩
  · rw [woken] at waiting
    cases waiting

omit [Fintype ι] in
theorem arrives_delta (arrives : Arrives pool config i pc middle) (delta : pc.submitDelta ≠ 0) :
    config.point i = pc := by
  cases arrives with
  | here ready => exact point_ready ready
  | entering ready enter => exact absurd (enter_delta enter) delta
  | resuming woken =>
      rw [Config.point, woken]
      rfl

omit [DecidableEq ι] [Fintype ι] in
/-- While a worker signals, everybody who waits is asleep: it holds `drain_mutex`. -/
theorem asleep_of_signal {k : ι} (owned : Owned Pc.holds config)
    (ready : config.threads i = .ready (.worker .drainSignal))
    (waiting : drainWaits (config.threads k) = true) :
    (config.threads k).sleepsOn Cond.drainCond = true := by
  rcases drainWaits_cases waiting with asleep | ⟨caller, there⟩
  · exact asleep
  · have mine : (config.threads i).holds Pc.holds .drainMutex = true := by rw [ready]; rfl
    have yours : (config.threads k).holds Pc.holds .drainMutex = true := by rw [there]; rfl
    have same := owned.exclusive mine yours
    rw [same, there] at ready
    cases ready

/-- The signal of the last signaller leaves nobody waiting. -/
theorem attended_signal {j : ι} {mutex : Mutex} {resume : Pc} (owned : Owned Pc.holds config)
    (reachesAll : SignalReachesAll config (.pick i (some j)))
    (ready : config.threads i = .ready (.worker .drainSignal))
    (sleeper : config.threads j = .asleep .drainCond mutex resume) :
    Attended ((config.set j (.woken mutex resume)).set i (.ready (.worker .drainUnlock))) := by
  intro ⟨k, waiting⟩
  have notMe : k ≠ i := by
    intro same
    rw [same, Config.set_threads_self] at waiting
    cases waiting
  have notWoken : k ≠ j := by
    intro same
    rw [Config.set_threads_of_ne _ _ notMe, same, Config.set_threads_self] at waiting
    cases waiting
  rw [Config.set_threads_of_ne _ _ notMe, Config.set_threads_of_ne _ _ notWoken] at waiting
  by_cases zero : config.memory.totalTaskInSystem = 0
  · by_cases others : ∃ l, l ≠ i ∧ (config.point l).signalsDrain = true
    · obtain ⟨l, different, signals⟩ := others
      refine .inr ⟨l, ?_⟩
      rwa [point_set, Function.update_of_ne different, point_wake sleeper]
    · have last : ∀ l, l ≠ i → (config.point l).signalsDrain = false := by
        intro l different
        exact Bool.eq_false_of_not_eq_true fun signals => others ⟨l, different, signals⟩
      have asleep := asleep_of_signal owned ready waiting
      have same := reachesAll (point_ready ready) zero last j k (by rw [sleeper]; rfl) asleep
      exact absurd same.symm notWoken
  · exact .inl zero

omit [DecidableEq ι] [Fintype ι] in
/-- A signal finds no sleeper only if nobody waits. -/
theorem attended_signalNone (owned : Owned Pc.holds config)
    (ready : config.threads i = .ready (.worker .drainSignal))
    (nobody : ∀ k, (config.threads k).sleepsOn Cond.drainCond = false) (k : ι) :
    drainWaits (config.threads k) = false := by
  refine Bool.eq_false_of_not_eq_true fun waiting => ?_
  have asleep := asleep_of_signal owned ready waiting
  rw [nobody k] at asleep
  cases asleep

omit [Fintype ι] in
/-- A write to the counter: it stays, is not zero, is followed by a signal, or comes from
a submit call that meets the condition. -/
theorem attended_write {memory : Memory ι} {owner : Mutex → Option ι} {access next : Pc}
    (attended : Attended config) (behind : Behind (config.point i) access)
    (writes : Writes i config.memory access memory next)
    (rollback : access.submitDelta ≠ 0 →
      (config.memory.addTotal access.submitDelta).totalTaskInSystem = 0 →
      (∀ j, drainWaits (config.threads j) = false) ∨ ∃ j, (config.point j).signalsDrain = true) :
    Attended ⟨memory, owner, Function.update config.threads i (.ready next)⟩ := by
  have silent := writes_signals behind writes
  obtain ⟨notWaiting, same | nonzero | signals | ⟨delta, zero⟩⟩ := writes_drain writes
  · exact attended_set attended (.inl notWaiting) (.inl silent) same
  · exact fun _ => .inl nonzero
  · exact fun _ => .inr ⟨i, by simpa [Config.point, Status.point] using signals⟩
  · rcases rollback delta zero with none | ⟨j, signals⟩
    · rintro ⟨j, waiting⟩
      by_cases mine : j = i
      · subst mine
        simp [notWaiting] at waiting
      · simp [mine, none j] at waiting
    · have other : j ≠ i := by
        intro same
        rw [same, silent] at signals
        cases signals
      exact fun _ => .inr ⟨j, by simpa [Config.point, other] using signals⟩

theorem attended_step (moves : Moves pool config label after) (owned : Owned Pc.holds config)
    (rollback : RollbackAttended config label)
    (reachesAll : SignalReachesAll config label) (attended : Attended config) : Attended after := by
  -- No synchronisation leads to the wait of the drain loop.
  have hop : ∀ {i : ι} {point next : Pc} {instr}, pool.code i point = instr →
      instr.sync = some next → drainWaits (.ready next) = false := by
    intro i point next instr here sync
    subst here
    exact syncs_drain (code_syncs sync)
  cases moves with
  | @read i point middle input choose next arrives code result =>
      have behind := arrives_behind arrives
      have reads := code_reads code result
      rw [arrives.set_eq]
      cases waits : drainWaits (.ready next) with
      | true =>
          have more := (reads_drain reads).2 waits
          exact fun _ => .inl (by simp only; omega)
      | false => exact attended_set attended (.inl waits) (.inl (reads_signals behind reads)) rfl
  | @act i point middle input run memory next arrives code result =>
      have behind := arrives_behind arrives
      rw [arrives.write_eq]
      apply attended_write attended behind (code_writes code result)
      intro delta
      have here := arrives_delta arrives delta
      rw [← here] at delta ⊢
      exact rollback delta
  | lock ready code => exact attended_goto attended ready (hop code rfl) (lock_signals code)
  | unlock ready code | join ready code =>
      exact attended_goto attended ready (hop code rfl) (.inl (signals_code code rfl))
  | @wait i point input cond mutex next ready code =>
      apply attended_set attended
      · rw [ready]
        exact wait_drain code
      · rw [point_ready ready]
        exact .inl (signals_code code rfl)
      · rfl
  | @broadcast i point input cond next ready code =>
      exact attended_goto (attended_rouseAll attended cond) (Config.rouseAll_ready ready cond)
        (hop code rfl) (.inl (signals_code code rfl))
  | @signal i point cond next j mutex resume ready code sleeper =>
      by_cases same : cond = .drainCond
      · subst same
        obtain ⟨rfl, rfl⟩ := code_signal_drain code
        exact attended_signal owned reachesAll ready sleeper
      · exact attended_goto (attended_wake attended sleeper) (Config.wake_ready ready sleeper)
          (hop code rfl) (.inl (signals_code code (decide_eq_false same)))
  | @signalNone i point cond next ready code nobody =>
      by_cases same : cond = .drainCond
      · subst same
        obtain ⟨rfl, rfl⟩ := code_signal_drain code
        have nobodyWaits := attended_signalNone owned ready nobody
        intro ⟨k, waiting⟩
        by_cases here : k = i
        · subst here
          simp [drainWaits] at waiting
        · rw [Config.set_threads_of_ne _ _ here, nobodyWaits k] at waiting
          cases waiting
      · exact attended_goto attended ready (hop code rfl)
          (.inl (signals_code code (decide_eq_false same)))
  | @create i point start next child idle memory final ready code dormant isDormant different result =>
      obtain ⟨rfl, rfl, ⟨tid, _, rfl, rfl⟩ | ⟨none, _⟩⟩ := fork_result code result
      · have started : Attended (config.set child (.ready (.aging .start))) := by
          cases of_decide_eq_true isDormant
          exact attended_goto attended dormant rfl (.inl rfl)
        apply attended_set started (.inl rfl)
        · rw [point_set, Function.update_of_ne different.symm, point_ready ready]
          exact .inl rfl
        · rfl
      · cases none
  | @createFails i point start next memory final ready code result =>
      obtain ⟨rfl, rfl, ⟨_, none, _⟩ | ⟨_, rfl, rfl⟩⟩ := fork_result code result
      · cases none
      · exact attended_goto attended ready rfl (.inl rfl)
  | spurious sleeper => exact attended_wake attended sleeper

end Steps

section Reachable

variable {ι : Type} [DecidableEq ι] [Fintype ι] {config after : PoolConfig ι} {label : Label ι Input}
  {allowed : PoolConfig ι → Label ι Input → Prop} {roles : ι → Role} {idCount : Nat}

theorem reachable_attended (reaches : Reaches pool allowed (threadPoolInit roles idCount) config)
    (kept : ∀ {config label}, Reaches pool allowed (threadPoolInit roles idCount) config →
      allowed config label → RollbackAttended config label ∧ SignalReachesAll config label) :
    Attended config := by
  apply reaches.invariant Attended
  · intro ⟨i, waiting⟩
    change drainWaits (.ready (roles i).start) = true at waiting
    cases role : roles i <;> rw [role] at waiting <;> cases waiting
  · intro config label after reached attended permitted moves
    obtain ⟨rollback, reachesAll⟩ := kept reached permitted
    exact attended_step moves (reachable_owned reached) rollback reachesAll attended

/-- A thread sleeps on `drain_cond` although the counter is zero and no signal is to come. -/
def LostDrainWakeup (config : PoolConfig ι) : Prop :=
  (∃ i, (config.threads i).sleepsOn Cond.drainCond = true) ∧ config.memory.totalTaskInSystem = 0 ∧
    ∀ j, (config.point j).signalsDrain = false

instance : Decidable (LostDrainWakeup config) :=
  inferInstanceAs (Decidable ((∃ i, (config.threads i).sleepsOn Cond.drainCond = true) ∧
    config.memory.totalTaskInSystem = 0 ∧ ∀ j, (config.point j).signalsDrain = false))

/-- At most one thread is in a drain loop. -/
def OneWaiter (config : PoolConfig ι) : Prop :=
  ∀ i j, (config.point i).inDrainLoop = true → (config.point j).inDrainLoop = true → i = j

instance : Decidable (OneWaiter config) :=
  inferInstanceAs (Decidable (∀ i j, (config.point i).inDrainLoop = true →
    (config.point j).inDrainLoop = true → i = j))

instance : ∀ label, Decidable (RollbackAttended config label)
  | .run i _ => inferInstanceAs (Decidable ((config.point i).submitDelta ≠ 0 →
      (config.memory.addTotal (config.point i).submitDelta).totalTaskInSystem = 0 →
      (∀ j, drainWaits (config.threads j) = false) ∨ ∃ j, (config.point j).signalsDrain = true))
  | .pick .. => inferInstanceAs (Decidable True)
  | .wake _ => inferInstanceAs (Decidable True)

instance : ∀ label, Decidable (SignalReachesAll config label)
  | .run .. => inferInstanceAs (Decidable True)
  | .pick i _ => inferInstanceAs (Decidable (config.point i = .worker .drainSignal →
      config.memory.totalTaskInSystem = 0 →
      (∀ j, j ≠ i → (config.point j).signalsDrain = false) →
      ∀ j k, (config.threads j).sleepsOn Cond.drainCond = true →
        (config.threads k).sleepsOn Cond.drainCond = true → j = k))
  | .wake _ => inferInstanceAs (Decidable True)

omit [DecidableEq ι] [Fintype ι] in
theorem not_lost (attended : Attended config) : ¬ LostDrainWakeup config := by
  intro ⟨⟨i, asleep⟩, zero, silent⟩
  have waiting : drainWaits (config.threads i) = true := by
    cases status : config.threads i with
    | asleep cond mutex point =>
        rw [status] at asleep
        cases cond <;> first | rfl | cases asleep
    | ready | woken =>
        rw [status] at asleep
        cases asleep
  rcases attended ⟨i, waiting⟩ with nonzero | ⟨j, signals⟩
  · exact nonzero zero
  · rw [silent j] at signals
    cases signals

omit [Fintype ι] in
/-- A sleeper on `drain_cond` is inside a drain loop. -/
theorem sleeper_inDrainLoop {i : ι} (waits : (config.threads i).Waits pool i)
    (asleep : (config.threads i).sleepsOn Cond.drainCond = true) :
    (config.point i).inDrainLoop = true := by
  cases status : config.threads i with
  | asleep cond mutex point =>
      rw [status] at waits asleep
      obtain ⟨before, wait⟩ := waits
      rcases code_wait_drain wait with ⟨caller, _, rfl⟩ | other
      · rw [Config.point, status]
        rfl
      · exact absurd (of_decide_eq_true asleep) other
  | ready | woken =>
      rw [status] at asleep
      cases asleep

omit [Fintype ι] in
theorem oneWaiter_reachesAll (waits : ∀ i, (config.threads i).Waits pool i)
    (one : OneWaiter config) (label : Label ι Input) : SignalReachesAll config label := by
  cases label with
  | pick i target =>
      intro _ _ _ j k first second
      exact one j k (sleeper_inDrainLoop (waits j) first) (sleeper_inDrainLoop (waits k) second)
  | _ => trivial

/-- With one waiter, no wake-up is lost as long as no submit call brings the counter to
zero while the waiter sleeps and no signal is to come. -/
theorem drain_wakeup_kept
    (reaches : Reaches pool (fun config label => OneWaiter config ∧ RollbackAttended config label)
      (threadPoolInit roles idCount) config) : ¬ LostDrainWakeup config := by
  apply not_lost
  apply reachable_attended reaches
  intro config label reached permitted
  exact ⟨permitted.2, oneWaiter_reachesAll (reachable_waits reached) permitted.1 label⟩

/-- No cap, fewer than 2^31 tasks, and every last signal finds at most one sleeper. -/
def UnboundedDrain (config : PoolConfig ι) (label : Label ι Input) : Prop :=
  config.memory.pq.maxTasks = 0 ∧ tasksInSystem config < 2 ^ 31 ∧ SignalReachesAll config label

instance : ∀ label, Decidable (UnboundedDrain config label) := fun label =>
  inferInstanceAs (Decidable (config.memory.pq.maxTasks = 0 ∧ tasksInSystem config < 2 ^ 31 ∧
    SignalReachesAll config label))

theorem reachable_calm (unbounded : ∀ {config label}, allowed config label → config.memory.pq.maxTasks = 0)
    (reaches : Reaches pool allowed (threadPoolInit roles idCount) config) (j : ι) :
    (config.point j).rejecting = false := by
  revert j
  apply reaches.invariant fun config => ∀ j, (config.point j).rejecting = false
  · intro j
    change (roles j).start.rejecting = false
    cases roles j <;> rfl
  · intro config label after _ calm permitted moves j
    rcases moves_goes moves j with same | goes
    · rw [same, calm j]
    · exact goes_rejecting goes (unbounded permitted) (calm j)

/-- Below 2^31 tasks the increment of a submit call does not reach zero. -/
theorem increment_ne_zero (reaches : Reaches pool allowed (threadPoolInit roles idCount) config)
    (few : tasksInSystem config < 2 ^ 31) : (config.memory.addTotal 1).totalTaskInSystem ≠ 0 := by
  simp only [Memory.addTotal, reachable_total_eq reaches few, wrap, Int.bmod, Nat.reducePow]
  omega

/-- In an unbounded pool no waiter misses its wake-up as long as every last signal finds at
most one sleeper. -/
theorem drain_wakeup_reaches_all
    (reaches : Reaches pool UnboundedDrain (threadPoolInit roles idCount) config) :
    ¬ LostDrainWakeup config := by
  apply not_lost
  apply reachable_attended reaches
  intro config label reached permitted
  refine ⟨?_, permitted.2.2⟩
  cases label with
  | run i input =>
      intro delta zero
      have calm := reachable_calm (fun permitted => permitted.1) reached i
      have increment := increment_ne_zero reached permitted.2.1
      generalize config.point i = pc at *
      cases pc with
      | submit pc =>
          cases pc with
          | count ticket => exact absurd zero increment
          | uncount ticket => cases calm
          | _ => exact absurd rfl delta
      | _ => exact absurd rfl delta
  | _ => trivial

end Reachable

/-- Thread 0 is a worker and the others are application threads. -/
def fourThreads (i : Fin 4) : Role := if i.val = 0 then .worker else .client

/-- The call of `thread_pool_wait` by thread `i` up to its sleep. -/
def waitSteps (i : ι) : List (Label ι Input) := [.run i (.call .wait), go i, go i, go i]

/-- Threads `i` and `j` submit to a queue of capacity one, and the task of `j` is refused while
`waiter` waits. -/
def refusedSubmit (i j waiter : ι) : List (Label ι Input) :=
  [.run i (.call (.setMaxTasks 1)), go i] ++
  [.run j (.call (.submit ⟨1, 0, .low⟩)), go j, go j, go j, go j, .run j (.alloc true)] ++
  [.run i (.call (.submit ⟨1, 0, .low⟩)), go i, go i, go i, go i, .run i (.alloc true)] ++
  List.replicate 5 (go i) ++ [.pick i none, go i] ++ List.replicate 5 (go j) ++ waitSteps waiter

theorem drain_wakeup_kept_refused : ∃ config : PoolConfig (Fin 4),
    Reaches pool (fun config label => OneWaiter config ∧ RollbackAttended config label)
      (threadPoolInit fourThreads 0) config ∧
      (config.threads 3).sleepsOn Cond.drainCond = true ∧ ¬ LostDrainWakeup config := by
  obtain ⟨config, reaches, asleep⟩ := Reaches.of_schedule pool
    (fun config label => OneWaiter config ∧ RollbackAttended config label)
    (threadPoolInit fourThreads 0) (refusedSubmit 1 2 3 ++ [go 2] ++ List.replicate 9 (go 0))
    (fun config => (config.threads 3).sleepsOn Cond.drainCond = true) (by decide)
  exact ⟨config, reaches, asleep, drain_wakeup_kept reaches⟩

/-- The worker finishes first and does not signal, then the refused call rolls back. -/
theorem rollback_loses_wakeup : ∃ config : PoolConfig (Fin 4),
    Reaches pool (fun config _ => OneWaiter config) (threadPoolInit fourThreads 0) config ∧
      LostDrainWakeup config :=
  Reaches.of_schedule pool (fun config _ => OneWaiter config) (threadPoolInit fourThreads 0)
    (refusedSubmit 1 2 3 ++ List.replicate 9 (go 0) ++ [go 2]) LostDrainWakeup (by decide)

theorem drain_wakeup_reaches_all_oneSleeper : ∃ config : PoolConfig (Fin 4),
    Reaches pool UnboundedDrain (threadPoolInit fourThreads 0) config ∧
      (config.threads 2).sleepsOn Cond.drainCond = true ∧ ¬ LostDrainWakeup config := by
  obtain ⟨config, reaches, asleep⟩ := Reaches.of_schedule pool UnboundedDrain
    (threadPoolInit fourThreads 0)
    (submitSteps 1 ⟨1, 0, .low⟩ ++ waitSteps 2 ++ List.replicate 10 (go 0))
    (fun config => (config.threads 2).sleepsOn Cond.drainCond = true) (by decide)
  exact ⟨config, reaches, asleep, drain_wakeup_reaches_all reaches⟩

/-- Two threads wait for one task; the only signal wakes the first of them. -/
theorem second_waiter_sleeps_on : ∃ config : PoolConfig (Fin 4),
    Reaches pool (fun config _ => config.memory.pq.maxTasks = 0) (threadPoolInit fourThreads 0) config ∧
      LostDrainWakeup config ∧ tasksInSystem config = 0 :=
  Reaches.of_schedule pool (fun config _ => config.memory.pq.maxTasks = 0)
    (threadPoolInit fourThreads 0)
    (submitSteps 1 ⟨1, 0, .low⟩ ++ waitSteps 2 ++ waitSteps 3 ++ List.replicate 10 (go 0) ++
      [.pick 0 (some 2), go 0])
    (fun config => LostDrainWakeup config ∧ tasksInSystem config = 0) (by decide)

end ThreadPool.Pool
