import Mathlib.Order.BooleanAlgebra.Basic
import ThreadPool.Foundation.Progress
import ThreadPool.Pool.Blocks
import ThreadPool.Pool.Freeing
import ThreadPool.Pool.NotEmpty

namespace ThreadPool.Pool

open Foundation

/-! # Accesses and mutexes of the pool

No access of the pool meets a null or a dangling pointer, and `aging_mutex` is acquired
before the other mutexes. So a thread is held up by a mutex only as long as another
thread goes on.
-/

instance : Inhabited Input := ⟨.none⟩

/-- What the environment hands to an access: a call, the answer of `malloc`, the time. -/
def Pc.takes : Pc → Input → Bool
  | .client _, .call _ => true
  | .client _, _ => false
  | .submit (.create _), .alloc _ => true
  | .submit (.create _), _ => false
  | .submit (.stamp _), .clock _ => true
  | .submit (.stamp _), _ => false
  | .aging (.readClock ..), .clock _ => true
  | .aging (.readClock ..), _ => false
  | _, _ => true

section Definedness

variable {ι : Type} [DecidableEq ι] {me : ι} {memory : Memory ι} {lanes : Lanes Priority Addr}
  {blocks : Multiset Addr} {input : Input}

theorem submit_defined {pc : SubmitPc} (tidy : Tidy memory.pq lanes memory.fresh blocks)
    (held : ∀ task ∈ (Pc.submit pc).block, task ∈ blocks)
    (access : (code me (.submit pc)).isAccess = true) (takes : (Pc.submit pc).takes input = true) :
    ((code me (.submit pc)).body memory input).isSome = true := by
  cases pc with
  | create args => cases input with
    | alloc success => cases success <;> rfl
    | _ => cases takes
  | stamp ticket => cases input with
    | clock now =>
        obtain ⟨record, found⟩ := tidy.allocated (held ticket.task (Multiset.mem_singleton_self _))
        simp [code, threadPoolSubmit, Instr.body, Memory.stampTask, found]
    | _ => cases takes
  | insert ticket max =>
      have mine := held ticket.task (Multiset.mem_singleton_self _)
      obtain ⟨record, found⟩ := tidy.allocated mine
      obtain ⟨after, inserted, _⟩ :=
        PriorityQueue.insert_spec tidy.represents found (tidy.not_queued mine)
      simp only [code, threadPoolSubmit, Instr.body, Memory.tryPush]
      split
      case isTrue => rfl
      case isFalse => simp [inserted]
  | lockQueue | unlockFull | unlockInserted | signal => cases access
  | _ => rfl

theorem worker_defined {pc : WorkerPc} (tidy : Tidy memory.pq lanes memory.fresh blocks)
    (held : ∀ task ∈ (Pc.worker pc).block, task ∈ blocks)
    (access : (code me (.worker pc)).isAccess = true) :
    ((code me (.worker pc)).body memory input).isSome = true := by
  cases pc with
  | popTest =>
      simp only [code, workerFunc, Instr.body, Memory.popTask]
      split
      case isTrue => rfl
      case isFalse ready =>
        obtain ⟨_, _, _, _, _, _, popped, _⟩ := PriorityQueue.pop_spec tidy.represents ready
        simp [popped]
  | call task =>
      obtain ⟨record, found⟩ := tidy.allocated (held task (Multiset.mem_singleton_self _))
      simp [code, workerFunc, Instr.body, Memory.callTask, found]
  | pauseLock | pauseWait | pauseUnlock | popLock | popWait | unlockNull | unlockPopped | drainLock
  | drainSignal | drainUnlock | exited => cases access
  | _ => rfl

/-- On a tidy heap every access succeeds. -/
theorem access_defined {pc : Pc} (tidy : Tidy memory.pq lanes memory.fresh blocks)
    (held : ∀ task ∈ pc.block, task ∈ blocks) (access : (code me pc).isAccess = true)
    (takes : pc.takes input = true) : ((code me pc).body memory input).isSome = true := by
  cases pc with
  | submit pc => exact submit_defined tidy held access takes
  | worker pc => exact worker_defined tidy held access
  | client last => cases input with
    | call call => rfl
    | _ => cases takes
  | aging pc =>
      cases pc with
      | readClock scan promoteMs => cases input with
        | clock now => rfl
        | _ => cases takes
      | promote scan promoteMs now =>
          have different : scan.src ≠ scan.dst := by cases scan <;> decide
          obtain ⟨promoted, after, result, _⟩ :=
            PriorityQueue.promoteLocked_spec tidy.represents different now promoteMs
          simp [code, agingWorker, Instr.body, Memory.promote, result]
      | _ => first | rfl | cases access
  | destroy pc =>
      cases pc with
      | destroyQueue =>
          obtain ⟨after, result, _⟩ := PriorityQueue.pqDestroy_spec tidy.represents
          simp [code, threadPoolDestroy, Instr.body, Memory.destroyQueue, result]
      | _ => first | rfl | cases access
  | enable pc | disable _ pc | drain _ pc | wakeAll _ pc | wakePause _ pc =>
      cases pc <;> first | rfl | cases access
  | dormant => cases access
  | _ => rfl

end Definedness

section Order

variable {ι : Type} [DecidableEq ι]

/-- The mutexes that a thread may acquire while it holds `aging_mutex`. -/
def Mutex.inner : Mutex → Bool
  | .agingMutex => false
  | _ => true

/-- The points at which a thread has no work of its own: it awaits the next call of the
application, or spins until the submit calls have left. -/
def Pc.resting : Pc → Bool
  | .client _ => true
  | .destroy .spin => true
  | _ => false

theorem pool_orderly : Orderly (pool : Program ι Mutex Cond (Memory ι) Pc Input) Pc.holds Mutex.inner
    Pc.resting where
  disciplined := pool_disciplined
  lock {i pc mutex next} lock held holds := by
    cases pc <;> (try (rename_i pc; cases pc)) <;> cases lock <;> cases held <;> cases holds
  enter {i pc mutex next} enter := by
    refine ⟨fun held holds => ?_, ?_⟩
    · cases pc <;> (try (rename_i pc; cases pc)) <;> cases enter <;> cases held <;> cases holds
      decide
    · cases pc <;> (try (rename_i pc; cases pc)) <;> cases enter <;> rfl
  wait {i pc cond mutex next} wait := by
    refine ⟨fun held holds => ?_, ?_⟩
    · cases pc <;> (try (rename_i pc; cases pc)) <;> cases wait <;> cases held <;>
        first | rfl | cases holds
    · cases pc <;> (try (rename_i pc; cases pc)) <;> cases wait <;> rfl
  join {i pc awaits next} join := by
    cases pc <;> (try (rename_i pc; cases pc)) <;> cases join <;> rfl
  halt {i pc} halt := by
    cases pc <;> (try (rename_i pc; cases pc)) <;> first | rfl | cases halt
  rests {i pc} resting := by
    cases pc with
    | client last => exact ⟨rfl, rfl⟩
    | destroy pc => cases pc <;> first | exact ⟨rfl, rfl⟩ | cases resting
    | _ => cases resting

end Order

section Reachable

variable {ι : Type} [DecidableEq ι] [Fintype ι] {allowed : PoolConfig ι → Label ι Input → Prop}
  {config middle : PoolConfig ι} {roles : ι → Role} {idCount : Nat} {i : ι} {pc : Pc}

theorem reachable_access (reaches : Reaches pool allowed (threadPoolInit roles idCount) config)
    (arrives : Arrives pool config i pc middle) (access : (pool.code i pc).isAccess = true)
    {input : Input} (takes : pc.takes input = true) :
    ((pool.code i pc).body config.memory input).isSome = true := by
  obtain ⟨lanes, tidy⟩ := reachable_tidied reaches
  refine access_defined tidy (fun task held => mem_holding_block.mpr ⟨i, ?_⟩) access takes
  rw [Pc.block, (arrives_behind arrives).same syncs_phase] at held
  exact held

theorem takes_some (pc : Pc) : ∃ input, pc.takes input = true := by
  have now : ClockReading := ⟨.zero, by decide⟩
  cases pc with
  | client last => exact ⟨.call .wait, rfl⟩
  | submit pc => cases pc with
    | create args => exact ⟨.alloc true, rfl⟩
    | stamp ticket => exact ⟨.clock now, rfl⟩
    | _ => exact ⟨.none, rfl⟩
  | aging pc => cases pc with
    | readClock scan promoteMs => exact ⟨.clock now, rfl⟩
    | _ => exact ⟨.none, rfl⟩
  | _ => exact ⟨.none, rfl⟩

theorem reachable_defined (reaches : Reaches pool allowed (threadPoolInit roles idCount) config) :
    Defined pool config := by
  intro i pc middle arrives access
  obtain ⟨input, takes⟩ := takes_some pc
  exact ⟨input, reachable_access reaches arrives access takes⟩

/-- While a thread waits for a mutex, some thread of the pool goes on with its work: the
mutexes are acquired in order, and no thread sleeps, joins or rests with another one held. -/
theorem mutex_wait_ends (reaches : Reaches pool allowed (threadPoolInit roles idCount) config)
    (mutex : Mutex) (wants : Wants pool config i mutex) :
    Orderly (pool : Program ι Mutex Cond (Memory ι) Pc Input) Pc.holds Mutex.inner Pc.resting ∧
      ∃ j, CanMove pool config j ∧ (config.point j).resting = false :=
  ⟨pool_orderly, wants.someone_moves pool_orderly (reachable_owned reaches) (reachable_waits reaches)
    (reachable_defined reaches)⟩

end Reachable

/-- A submit call waits for the worker that tests the queue. -/
theorem mutex_wait_ends_push : ∃ config : PoolConfig (Fin 3),
    Reaches pool (fun _ _ => True) (threadPoolInit oneWorker 0) config ∧
      Wants pool config 1 .pqMutex ∧ config.owner .pqMutex = some 0 ∧
      ∃ j, CanMove pool config j ∧ (config.point j).resting = false := by
  obtain ⟨config, reaches, ready, owner⟩ := Reaches.of_schedule pool (fun _ _ => True)
    (threadPoolInit oneWorker 0) ((submitSteps 1 ⟨1, 0, .low⟩).take 7 ++ List.replicate 2 (go 0))
    (fun config => config.threads 1 = .ready (.submit (.lockQueue ⟨0, 0, .low⟩)) ∧
      config.owner .pqMutex = some 0) (by decide)
  have wants : Wants pool config 1 .pqMutex := .enter ready rfl
  exact ⟨config, reaches, wants, owner, (mutex_wait_ends reaches .pqMutex wants).2⟩

end ThreadPool.Pool
