import ThreadPool.Foundation.Executor
import ThreadPool.Foundation.Observation
import ThreadPool.Pool.AtRest
import ThreadPool.Pool.Priorities

namespace ThreadPool.Pool

open Foundation Foundation.Executor

/-! # The pool as an executor

Seen from its callers the pool is an executor with three lanes in which everything
happens at once: a task is accepted when `_pq_insert_locked` runs, taken when a worker
pops it, started with its function and finished when that returns. Submit calls, workers
and the aging thread interleave, and every step of theirs is one such event or none. An
observer that sees nothing but the program points at which the threads arrive can tell the
events, save what the aging thread raises.
-/

/-- What a thread has done in the step in which it arrives at a program point. -/
def Pc.arrival : Pc → Option (Sight Priority Addr)
  | .submit (.unlockInserted ticket) => some (.accept ticket.priority ticket.task)
  | .worker (.unlockPopped task) => some (.take task)
  | .worker (.running task) => some (.start task)
  | .worker (.destroy task) => some (.finish task)
  | _ => none

/-- The access that raises tasks. -/
def Pc.raising : Pc → Bool
  | .aging (.promote ..) => true
  | _ => false

/-- The part of the journal that tells what became of the accepted tasks. -/
def Journal.history (journal : Journal) : History Addr where
  accepted := journal.accepted
  started := journal.called
  finished := journal.completed

section Writes

variable {ι : Type} {memory after : Memory ι} {pc next : Pc} {rest : Account → Multiset Addr}
  {lanes : Lanes Priority Addr}

/-- What the callers see of the memory, where `shares` tells the tasks that the threads hold. -/
def Memory.executor (memory : Memory ι) (shares : Account → Multiset Addr) :
    Executor Priority Addr where
  waiting := memory.pq.lanes
  taken := shares .taken
  running := shares .running
  finished := memory.journal.completed

/-- The write of a thread between two points is an event or none, as seen at the second point;
only `raising` ones raise tasks. -/
def Emitted (raising : Bool) (memory after : Memory ι) (pc next : Pc)
    (rest : Account → Multiset Addr) : Prop :=
  ∃ event, Emits (memory.executor (pc.share + rest)) (after.executor (next.share + rest))
      memory.journal.history after.journal.history event ∧
    event.bind Event.sight = next.arrival ∧ ∀ own ∈ event, own.raises = true → raising = true

theorem emitted_none {raising : Bool} (waiting : after.pq.lanes = memory.pq.lanes)
    (history : after.journal.history = memory.journal.history)
    (taken : next.share .taken = pc.share .taken) (running : next.share .running = pc.share .running)
    (unseen : next.arrival = none) : Emitted raising memory after pc next rest := by
  have completed : after.journal.completed = memory.journal.completed :=
    congrArg History.finished history
  refine ⟨none, .none ?_ history, unseen.symm, by simp⟩
  simp only [Memory.executor, Pi.add_apply, waiting, completed, taken, running]

theorem emitted_one {raising : Bool} {event : Event Priority Addr} {result : Executor Priority Addr}
    (does : Does (memory.executor (pc.share + rest)) event result)
    (same : after.executor (next.share + rest) = result)
    (history : after.journal.history = event.record memory.journal.history)
    (seen : event.sight = next.arrival) (raises : event.raises = true → raising = true) :
    Emitted raising memory after pc next rest :=
  ⟨some event, does.emits same history, seen, by simpa using raises⟩

variable [DecidableEq ι] {me : ι}

attribute [local simp] Pc.share Pc.phase SubmitPc.phase WorkerPc.phase Phase.share

theorem submit_emitted {pc : SubmitPc} (writes : Writes me memory (.submit pc) after next)
    (books : Books memory.pq lanes memory.fresh memory.journal ((Pc.submit pc).share + rest))
    (labelled : ∀ ticket, (Pc.submit pc).pending = some ticket → memory.Labels ticket) :
    Emitted false memory after (.submit pc) next rest := by
  have waiting := books.represents.lanes_eq
  cases writes with
  | announce | count | uncount | createFails | fail | full | leave =>
      exact emitted_none rfl rfl rfl rfl rfl
  | create args =>
      refine emitted_none ?_ rfl rfl rfl rfl
      rw [waiting]
      exact (books.represents.write books.fresh_unused _).lanes_eq
  | stamp ticket record now found =>
      have mine : ticket.task ∈ ((Pc.submit (.stamp ticket)).share + rest) .pending := by simp
      refine emitted_none ?_ rfl rfl rfl rfl
      rw [waiting]
      exact (books.stamp found mine now.2).represents.lanes_eq
  | insert ticket max pq room inserted =>
      have mine : ticket.task ∈ ((Pc.submit (.insert ticket max)).share + rest) .pending := by simp
      have unknown := books.pending_not_accepted mine
      have unqueued := books.pending_not_queued mine
      obtain ⟨record, found⟩ := Option.isSome_iff_exists.mp
        (books.allocated ticket.task (Multiset.mem_add.mpr (.inl mine)))
      obtain ⟨grown, result, represents, keeps⟩ :=
        PriorityQueue.insert_spec books.represents found unqueued
      obtain rfl : grown = pq := Option.some.inj (result.symm.trans inserted)
      have waits : ¬ memory.pq.lanes.Queued ticket.task := by rwa [waiting]
      have does : Does (memory.executor ((Pc.submit (.insert ticket max)).share + rest))
          (.accept record.priority ticket.task) _ :=
        .accept waits fun executed => unknown (books.executed_accepted executed)
      have level : record.priority = ticket.priority := by
        simpa [Memory.Labels, found] using labelled ticket rfl
      refine emitted_one does ?_ rfl ?_ fun raises => by cases raises
      · simp [Memory.executor, represents.lanes_eq, waiting]
      · rw [level]
        rfl
  | discard ticket =>
      have held : ticket.task ∈ ((Pc.submit (.discard ticket)).share + rest) .rejected := by simp
      refine emitted_none ?_ rfl rfl rfl rfl
      rw [waiting]
      exact (books.free_rejected held).represents.lanes_eq

theorem worker_emitted {pc : WorkerPc} (writes : Writes me memory (.worker pc) after next)
    (books : Books memory.pq lanes memory.fresh memory.journal ((Pc.worker pc).share + rest)) :
    Emitted false memory after (.worker pc) next rest := by
  have waiting := books.represents.lanes_eq
  cases writes with
  | popEmpty | setBusy | clearBusy | decrement | decrementLast =>
      exact emitted_none rfl rfl rfl rfl rfl
  | pop task pq ready popped =>
      obtain ⟨p, first, others, shrunk, top, lane, result, represents, keeps⟩ :=
        PriorityQueue.pop_spec books.represents ready
      obtain ⟨rfl, rfl⟩ : first = task ∧ shrunk = pq :=
        Prod.mk.inj (Option.some.inj (result.symm.trans popped))
      refine emitted_one (.take (by rwa [Memory.executor, waiting]) (by rwa [Memory.executor, waiting])) ?_ rfl rfl
        fun raises => by cases raises
      simp [Memory.executor, represents.lanes_eq, waiting]
  | call task record found =>
      have taken : ((Pc.worker (.call task)).share + rest) .taken = task ::ₘ rest .taken := by simp
      refine emitted_one (.start taken) ?_ rfl rfl fun raises => by cases raises
      simp [Memory.executor]
  | running task =>
      have running : ((Pc.worker (.running task)).share + rest) .running = task ::ₘ rest .running := by
        simp
      refine emitted_one (.finish running) ?_ rfl rfl fun raises => by cases raises
      simp [Memory.executor, Memory.completeTask]
  | destroy task =>
      have held : task ∈ ((Pc.worker (.destroy task)).share + rest) .finished := by simp
      refine emitted_none ?_ rfl rfl rfl rfl
      rw [waiting]
      exact (books.free_finished held).represents.lanes_eq

/-- Every write is an event of the executor or none, as long as `pq_destroy` destroys no task. -/
theorem writes_emitted (writes : Writes me memory pc after next)
    (books : Books memory.pq lanes memory.fresh memory.journal (pc.share + rest))
    (labelled : ∀ ticket, pc.pending = some ticket → memory.Labels ticket)
    (kept : after.journal.destroyed = []) : Emitted pc.raising memory after pc next rest := by
  have waiting := books.represents.lanes_eq
  cases pc with
  | submit pc => exact submit_emitted writes books labelled
  | worker pc => exact worker_emitted writes books
  | setMaxTasks maxTasks =>
      cases writes
      refine emitted_none ?_ rfl rfl rfl rfl
      rw [waiting]
      exact (books.represents.setMaxTasks maxTasks).lanes_eq
  | aging pc =>
      cases writes with
      | promote scan promoteMs now promoted pq result =>
          have rises : scan.src < scan.dst := by cases scan <;> decide
          obtain ⟨moved, final, promotion, represents, keeps, _⟩ :=
            PriorityQueue.promoteLocked_spec books.represents rises.ne now promoteMs
          obtain ⟨rfl, rfl⟩ : moved = promoted ∧ final = pq :=
            Prod.mk.inj (Option.some.inj (promotion.symm.trans result))
          have split : memory.pq.lanes scan.src = _ ++ _ :=
            (List.takeWhile_append_dropWhile (p := memory.pq.due now promoteMs)).symm
          refine emitted_one (.raise rises split) ?_ rfl rfl fun _ => rfl
          simp [Memory.executor, represents.lanes_eq, waiting, Lanes.promote]
  | destroy pc =>
      cases writes with
      | storeShutdown | storePaused | free => exact emitted_none rfl rfl rfl rfl rfl
      | destroyQueue tasks pq result =>
          obtain ⟨final, destroyed, represents, _⟩ := PriorityQueue.pqDestroy_spec books.represents
          obtain ⟨rfl, rfl⟩ : _ = tasks ∧ final = pq :=
            Prod.mk.inj (Option.some.inj (destroyed.symm.trans result))
          refine emitted_none ?_ rfl rfl rfl rfl
          have none : lanes .low ++ lanes .medium ++ lanes .high = [] := (List.append_eq_nil_iff.mp kept).1
          rw [represents.lanes_eq, waiting]
          funext p
          cases p <;> simp_all [Lanes.empty]
  | _ => cases writes <;> exact emitted_none rfl rfl rfl rfl rfl

end Writes

section Runs

variable {ι : Type} [DecidableEq ι] [Fintype ι] {config after : PoolConfig ι} {label : Label ι Input}
  {roles : ι → Role} {idCount : Nat}

/-- What the callers see of a state of the pool. -/
def executor (config : PoolConfig ι) : Executor Priority Addr :=
  config.memory.executor (holding config Phase.share)

theorem raising_alive {pc : Pc} (raising : pc.raising = true) : pc.agingAlive = true := by
  cases pc with
  | aging pc => cases pc <;> first | rfl | cases raising
  | _ => cases raising

/-- What a step shows: the thread that has run may have arrived behind an event. -/
def sighted (config : PoolConfig ι) (label : Label ι Input) (after : PoolConfig ι) :
    Option (Sight Priority Addr) :=
  match label with
  | .run i _ => if after.point i = config.point i then none else (after.point i).arrival
  | _ => none

/-- The observer lists what it has seen, the latest first. -/
def noteSights (seen : List (Sight Priority Addr)) (config : PoolConfig ι) (label : Label ι Input)
    (after : PoolConfig ι) : List (Sight Priority Addr) :=
  (sighted config label after).toList ++ seen

omit [DecidableEq ι] [Fintype ι] in
theorem sighted_none (unseen : ∀ i, after.point i = config.point i ∨ (after.point i).arrival = none) :
    sighted config label after = none := by
  cases label with
  | run i input =>
      rcases unseen i with same | none
      · exact if_pos same
      · rw [sighted, none, ite_self]
  | pick | wake => rfl

omit [DecidableEq ι] [Fintype ι] in
theorem reads_arrival {memory : Memory ι} {pc next : Pc} (reads : Reads memory pc next) :
    next.arrival = none := by
  cases reads with
  | call _ _ entry => cases entry <;> rfl
  | _ => rfl

theorem syncs_arrival {pc next : Pc} (syncs : Syncs pc next) : next.arrival = none := by
  cases syncs <;> rfl

omit [Fintype ι] in
/-- No thread is in front of an event at the point at which it arrives behind it. -/
theorem writes_arrival {i : ι} {memory behind : Memory ι} {pc access next : Pc} (before : Behind pc access)
    (writes : Writes i memory access behind next) (same : next = pc) : next.arrival = none := by
  subst same
  cases writes <;> first | rfl | (rcases before with same | syncs <;> [cases same; cases syncs])

/-- The step is an event of the executor or none, as the observer sees it; only an aging thread
raises tasks. -/
def Shown (config : PoolConfig ι) (label : Label ι Input) (after : PoolConfig ι) : Prop :=
  ∃ event, Emits (executor config) (executor after) config.memory.journal.history
      after.memory.journal.history event ∧
    event.bind Event.sight = sighted config label after ∧
    ∀ own ∈ event, own.raises = true → ∃ i, (config.point i).agingAlive = true

omit [DecidableEq ι] in
/-- A step that leaves the tasks and the phases of the threads as they are is no event. -/
theorem shown_none (queue : after.memory.pq = config.memory.pq)
    (journal : after.memory.journal = config.memory.journal)
    (held : holding after Phase.share = holding config Phase.share)
    (unseen : ∀ i, after.point i = config.point i ∨ (after.point i).arrival = none) :
    Shown config label after := by
  refine ⟨none, .none ?_ ?_, (sighted_none unseen).symm, by simp⟩
  · simp only [executor, Memory.executor, queue, journal, held]
  · rw [journal]

theorem shown_moved {i : ι} {next : Pc} (queue : after.memory.pq = config.memory.pq)
    (journal : after.memory.journal = config.memory.journal)
    (points : after.point = Function.update config.point i next)
    (phase : next.phase = (config.point i).phase) (unseen : next.arrival = none) :
    Shown config label after := by
  refine shown_none queue journal ?_ fun j => ?_
  · obtain ⟨rest, old, new⟩ := total_moved Pc.share points
    rw [holding, holding]
    exact new.trans ((congrArg (fun phase => Phase.share phase + rest) phase).trans old.symm)
  · rw [points]
    by_cases same : j = i
    · subst same
      exact .inr (by rw [Function.update_self, unseen])
    · exact .inl (Function.update_of_ne same ..)

theorem moves_shown (moves : Moves pool config label after)
    (balanced : config.memory.Balanced (holding config Phase.share))
    (labelled : ∀ i, ∀ {ticket}, (config.point i).pending = some ticket → config.memory.Labels ticket)
    (kept : after.memory.journal.destroyed = []) : Shown config label after := by
  cases moves_step moves with
  | still memory points =>
      exact shown_none (by rw [memory]) (by rw [memory]) (total_still _ points)
        fun i => .inl (congrFun points i)
  | sync syncs memory points =>
      exact shown_moved (by rw [memory]) (by rw [memory]) points (syncs_phase syncs) (syncs_arrival syncs)
  | read arrives reads _ memory points =>
      have phase := (reads_phase reads).trans ((arrives_behind arrives).same syncs_phase)
      exact shown_moved (by rw [memory]) (by rw [memory]) points phase (reads_arrival reads)
  | @write i access middle next input _ arrives writes points =>
      have behind := arrives_behind arrives
      obtain ⟨lanes, books⟩ := balanced
      obtain ⟨rest, old, new⟩ := total_moved Pc.share points
      have shared : (config.point i).share = access.share :=
        congrArg Phase.share (behind.same syncs_phase).symm
      rw [shared] at old
      change holding config Phase.share = _ at old
      change holding after Phase.share = _ at new
      rw [old] at books
      obtain ⟨event, emits, seen, raises⟩ := writes_emitted writes books
        (fun ticket pending => labelled i ((behind.same syncs_pending).symm.trans pending)) kept
      refine ⟨event, ?_, ?_, fun own member raising => ⟨i, behind.reflects syncs_agingAlive ?_⟩⟩
      · rwa [executor, executor, old, new]
      · rw [seen, sighted, points, Function.update_self]
        split
        case isTrue same => exact writes_arrival behind writes same
        case isFalse => rfl
      · exact raising_alive (raises own member raising)
  | create here dormant different memory points =>
      refine shown_none (by rw [memory]) (by rw [memory]) ?_ fun j => ?_
      · obtain ⟨rest, old, new⟩ := total_created Pc.share different points
        rw [here, dormant] at old
        exact new.trans old.symm
      · rw [points]
        grind [Function.update_apply, Pc.arrival]
  | createFails here memory points =>
      exact shown_moved (by rw [memory]) (by rw [memory]) points (by rw [here]; rfl) rfl

omit [DecidableEq ι] in
theorem explains_init : Explains [] (executor (threadPoolInit roles idCount : PoolConfig ι))
    (threadPoolInit roles idCount : PoolConfig ι).memory.journal.history := by
  have waiting : (threadPoolInit roles idCount).memory.pq.lanes = Lanes.empty :=
    (PriorityQueue.represents_init _).lanes_eq
  have start : executor (threadPoolInit roles idCount : PoolConfig ι) = ⟨Lanes.empty, 0, 0, 0⟩ := by
    rw [executor, holding_init Phase.share (by funext account; cases account <;> rfl), Memory.executor,
      waiting]
    rfl
  rw [start]
  exact explains_nil

/-- A run of the executor explains every run of the pool that the observer has followed. -/
theorem explained {permitted : PoolConfig ι → Label ι Input → Prop} {seen : List (Sight Priority Addr)}
    (few : ∀ {config label}, permitted config label → outstandingTasks config < 2 ^ 31)
    (observed : Observed pool noteSights (fun _ => permitted) (threadPoolInit roles idCount) [] config seen) :
    ∃ trace, Explains trace (executor config) config.memory.journal.history ∧
      trace.filterMap Event.sight = seen ∧
      ∀ event ∈ trace, event.raises = true → ∃ before i,
        Reaches pool permitted (threadPoolInit roles idCount) before ∧
        (before.point i).agingAlive = true := by
  induction observed with
  | refl => exact ⟨[], explains_init, rfl, by simp⟩
  | @step config seen label after observed allowed stepped ih =>
      have reached := observed.unobserved
      obtain ⟨trace, explains, sights, raised⟩ := ih
      have kept := reachable_destroyed ((Reaches.step reached allowed stepped).mono few)
      obtain ⟨event, emits, sight, raises⟩ := moves_shown (step_moves stepped)
        (reachable_balanced reached) (reachable_labelled reached) kept
      refine ⟨_, explains.emits emits, ?_, fun own member rising => ?_⟩
      · rw [List.filterMap_append, sights, noteSights, ← sight]
        cases event with
        | none => rfl
        | some own => cases seen : own.sight <;> simp [seen]
      · rcases List.mem_append.mp member with new | old
        · obtain ⟨i, alive⟩ := raises own (Option.mem_toList.mp new) rising
          exact ⟨config, i, reached, alive⟩
        · exact raised own old rising

/-- The pool refines an executor: however its threads interleave, the tasks that a submit call
pushes with its priority and that workers pop, start and finish are those that a run of the
executor accepts with that priority, takes, starts and finishes, in the same order. The run
leads to what the callers see. -/
theorem pool_refines_executor {seen : List (Sight Priority Addr)}
    (observed : Observed pool noteSights (fun _ config _ => outstandingTasks config < 2 ^ 31)
      (threadPoolInit roles idCount) [] config seen) :
    ∃ trace, Explains trace (executor config) config.memory.journal.history ∧
      trace.filterMap Event.sight = seen := by
  obtain ⟨trace, explains, sights, _⟩ := explained (fun few => few) observed
  exact ⟨trace, explains, sights⟩

/-- The worker runs the later of two tasks, which has the higher priority. -/
theorem pool_refines_executor_twoTasks :
    ∃ (config : PoolConfig (Fin 3)) (trace : List (Event Priority Addr)),
      Observed pool noteSights (fun _ config _ => outstandingTasks config < 2 ^ 31)
          (threadPoolInit oneWorker 0) [] config
          [.start 1, .take 1, .accept .high 1, .accept .low 0] ∧
        Runs trace (executor config) ∧
        trace.filterMap Event.sight = [.start 1, .take 1, .accept .high 1, .accept .low 0] := by
  obtain ⟨config, seen, observed, rfl⟩ := Observed.of_schedule pool noteSights
    (fun _ config _ => outstandingTasks config < 2 ^ 31) (threadPoolInit oneWorker 0) []
    (submitSteps 1 ⟨1, 0, .low⟩ ++ submitSteps 2 ⟨1, 0, .high⟩ ++ List.replicate 5 (go 0))
    (fun _ seen => seen = [.start 1, .take 1, .accept .high 1, .accept .low 0]) (by decide +kernel)
  obtain ⟨trace, explains, sights⟩ := pool_refines_executor observed
  exact ⟨config, trace, observed, explains.runs, sights⟩

/-- Steps of a pool with fewer than 2^31 tasks and without calls of `thread_pool_enable_aging`. -/
def WithoutAging (config : PoolConfig ι) (label : Label ι Input) : Prop :=
  outstandingTasks config < 2 ^ 31 ∧ beginsEnable label = false

instance (config : PoolConfig ι) (label : Label ι Input) : Decidable (WithoutAging config label) :=
  inferInstanceAs (Decidable (_ ∧ _))

theorem reachable_ageless (reaches : Reaches pool WithoutAging (threadPoolInit roles idCount) config)
    (i : ι) : (config.point i).enabling = false ∧ (config.point i).agingAlive = false := by
  revert i
  apply reaches.invariant fun config =>
    ∀ i, (config.point i).enabling = false ∧ (config.point i).agingAlive = false
  · intro i
    change (roles i).start.enabling = false ∧ (roles i).start.agingAlive = false
    cases roles i <;> exact ⟨rfl, rfl⟩
  · intro config label after _ ageless permitted moves i
    refine ⟨Bool.eq_false_of_not_eq_true fun enabling => ?_, Bool.eq_false_of_not_eq_true fun alive => ?_⟩
    · obtain ⟨begins, _⟩ := enable_begins moves (ageless i).1 enabling
      rw [permitted.2] at begins
      cases begins
    · obtain ⟨k, creating, _⟩ := aging_born moves (ageless i).2 alive
      have idle := (ageless k).1
      rw [creating] at idle
      cases idle

/-- Without aging the tasks that were submitted with a priority are popped in the order in
which they were pushed, whatever the number of submit calls and workers: those popped so far,
and behind them those that still wait. -/
theorem served_in_order {seen : List (Sight Priority Addr)}
    (observed : Observed pool noteSights (fun _ => WithoutAging) (threadPoolInit roles idCount) [] config
      seen) (p : Priority) :
    seen.filterMap (Sight.acceptedAt p) = (config.memory.pq.lanes p).reverse ++
      (seen.filterMap Sight.taken).filter (· ∈ seen.filterMap (Sight.acceptedAt p)) := by
  obtain ⟨trace, explains, rfl, raised⟩ := explained (fun permitted => permitted.1) observed
  have flat : ∀ event ∈ trace, event.raises = false := by
    refine fun event member => Bool.eq_false_of_not_eq_true fun raises => ?_
    obtain ⟨before, i, reached, alive⟩ := raised event member raises
    rw [(reachable_ageless reached i).2] at alive
    cases alive
  rw [sight_acceptedAt, sight_taken]
  exact explains.runs.taken_in_order p flat

end Runs

/-- The worker is about to run the first of two tasks of one priority. -/
theorem served_in_order_twoTasks :
    ∃ (config : PoolConfig (Fin 3)) (seen : List (Sight Priority Addr)),
      Observed pool noteSights (fun _ => WithoutAging) (threadPoolInit oneWorker 0) [] config seen ∧
        seen = [.take 0, .accept .low 1, .accept .low 0] ∧
        seen.filterMap (Sight.acceptedAt .low) = (config.memory.pq.lanes .low).reverse ++
          (seen.filterMap Sight.taken).filter (· ∈ seen.filterMap (Sight.acceptedAt .low)) := by
  obtain ⟨config, seen, observed, shown⟩ := Observed.of_schedule pool noteSights (fun _ => WithoutAging)
    (threadPoolInit oneWorker 0) []
    (submitSteps 1 ⟨1, 0, .low⟩ ++ submitSteps 2 ⟨1, 0, .low⟩ ++ List.replicate 3 (go 0))
    (fun _ seen => seen = [.take 0, .accept .low 1, .accept .low 0]) (by decide +kernel)
  exact ⟨config, seen, observed, shown, served_in_order observed .low⟩

end ThreadPool.Pool
