import ThreadPool.Pool.Code

namespace ThreadPool.Pool

open Foundation

/-! # Transitions of the pool

What a thread can do from each program point, as relations: the loads with the
branch they decide, the synchronisations, and the writes with the memory they leave.
-/

variable {ι : Type} [DecidableEq ι]

/-- The program points at which a call starts; a call with invalid arguments returns. -/
inductive Entry : Pc → Prop
  | submit (args : SubmitArgs) : args.func ≠ 0 → Entry (.submit (.announce args))
  | submitInvalid : Entry (.client (some (.error .einval)))
  | wait : Entry .wait
  | pause : Entry .pause
  | resume : Entry (.resume .client)
  | setMaxTasks (maxTasks) : Entry (.setMaxTasks maxTasks)
  | enable (intervalMs promoteMs) : 0 < intervalMs → 0 < promoteMs →
      Entry (.enable (.lock intervalMs promoteMs))
  | enableInvalid : Entry (.client none)
  | disable : Entry (.disable .client .load)
  | destroy : Entry (.destroy .storeShutdown)

/-- The loads: program point before and after. -/
inductive Reads (memory : Memory ι) : Pc → Pc → Prop
  | call (last next) : Entry next → Reads memory (.client last) next
  | refuse (args) : memory.shutdown = true →
      Reads memory (.submit (.checkShutdown args)) (.submit (.fail .eshutdown))
  | pass (args) : memory.shutdown = false →
      Reads memory (.submit (.checkShutdown args)) (.submit (.loadMax args))
  | unbounded (args) : memory.pq.maxTasks = 0 →
      Reads memory (.submit (.loadMax args)) (.submit (.create args))
  | bounded (args) : memory.pq.maxTasks ≠ 0 →
      Reads memory (.submit (.loadMax args)) (.submit (.loadDepth args memory.pq.maxTasks))
  | deep (args max) : memory.pq.depth ≥ max →
      Reads memory (.submit (.loadDepth args max)) (.submit (.fail .eagain))
  | shallow (args max) : memory.pq.depth < max →
      Reads memory (.submit (.loadDepth args max)) (.submit (.create args))
  | aged (ticket) : memory.agingEnable = true →
      Reads memory (.submit (.checkAging ticket)) (.submit (.stamp ticket))
  | unaged (ticket) : memory.agingEnable = false →
      Reads memory (.submit (.checkAging ticket)) (.submit (.lockQueue ticket))
  | loadCap (ticket) :
      Reads memory (.submit (.loadCap ticket)) (.submit (.insert ticket memory.pq.maxTasks))
  | topPaused : memory.paused = true → Reads memory (.worker .top) (.worker .pauseLock)
  | topRunning : memory.paused = false → Reads memory (.worker .top) (.worker .popLock)
  | stillPaused : memory.paused = true → Reads memory (.worker .pauseTest) (.worker .pauseWait)
  | resumed : memory.paused = false → Reads memory (.worker .pauseTest) (.worker .pauseUnlock)
  | popNull : memory.shutdown = true → Reads memory (.worker .popShutdown) (.worker .unlockNull)
  | popSleep : memory.shutdown = false → Reads memory (.worker .popShutdown) (.worker .popWait)
  | waitPaused : memory.paused = true → Reads memory .wait (.resume .wait)
  | waitRunning : memory.paused = false → Reads memory .wait (.drain .wait .lock)
  | undrained (caller) : memory.totalTaskInSystem > 0 →
      Reads memory (.drain caller .test) (.drain caller .wait)
  | drained (caller) : memory.totalTaskInSystem ≤ 0 →
      Reads memory (.drain caller .test) (.drain caller .unlock)
  | alreadyEnabled (intervalMs promoteMs) : memory.agingEnable = true →
      Reads memory (.enable (.test intervalMs promoteMs)) (.enable .unlockEnabled)
  | notEnabled (intervalMs promoteMs) : memory.agingEnable = false →
      Reads memory (.enable (.test intervalMs promoteMs)) (.enable (.set intervalMs promoteMs))
  | enabled (caller) : memory.agingEnable = true →
      Reads memory (.disable caller .load) (.disable caller .store)
  | disabled : memory.agingEnable = false → Reads memory (.disable .client .load) (.client none)
  | destroyUnaged : memory.agingEnable = false →
      Reads memory (.disable .destroy .load) (.drain .destroy .lock)
  | agingPaused : memory.paused = true → Reads memory (.aging .loopTop) (.aging .pauseRelease)
  | agingRunning : memory.paused = false → Reads memory (.aging .loopTop) (.aging .checkShutdown)
  | pauseLasts : memory.paused = true → Reads memory (.aging .pauseTest) (.aging .pauseShutdown)
  | pauseEnds : memory.paused = false → Reads memory (.aging .pauseTest) (.aging .pauseUnlock)
  | pauseStopped : memory.shutdown = true →
      Reads memory (.aging .pauseShutdown) (.aging .pauseUnlock)
  | pauseOpen : memory.shutdown = false → Reads memory (.aging .pauseShutdown) (.aging .pauseEnable)
  | pauseEnabled : memory.agingEnable = true →
      Reads memory (.aging .pauseEnable) (.aging .pauseWait)
  | pauseDisabled : memory.agingEnable = false →
      Reads memory (.aging .pauseEnable) (.aging .pauseUnlock)
  | agingStopped : memory.shutdown = true → Reads memory (.aging .checkShutdown) (.aging .unlock)
  | agingOpen : memory.shutdown = false → Reads memory (.aging .checkShutdown) (.aging .checkEnable)
  | agingEnabled : memory.agingEnable = true → Reads memory (.aging .checkEnable) (.aging .timedWait)
  | agingDisabled : memory.agingEnable = false → Reads memory (.aging .checkEnable) (.aging .unlock)
  | passStart :
      Reads memory (.aging .passStart) (.aging (.readClock .first memory.agingPromoteMs))
  | readClock (scan promoteMs) (now : ClockReading) :
      Reads memory (.aging (.readClock scan promoteMs)) (.aging (.checkFlag scan promoteMs now))
  | skipFirst (promoteMs now) : memory.shutdown = true →
      Reads memory (.aging (.checkFlag .first promoteMs now)) (.aging (.between promoteMs))
  | skipSecond (promoteMs now) : memory.shutdown = true →
      Reads memory (.aging (.checkFlag .second promoteMs now)) (.aging .loopTop)
  | scan (scan promoteMs now) : memory.shutdown = false →
      Reads memory (.aging (.checkFlag scan promoteMs now)) (.aging (.lockQueue scan promoteMs now))
  | endPass (promoteMs) : memory.shutdown = true →
      Reads memory (.aging (.between promoteMs)) (.aging .loopTop)
  | secondScan (promoteMs) : memory.shutdown = false →
      Reads memory (.aging (.between promoteMs)) (.aging (.readClock .second promoteMs))
  | spin : memory.inFlightSubmits > 0#32 → Reads memory (.destroy .spin) (.destroy .spin)
  | quiet : ¬ memory.inFlightSubmits > 0#32 → Reads memory (.destroy .spin) (.wakeAll .destroy .lock)
  | monitorStop : Reads memory (.destroy .monitorStop) (.destroy .joinWorkers)

/-- The synchronisations: program point before and after. -/
inductive Syncs : Pc → Pc → Prop
  | submitLock (ticket) : Syncs (.submit (.lockQueue ticket)) (.submit (.loadCap ticket))
  | submitFull (ticket) : Syncs (.submit (.unlockFull ticket)) (.submit (.uncount ticket))
  | submitInserted (ticket) : Syncs (.submit (.unlockInserted ticket)) (.submit (.signal ticket))
  | submitSignal (ticket) : Syncs (.submit (.signal ticket)) (.submit (.leave ticket))
  | pauseLock : Syncs (.worker .pauseLock) (.worker .pauseTest)
  | pauseWait : Syncs (.worker .pauseWait) (.worker .pauseTest)
  | pauseUnlock : Syncs (.worker .pauseUnlock) (.worker .popLock)
  | popLock : Syncs (.worker .popLock) (.worker .popTest)
  | popWait : Syncs (.worker .popWait) (.worker .popTest)
  | unlockNull : Syncs (.worker .unlockNull) (.worker .exited)
  | unlockPopped (task) : Syncs (.worker (.unlockPopped task)) (.worker (.setBusy task))
  | drainLock : Syncs (.worker .drainLock) (.worker .drainSignal)
  | drainSignal : Syncs (.worker .drainSignal) (.worker .drainUnlock)
  | drainUnlock : Syncs (.worker .drainUnlock) (.worker .top)
  | waiterLock (caller) : Syncs (.drain caller .lock) (.drain caller .test)
  | waiterSleep (caller) : Syncs (.drain caller .wait) (.drain caller .test)
  | waitReturn : Syncs (.drain .wait .unlock) (.client none)
  | destroyDrained : Syncs (.drain .destroy .unlock) (.destroy .monitorStop)
  | wakeAllLock (caller) : Syncs (.wakeAll caller .lock) (.wakeAll caller .broadcast)
  | wakeAllBroadcast (caller) : Syncs (.wakeAll caller .broadcast) (.wakeAll caller .unlock)
  | pauseReturn : Syncs (.wakeAll .pause .unlock) (.client none)
  | destroyWoken : Syncs (.wakeAll .destroy .unlock) (.wakePause .destroy .lock)
  | wakePauseLock (caller) : Syncs (.wakePause caller .lock) (.wakePause caller .broadcast)
  | wakePauseBroadcast (caller) : Syncs (.wakePause caller .broadcast) (.wakePause caller .unlock)
  | resumeReturn : Syncs (.wakePause (.resume .client) .unlock) (.client none)
  | waitResumed : Syncs (.wakePause (.resume .wait) .unlock) (.drain .wait .lock)
  | disableWoken (caller) : Syncs (.wakePause (.disable caller) .unlock) (.disable caller .join)
  | destroyResumed : Syncs (.wakePause .destroy .unlock) (.disable .destroy .load)
  | enableLock (intervalMs promoteMs) :
      Syncs (.enable (.lock intervalMs promoteMs)) (.enable (.test intervalMs promoteMs))
  | enableUnlock : Syncs (.enable .unlock) (.enable .create)
  | enableReturn : Syncs (.enable .unlockEnabled) (.client none)
  | disableLock (caller) : Syncs (.disable caller .lock) (.disable caller .signal)
  | disableSignal (caller) : Syncs (.disable caller .signal) (.disable caller .unlock)
  | disableUnlock (caller) : Syncs (.disable caller .unlock) (.wakePause (.disable caller) .lock)
  | disableReturn : Syncs (.disable .client .join) (.client none)
  | destroyDisabled : Syncs (.disable .destroy .join) (.drain .destroy .lock)
  | agingStart : Syncs (.aging .start) (.aging .loopTop)
  | agingRelease : Syncs (.aging .pauseRelease) (.aging .pauseLock)
  | agingPauseLock : Syncs (.aging .pauseLock) (.aging .pauseTest)
  | agingPauseWait : Syncs (.aging .pauseWait) (.aging .pauseTest)
  | agingPauseUnlock : Syncs (.aging .pauseUnlock) (.aging .relock)
  | agingRelock : Syncs (.aging .relock) (.aging .checkShutdown)
  | timedWait : Syncs (.aging .timedWait) (.aging .passStart)
  | scanLock (scan promoteMs now) :
      Syncs (.aging (.lockQueue scan promoteMs now)) (.aging (.promote scan promoteMs now))
  | scanUnlock (scan promoteMs) :
      Syncs (.aging (.unlockQueue scan promoteMs true)) (.aging (.broadcast scan promoteMs))
  | firstNothing (promoteMs) :
      Syncs (.aging (.unlockQueue .first promoteMs false)) (.aging (.between promoteMs))
  | secondNothing (promoteMs) :
      Syncs (.aging (.unlockQueue .second promoteMs false)) (.aging .loopTop)
  | firstBroadcast (promoteMs) :
      Syncs (.aging (.broadcast .first promoteMs)) (.aging (.between promoteMs))
  | secondBroadcast (promoteMs) : Syncs (.aging (.broadcast .second promoteMs)) (.aging .loopTop)
  | agingUnlock : Syncs (.aging .unlock) (.aging .exited)
  | joinWorkers : Syncs (.destroy .joinWorkers) (.destroy .lockQueue)
  | destroyLock : Syncs (.destroy .lockQueue) (.destroy .destroyQueue)
  | destroyUnlock : Syncs (.destroy .unlockQueue) (.destroy .free)

/-- The writes of thread `me`: program point and memory before and after. -/
inductive Writes (me : ι) (memory : Memory ι) : Pc → Memory ι → Pc → Prop
  | announce (args) : Writes me memory (.submit (.announce args)) memory.announceSubmit
      (.submit (.checkShutdown args))
  | create (args) : Writes me memory (.submit (.create args)) (memory.createTask args).1
      (.submit (.count (memory.createTask args).2))
  | createFails (args) : Writes me memory (.submit (.create args)) memory (.submit (.fail .enomem))
  | count (ticket) : Writes me memory (.submit (.count ticket)) (memory.addTotal 1)
      (.submit (.checkAging ticket))
  | stamp (ticket record) (now : ClockReading) : memory.pq.heap ticket.task = some record →
      Writes me memory (.submit (.stamp ticket))
        { memory with pq := memory.pq.store ticket.task { record with submitTime := now } }
        (.submit (.lockQueue ticket))
  | full (ticket max) : memory.pq.atCapacity max = true →
      Writes me memory (.submit (.insert ticket max))
        { memory with journal.refused := ticket.task :: memory.journal.refused }
        (.submit (.unlockFull ticket))
  | insert (ticket max pq) : memory.pq.atCapacity max = false →
      memory.pq.pqInsertLocked ticket.task = some pq →
      Writes me memory (.submit (.insert ticket max))
        { memory with pq, journal.accepted := ticket.task :: memory.journal.accepted }
        (.submit (.unlockInserted ticket))
  | leave (ticket) : Writes me memory (.submit (.leave ticket))
      { memory.retireSubmit with journal.returned := ticket.task :: memory.journal.returned }
      (.client (some (.id ticket.id)))
  | uncount (ticket) : Writes me memory (.submit (.uncount ticket)) (memory.addTotal (-1))
      (.submit (.discard ticket))
  | discard (ticket) : Writes me memory (.submit (.discard ticket)) (memory.taskDestroy ticket.task)
      (.submit (.fail .eagain))
  | fail (errno) : Writes me memory (.submit (.fail errno)) memory.retireSubmit
      (.client (some (.error errno)))
  | popEmpty : memory.pq.readyMask = 0 →
      Writes me memory (.worker .popTest) memory (.worker .popShutdown)
  | pop (task pq) : memory.pq.readyMask ≠ 0 → memory.pq.popHighest = some (task, pq) →
      Writes me memory (.worker .popTest) { memory with pq } (.worker (.unlockPopped task))
  | setBusy (task) : Writes me memory (.worker (.setBusy task)) (memory.setBusy me true)
      (.worker (.call task))
  | call (task record) : memory.pq.heap task = some record →
      Writes me memory (.worker (.call task))
        { memory with journal.called := task :: memory.journal.called } (.worker (.running task))
  | running (task) : Writes me memory (.worker (.running task)) (memory.completeTask task)
      (.worker (.destroy task))
  | destroy (task) : Writes me memory (.worker (.destroy task)) (memory.taskDestroy task)
      (.worker .clearBusy)
  | clearBusy : Writes me memory (.worker .clearBusy) (memory.setBusy me false) (.worker .decrement)
  | decrement : (memory.addTotal (-1)).totalTaskInSystem ≠ 0 →
      Writes me memory (.worker .decrement) (memory.addTotal (-1)) (.worker .top)
  | decrementLast : (memory.addTotal (-1)).totalTaskInSystem = 0 →
      Writes me memory (.worker .decrement) (memory.addTotal (-1)) (.worker .drainLock)
  | pause : Writes me memory .pause { memory with paused := true } (.wakeAll .pause .lock)
  | resume (caller) : Writes me memory (.resume caller) { memory with paused := false }
      (.wakePause (.resume caller) .lock)
  | setMaxTasks (maxTasks) : Writes me memory (.setMaxTasks maxTasks)
      { memory with pq := memory.pq.pqSetMaxTasks maxTasks } (.client none)
  | enableSet (intervalMs promoteMs) : Writes me memory (.enable (.set intervalMs promoteMs))
      { memory with agingIntervalMs := intervalMs, agingPromoteMs := promoteMs } (.enable .store)
  | enableStore : Writes me memory (.enable .store) { memory with agingEnable := true }
      (.enable .unlock)
  | enableUndo : Writes me memory (.enable .undo) { memory with agingEnable := false } (.client none)
  | disableStore (caller) : Writes me memory (.disable caller .store)
      { memory with agingEnable := false } (.disable caller .lock)
  | promote (scan promoteMs now promoted pq) :
      memory.pq.promoteLocked scan.src scan.dst now promoteMs = some (promoted, pq) →
      Writes me memory (.aging (.promote scan promoteMs now)) { memory with pq }
        (.aging (.unlockQueue scan promoteMs promoted))
  | storeShutdown : Writes me memory (.destroy .storeShutdown) { memory with shutdown := true }
      (.destroy .storePaused)
  | storePaused : Writes me memory (.destroy .storePaused) { memory with paused := false }
      (.destroy .spin)
  | destroyQueue (tasks pq) : memory.pq.pqDestroy = some (tasks, pq) →
      Writes me memory (.destroy .destroyQueue)
        { memory with pq, journal.destroyed := tasks ++ memory.journal.destroyed }
        (.destroy .unlockQueue)
  | free : Writes me memory (.destroy .free) { memory with journal.freed := true } (.destroy .done)

variable {me : ι} {memory after : Memory ι} {next : Pc} {input : Input}
  {run : Memory ι → Input → Option (Memory ι × Pc)}

theorem call_entry (call : Call) : Entry call.entry := by
  cases call with
  | submit args =>
      simp only [Call.entry]
      split
      case isTrue => exact .submitInvalid
      case isFalse valid => exact .submit args valid
  | enableAging intervalMs promoteMs =>
      simp only [Call.entry]
      split
      case isTrue => exact .enableInvalid
      case isFalse valid => exact .enable intervalMs promoteMs (by omega) (by omega)
  | _ => constructor

/-- Every load decides where its thread goes on. -/
theorem code_reads {pc : Pc} {choose : Memory ι → Input → Option Pc}
    (read : code me pc = .read choose) (result : choose memory input = some next) :
    Reads memory pc next := by
  cases pc with
  | client last =>
      cases read
      cases input with
      | call call =>
          cases result
          exact .call last _ (call_entry call)
      | _ => cases result
  | aging pc =>
      cases pc with
      | readClock scan promoteMs =>
          cases read
          cases input <;> cases result
          constructor
      | passStart =>
          cases read
          cases result
          constructor
      | checkFlag scan promoteMs now =>
          cases read
          cases result
          dsimp only
          split
          case isTrue stopped =>
            cases scan with
            | first => exact .skipFirst promoteMs now stopped
            | second => exact .skipSecond promoteMs now stopped
          case isFalse running => exact .scan scan promoteMs now (Bool.eq_false_of_not_eq_true running)
      | _ =>
          cases read <;> cases result <;> dsimp only <;> split <;> constructor <;> simp_all
  | disable caller pc =>
      cases pc <;> cases read
      cases result
      dsimp only
      split
      case isTrue enabled => exact .enabled caller enabled
      case isFalse disabled =>
        cases caller with
        | client => exact .disabled (Bool.eq_false_of_not_eq_true disabled)
        | destroy => exact .destroyUnaged (Bool.eq_false_of_not_eq_true disabled)
  | submit pc =>
      cases pc with
      | loadCap ticket =>
          cases read
          cases result
          constructor
      | _ => cases read <;> cases result <;> dsimp only <;> split <;> constructor <;> simp_all
  | destroy pc =>
      cases pc with
      | monitorStop =>
          cases read
          cases result
          constructor
      | _ => cases read <;> cases result <;> dsimp only <;> split <;> constructor <;> assumption
  | worker pc | enable pc | drain _ pc | wakeAll _ pc | wakePause _ pc =>
      cases pc <;> cases read <;> cases result <;> dsimp only <;> split <;> constructor <;> simp_all
  | wait =>
      cases read
      cases result
      dsimp only
      split <;> constructor <;> simp_all
  | _ => cases read

theorem code_syncs {pc : Pc} (sync : (code me pc).sync = some next) : Syncs pc next := by
  cases pc with
  | drain caller pc | wakeAll caller pc | disable caller pc =>
      cases pc <;> cases sync <;> first | constructor | (cases caller <;> constructor)
  | wakePause caller pc =>
      cases pc <;> cases sync <;> first | constructor | (rcases caller with ⟨_ | _⟩ | _ | _ <;> constructor)
  | aging pc =>
      cases pc with
      | unlockQueue scan promoteMs promoted =>
          cases sync
          cases promoted <;> cases scan <;> constructor
      | broadcast scan promoteMs =>
          cases sync
          cases scan <;> constructor
      | _ => cases sync <;> constructor
  | submit pc | worker pc | enable pc | destroy pc => cases pc <;> cases sync <;> constructor
  | _ => cases sync

theorem submit_writes {pc : SubmitPc} (act : threadPoolSubmit pc = .act run)
    (result : run memory input = some (after, next)) : Writes me memory (.submit pc) after next := by
  cases pc with
  | announce | count | leave | uncount | discard | fail =>
      cases act
      cases result
      constructor
  | create args =>
      cases act
      cases input with
      | alloc success =>
          cases success <;> cases result <;> constructor
      | _ => cases result
  | stamp ticket =>
      cases act
      cases input with
      | clock now =>
          simp only [Memory.stampTask, Option.bind_eq_bind, Option.pure_def, Option.map_bind,
            Option.bind_eq_some_iff, Function.comp, Option.map_some, Option.some.injEq,
            Prod.mk.injEq] at result
          obtain ⟨record, found, rfl, rfl⟩ := result
          exact .stamp ticket record now found
      | _ => cases result
  | insert ticket max =>
      cases act
      cases room : memory.pq.atCapacity max with
      | true =>
          simp only [Memory.tryPush, room, if_true, Option.map_some, Option.some.injEq,
            Prod.mk.injEq] at result
          obtain ⟨rfl, rfl⟩ := result
          exact .full ticket max room
      | false =>
          cases inserted : memory.pq.pqInsertLocked ticket.task with
          | none => simp [Memory.tryPush, room, inserted] at result
          | some pq =>
              simp only [Memory.tryPush, room, inserted, Bool.false_eq_true, if_false,
                Option.bind_eq_bind, Option.bind_some, Option.pure_def, Option.map_some,
                Option.some.injEq, Prod.mk.injEq] at result
              obtain ⟨rfl, rfl⟩ := result
              exact .insert ticket max pq room inserted
  | _ => cases act

theorem worker_writes {pc : WorkerPc} (act : workerFunc me pc = .act run)
    (result : run memory input = some (after, next)) : Writes me memory (.worker pc) after next := by
  cases pc with
  | setBusy | running | destroy | clearBusy =>
      cases act
      cases result
      constructor
  | popTest =>
      cases act
      by_cases empty : memory.pq.readyMask = 0
      · simp only [Memory.popTask, if_pos empty, Option.map_some, Option.some.injEq,
          Prod.mk.injEq] at result
        obtain ⟨rfl, rfl⟩ := result
        exact .popEmpty empty
      · cases popped : memory.pq.popHighest with
        | none => simp only [Memory.popTask, if_neg empty, popped, Option.bind_eq_bind,
            Option.bind_none, Option.map_none, reduceCtorEq] at result
        | some outcome =>
            obtain ⟨task, pq⟩ := outcome
            simp only [Memory.popTask, if_neg empty, popped, Option.bind_eq_bind, Option.bind_some,
              Option.pure_def, Option.map_some, Option.some.injEq, Prod.mk.injEq] at result
            obtain ⟨rfl, rfl⟩ := result
            exact .pop task pq empty popped
  | call task =>
      cases act
      simp only [Memory.callTask, Option.bind_eq_bind, Option.pure_def, Option.map_bind,
        Option.bind_eq_some_iff, Function.comp, Option.map_some, Option.some.injEq,
        Prod.mk.injEq] at result
      obtain ⟨record, found, rfl, rfl⟩ := result
      exact .call task record found
  | decrement =>
      cases act
      simp only [Option.some.injEq, Prod.mk.injEq] at result
      obtain ⟨rfl, rfl⟩ := result
      split
      case isTrue last => exact .decrementLast last
      case isFalse more => exact .decrement more
  | _ => cases act

/-- Everything that a step can write. -/
theorem code_writes {pc : Pc} (act : code me pc = .act run)
    (result : run memory input = some (after, next)) : Writes me memory pc after next := by
  cases pc with
  | submit pc => exact submit_writes act result
  | worker pc => exact worker_writes act result
  | pause | resume | setMaxTasks =>
      cases act
      cases result
      constructor
  | enable pc =>
      cases pc with
      | set | store | undo =>
          cases act
          cases result
          constructor
      | _ => cases act
  | disable caller pc =>
      cases pc with
      | store =>
          cases act
          cases result
          constructor
      | _ => cases act
  | aging pc =>
      cases pc with
      | promote scan promoteMs now =>
          cases act
          cases promoted : memory.pq.promoteLocked scan.src scan.dst now promoteMs with
          | none => simp [Memory.promote, promoted] at result
          | some outcome =>
              obtain ⟨some, pq⟩ := outcome
              simp only [Memory.promote, promoted, Option.bind_eq_bind, Option.bind_some,
                Option.pure_def, Option.map_some, Option.some.injEq, Prod.mk.injEq] at result
              obtain ⟨rfl, rfl⟩ := result
              exact .promote scan promoteMs now some pq promoted
      | _ => cases act
  | destroy pc =>
      cases pc with
      | storeShutdown | storePaused | free =>
          cases act
          cases result
          constructor
      | destroyQueue =>
          cases act
          simp only [Memory.destroyQueue, Option.bind_eq_bind, Option.pure_def, Option.map_bind,
            Option.bind_eq_some_iff, Function.comp, Option.map_some, Option.some.injEq,
            Prod.mk.injEq, Prod.exists] at result
          obtain ⟨tasks, pq, destroyed, rfl, rfl⟩ := result
          exact .destroyQueue tasks pq destroyed
      | _ => cases act
  | drain caller pc => cases pc <;> cases act
  | wakeAll caller pc => cases pc <;> cases act
  | wakePause caller pc => cases pc <;> cases act
  | dormant | client | wait => cases act

theorem code_fork {pc start : Pc} {next : Memory ι → Option ι → Memory ι × Pc}
    (fork : code me pc = .fork start next) :
    pc = .enable .create ∧ start = .aging .start ∧
      next = fun memory target => match target with
        | some tid => ({ memory with agingTid := some tid }, .client none)
        | none => (memory, .enable .undo) := by
  cases pc <;> (try (rename_i pc; cases pc)) <;> cases fork
  exact ⟨rfl, rfl, rfl⟩

/-- The creation of the aging thread, and its failure. -/
theorem fork_result {pc start final : Pc} {choose : Memory ι → Option ι → Memory ι × Pc}
    {target : Option ι} (fork : code me pc = .fork start choose)
    (result : choose memory target = (after, final)) :
    pc = .enable .create ∧ start = .aging .start ∧
      ((∃ tid, target = some tid ∧ after = { memory with agingTid := some tid } ∧ final = .client none) ∨
        (target = none ∧ after = memory ∧ final = .enable .undo)) := by
  obtain ⟨rfl, rfl, rfl⟩ := code_fork fork
  refine ⟨rfl, rfl, ?_⟩
  cases target with
  | some tid =>
      cases result
      exact .inl ⟨tid, rfl, rfl, rfl⟩
  | none =>
      cases result
      exact .inr ⟨rfl, rfl, rfl⟩

/-- The access of a step stands at the program point, or behind the mutex there. -/
def Behind (pc access : Pc) : Prop := pc = access ∨ Syncs pc access

theorem Behind.keeps {property : Pc → Prop} {pc access : Pc} (behind : Behind pc access)
    (kept : ∀ {pc next}, Syncs pc next → property pc → property next) (here : property pc) :
    property access := by
  rcases behind with rfl | syncs
  · exact here
  · exact kept syncs here

theorem Behind.reflects {property : Pc → Prop} {pc access : Pc} (behind : Behind pc access)
    (kept : ∀ {pc next}, Syncs pc next → property next → property pc) (there : property access) :
    property pc := by
  rcases behind with rfl | syncs
  · exact there
  · exact kept syncs there

theorem Behind.same {β : Type} {value : Pc → β} {pc access : Pc} (behind : Behind pc access)
    (kept : ∀ {pc next}, Syncs pc next → value next = value pc) : value access = value pc := by
  rcases behind with rfl | syncs
  · rfl
  · exact kept syncs

theorem arrives_behind {config middle : PoolConfig ι} {i : ι} {access : Pc}
    (arrives : Arrives pool config i access middle) : Behind (config.point i) access :=
  arrives.point_or_sync.imp_right code_syncs

/-- The move of thread `me` in one step. -/
inductive Goes (me : ι) (memory : Memory ι) : Pc → Memory ι → Pc → Prop
  | sync {pc next} : Syncs pc next → Goes me memory pc memory next
  | read {pc access next} : Behind pc access → Reads memory access next → Goes me memory pc memory next
  | write {pc access after next} : Behind pc access → Writes me memory access after next →
      Goes me memory pc after next
  | create (tid) : Goes me memory (.enable .create) { memory with agingTid := some tid } (.client none)
  | createFails : Goes me memory (.enable .create) memory (.enable .undo)
  | created : Goes me memory .dormant { memory with agingTid := some me } (.aging .start)

theorem advance_goes {pc : Pc} (advance : Advance pool me memory pc after next) :
    Goes me memory pc after next := by
  have behind : ∀ {access}, pc = access ∨ (code me pc).sync = some access → Behind pc access := by
    intro access arrives
    exact arrives.imp_right code_syncs
  cases advance with
  | sync sync => exact .sync (code_syncs sync)
  | read arrives code result => exact .read (behind arrives) (code_reads code result)
  | act arrives code result => exact .write (behind arrives) (code_writes code result)
  | fork code result =>
      obtain ⟨rfl, _, ⟨tid, _, rfl, rfl⟩ | ⟨_, rfl, rfl⟩⟩ := fork_result code result
      · exact .create tid
      · exact .createFails
  | created dormant code result =>
      cases of_decide_eq_true dormant
      obtain ⟨_, rfl, ⟨tid, same, rfl, _⟩ | ⟨none, _⟩⟩ := fork_result code result
      · cases same
        exact .created
      · cases none

/-- In a step of the pool every thread stays where it is or makes a move of its own. -/
theorem moves_goes [Fintype ι] {config final : PoolConfig ι} {label : Label ι Input}
    (moves : Moves pool config label final) (j : ι) :
    final.point j = config.point j ∨
      Goes j config.memory (config.point j) final.memory (final.point j) :=
  (moves.advance j).imp_right advance_goes

/-- A step of the pool as it appears in the memory and in the program points. -/
inductive PoolStep [Fintype ι] (config : PoolConfig ι) : Label ι Input → PoolConfig ι → Prop
  | still {label} {final : PoolConfig ι} : final.memory = config.memory → final.point = config.point →
      PoolStep config label final
  | sync {label i next} {final : PoolConfig ι} : Syncs (config.point i) next →
      final.memory = config.memory → final.point = Function.update config.point i next →
      PoolStep config label final
  | read {i access middle next input} {final : PoolConfig ι} : Arrives pool config i access middle →
      Reads config.memory access next → (∀ last, access = .client last →
        ∃ call, input = .call call ∧ next = call.entry) → final.memory = config.memory →
      final.point = Function.update config.point i next → PoolStep config (.run i input) final
  | write {i access middle next input} {final : PoolConfig ι} : Arrives pool config i access middle →
      Writes i config.memory access final.memory next →
      final.point = Function.update config.point i next → PoolStep config (.run i input) final
  | create {i tid} {final : PoolConfig ι} : config.point i = .enable .create →
      config.point tid = .dormant → tid ≠ i →
      final.memory = { config.memory with agingTid := some tid } →
      final.point = Function.update (Function.update config.point tid (.aging .start)) i (.client none) →
      PoolStep config (.pick i (some tid)) final
  | createFails {i} {final : PoolConfig ι} : config.point i = .enable .create →
      final.memory = config.memory → final.point = Function.update config.point i (.enable .undo) →
      PoolStep config (.pick i none) final

theorem client_call {pc : Pc} {choose : Memory ι → Input → Option Pc}
    (read : code me pc = .read choose) (result : choose memory input = some next) (last : Option SubmitResult)
    (client : pc = .client last) : ∃ call, input = .call call ∧ next = call.entry := by
  subst client
  cases read
  cases input with
  | call call =>
      cases result
      exact ⟨call, rfl, rfl⟩
  | _ => cases result

theorem moves_step [Fintype ι] {config final : PoolConfig ι} {label : Label ι Input}
    (moves : Moves pool config label final) : PoolStep config label final := by
  cases moves.change with
  | still memory points => exact .still memory points
  | hop sync memory points => exact .sync (code_syncs sync) memory points
  | read arrives code result memory points =>
      exact .read arrives (code_reads code result) (client_call code result) memory points
  | act arrives code result points => exact .write arrives (code_writes code result) points
  | create code dormant different result points =>
      obtain ⟨here, rfl, ⟨tid, same, memory, rfl⟩ | ⟨none, _⟩⟩ := fork_result code result
      · cases same
        exact .create here (of_decide_eq_true dormant) different memory points
      · cases none
  | createFails code result points =>
      obtain ⟨here, _, ⟨_, none, _⟩ | ⟨_, memory, rfl⟩⟩ := fork_result code result
      · cases none
      · exact .createFails here memory points

/-- A region of the code that threads enter by a call only. -/
structure Region (inside : Pc → Bool) : Prop where
  sync : ∀ {pc next}, Syncs pc next → inside next = true → inside pc = true
  read : ∀ {ι : Type} {memory : Memory ι} {pc next}, Reads memory pc next →
    (∃ last, pc = .client last) ∨ (inside next = true → inside pc = true)
  write : ∀ {ι : Type} [DecidableEq ι] {me : ι} {memory after : Memory ι} {pc next},
    Writes me memory pc after next → inside next = true → inside pc = true
  undo : inside (.enable .undo) = true → inside (.enable .create) = true
  client : inside (.client none) = false
  aging : inside (.aging .start) = false

/-- The call by which a thread has entered a region. -/
theorem Region.entered [Fintype ι] {inside : Pc → Bool} (region : Region inside)
    {config final : PoolConfig ι} {label : Label ι Input} {i : ι} (moves : Moves pool config label final)
    (outside : inside (config.point i) = false) (enters : inside (final.point i) = true) :
    ∃ call, label = .run i (.call call) ∧ final.point i = call.entry := by
  have mover : ∀ {k next}, final.point = Function.update config.point k next →
      i = k ∧ final.point i = next ∧ ¬ (inside next = true → inside (config.point i) = true) := by
    intro k next points
    by_cases here : i = k
    · subst here
      rw [points, Function.update_self] at enters ⊢
      refine ⟨rfl, rfl, fun back => ?_⟩
      simp [back enters] at outside
    · rw [points, Function.update_of_ne here, outside] at enters
      cases enters
  cases moves_step moves with
  | still _ points => simp [points, outside] at enters
  | sync syncs _ points =>
      obtain ⟨rfl, _, stays⟩ := mover points
      exact absurd (region.sync syncs) stays
  | read arrives reads calls _ points =>
      obtain ⟨rfl, arrived, stays⟩ := mover points
      rcases region.read reads with ⟨last, client⟩ | back
      · obtain ⟨call, rfl, rfl⟩ := calls last client
        exact ⟨call, rfl, arrived⟩
      · exact absurd (fun there => (arrives_behind arrives).reflects region.sync (back there)) stays
  | write arrives writes points =>
      obtain ⟨rfl, _, stays⟩ := mover points
      have back := region.write writes
      exact absurd (fun there => (arrives_behind arrives).reflects region.sync (back there)) stays
  | create _ _ _ _ points =>
      rw [points, Function.update_apply, Function.update_apply] at enters
      split at enters
      case isTrue => simp [region.client] at enters
      case isFalse =>
        split at enters
        case isTrue => simp [region.aging] at enters
        case isFalse => simp [outside] at enters
  | createFails here _ points =>
      obtain ⟨rfl, _, stays⟩ := mover points
      rw [here] at stays
      exact absurd region.undo stays

end ThreadPool.Pool
