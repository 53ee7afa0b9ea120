import ThreadPool.Foundation.Sleepers
import ThreadPool.Pool.NotEmpty
import ThreadPool.Pool.Resuming

namespace ThreadPool.Pool

open Foundation

/-! # Wake-ups of threads that have to stop

`thread_pool_destroy` broadcasts `not_empty` under `mutex` behind its store of `shutdown`,
and `thread_pool_disable_aging` signals `aging_cond` under `aging_mutex` behind its store of
`aging_enable`. The sleepers test the flags under these mutexes, so none of them is missed.
-/

/-- The sleeps of the pool: point, condition variable, mutex and the point behind. -/
inductive SleepsAt : Pc → Cond → Mutex → Pc → Prop
  | workerPaused : SleepsAt (.worker .pauseWait) .pauseCond .pauseMutex (.worker .pauseTest)
  | workerIdle : SleepsAt (.worker .popWait) .notEmpty .pqMutex (.worker .popTest)
  | drain (caller) : SleepsAt (.drain caller .wait) .drainCond .drainMutex (.drain caller .test)
  | agingPaused : SleepsAt (.aging .pauseWait) .pauseCond .pauseMutex (.aging .pauseTest)
  | agingIdle : SleepsAt (.aging .timedWait) .agingCond .agingMutex (.aging .passStart)

/-- A call of `thread_pool_destroy` that has not woken the workers yet. -/
def Pc.owesExit : Pc → Bool
  | .destroy .storePaused => true
  | .destroy .spin => true
  | .wakeAll .destroy .lock => true
  | .wakeAll .destroy .broadcast => true
  | _ => false

/-- A call of `thread_pool_disable_aging` that has not signalled the aging thread yet. -/
def Pc.owesAging : Pc → Bool
  | .disable _ .lock => true
  | .disable _ .signal => true
  | _ => false

section Transitions

variable {ι : Type} [DecidableEq ι] {me : ι} {memory after : Memory ι} {pc access next : Pc} {cond : Cond}
  {mutex : Mutex}

theorem code_sleeps (wait : code me pc = .wait cond mutex next) : SleepsAt pc cond mutex next := by
  cases pc <;> (try (rename_i pc; cases pc)) <;> cases wait <;> constructor

theorem pool_tests : (pool : Program ι Mutex Cond (Memory ι) Pc Input).Tests := by
  intro i before cond mutex point wait other own next again
  cases code_sleeps wait <;> cases again

theorem writes_exit (writes : Writes me memory pc after next) :
    (after.shutdown = true → memory.shutdown = true ∨ next.owesExit = true) ∧
      (pc.owesExit = true → next.owesExit = true) := by
  cases writes <;> refine ⟨fun stopped => ?_, fun owed => ?_⟩ <;>
    first | exact .inl stopped | exact .inr rfl | rfl | cases owed

omit [DecidableEq ι] in
theorem reads_exit (reads : Reads memory pc next) (owed : pc.owesExit = true) : next.owesExit = true := by
  cases reads <;> first | rfl | cases owed

theorem syncs_exit (syncs : Syncs pc next) (owed : pc.owesExit = true) :
    next.owesExit = true ∨ (pc = .wakeAll .destroy .broadcast ∧ next = .wakeAll .destroy .unlock) := by
  cases syncs with
  | wakeAllLock caller =>
      cases caller with
      | pause => cases owed
      | destroy => exact .inl rfl
  | wakeAllBroadcast caller =>
      cases caller with
      | pause => cases owed
      | destroy => exact .inr ⟨rfl, rfl⟩
  | _ => cases owed

theorem goes_exit (goes : Goes me memory pc after next) (owed : pc.owesExit = true) :
    next.owesExit = true ∨ (pc = .wakeAll .destroy .broadcast ∧ next = .wakeAll .destroy .unlock) := by
  have behind : ∀ {access}, Behind pc access → access.owesExit = true ∨ access = .wakeAll .destroy .unlock := by
    rintro access (rfl | syncs)
    · exact .inl owed
    · exact (syncs_exit syncs owed).imp_right And.right
  cases goes with
  | sync syncs => exact syncs_exit syncs owed
  | read there reads =>
      rcases behind there with owes | rfl
      · exact .inl (reads_exit reads owes)
      · cases reads
  | write there writes =>
      rcases behind there with owes | rfl
      · exact .inl ((writes_exit writes).2 owes)
      · cases writes
  | create | createFails | created => cases owed

theorem writes_aging (writes : Writes me memory pc after next) (disabled : after.agingEnable = false) :
    memory.agingEnable = false ∨ next.owesAging = true ∨
      (pc = .enable .undo ∧ next = .client none) := by
  cases writes <;>
    first | exact .inl disabled | exact .inr (.inl rfl) | exact .inr (.inr ⟨rfl, rfl⟩) | cases disabled

theorem goes_aging (goes : Goes me memory pc after next) (owed : pc.owesAging = true) :
    next.owesAging = true ∨
      ∃ caller, pc = .disable caller .signal ∧ next = .disable caller .unlock := by
  cases goes with
  | sync syncs =>
      cases syncs with
      | disableLock caller => exact .inl rfl
      | disableSignal caller => exact .inr ⟨caller, rfl, rfl⟩
      | _ => cases owed
  | read behind reads =>
      rcases behind with rfl | syncs
      · cases reads <;> cases owed
      · cases syncs <;> cases owed <;> cases reads
  | write behind writes =>
      rcases behind with rfl | syncs
      · cases writes <;> cases owed
      · cases syncs <;> cases owed <;> cases writes
  | create | createFails | created => cases owed

/-- A worker goes to sleep on `not_empty` only if it has found `shutdown` clear. -/
theorem goes_popWait (goes : Goes me memory pc after (.worker .popWait)) : memory.shutdown = false := by
  cases goes with
  | sync syncs => cases syncs
  | read _ reads =>
      cases reads with
      | popSleep running => exact running
      | call _ _ entry => cases entry
  | write _ writes => cases writes

theorem goes_timedWait (goes : Goes me memory pc after (.aging .timedWait)) :
    memory.agingEnable = true := by
  cases goes with
  | sync syncs => cases syncs
  | read _ reads =>
      cases reads with
      | agingEnabled enabled => exact enabled
      | call _ _ entry => cases entry
  | write _ writes => cases writes

end Transitions

section Steps

variable {ι : Type} [DecidableEq ι] [Fintype ι] {config after : PoolConfig ι} {label : Label ι Input}
  {allowed : PoolConfig ι → Label ι Input → Prop} {roles : ι → Role} {idCount : Nat}

/-- While a worker sleeps on `not_empty` although `shutdown` is set, a broadcast is to come. -/
def ExitAttended (config : PoolConfig ι) : Prop :=
  config.memory.shutdown = true → (∃ j, (config.threads j).Dozes pool .notEmpty j) →
    ∃ k, (config.point k).owesExit = true

/-- While the aging thread sleeps on `aging_cond` although aging is disabled, a signal is to
come. -/
def AgingAttended (config : PoolConfig ι) : Prop :=
  config.memory.agingEnable = false → (∃ j, (config.threads j).Dozes pool .agingCond j) →
    ∃ k, (config.point k).owesAging = true

/-- The broadcast of `thread_pool_destroy` leaves no worker asleep. -/
theorem exit_paid {k : ι} (reaches : Reaches pool allowed (threadPoolInit roles idCount) config)
    (moves : Moves pool config label after) (here : config.point k = .wakeAll .destroy .broadcast)
    (there : after.point k = .wakeAll .destroy .unlock) (j : ι) :
    ¬ (after.threads j).Dozes pool .notEmpty j := by
  have ready := (reachable_waits reaches k).ready (by rw [here]; intro _ _ _ wait; cases code_sleeps wait)
  rw [here] at ready
  have held : (Pc.wakeAll .destroy .broadcast).holds .pqMutex = true := rfl
  refine moves.broadcast_rouses pool_disciplined (reachable_owned reaches) ?_ ready rfl rfl held ?_ ?_ j
  · intro i before own resume wait
    cases code_sleeps wait
    rfl
  · intro own resume wait
    cases wait
  · rw [there]
    intro same
    cases same

theorem exitAttended_step (reaches : Reaches pool allowed (threadPoolInit roles idCount) config)
    (moves : Moves pool config label after) (attended : ExitAttended config) : ExitAttended after := by
  rintro stopped ⟨j, dozes⟩
  have debt : (∃ k, (config.point k).owesExit = true) → ∃ k, (after.point k).owesExit = true := by
    rintro ⟨k, owed⟩
    refine ⟨k, ?_⟩
    rcases moves_goes moves k with same | goes
    · rwa [same]
    · refine (goes_exit goes owed).resolve_right ?_
      rintro ⟨here, there⟩
      exact exit_paid reaches moves here there j dozes
  by_cases before : config.memory.shutdown = true
  · rcases moves.dozes pool_tests (reachable_waits reaches j) dozes with
      dozed | ⟨point, mutex, next, ready, wait, advance⟩
    · exact debt (attended before ⟨j, dozed⟩)
    · cases code_sleeps wait
      rw [goes_popWait (advance_goes advance)] at before
      cases before
  · have set : ¬ after.memory.shutdown = config.memory.shutdown := fun same => before (same ▸ stopped)
    cases moves_step moves with
    | @write i access middle next _ _ arrives writes points =>
        refine ⟨i, ?_⟩
        rw [points, Function.update_self]
        exact ((writes_exit writes).1 stopped).resolve_left before
    | still memory | sync _ memory | read _ _ _ memory | create _ _ _ memory | createFails _ memory =>
        rw [memory] at set
        exact absurd rfl set

theorem reachable_exitAttended (reaches : Reaches pool allowed (threadPoolInit roles idCount) config) :
    ExitAttended config := by
  apply reaches.invariant ExitAttended
  · intro stopped
    cases stopped
  · intro config label after reached attended _ moves
    exact exitAttended_step reached moves attended

/-- An aging thread is born alone, as no other is alive while it is created. -/
theorem agingAlive_step (alone : EnablesAlone config) (moves : Moves pool config label after)
    (sole : ∀ i j, (config.point i).agingAlive = true → (config.point j).agingAlive = true → i = j)
    (i j : ι) (first : (after.point i).agingAlive = true) (second : (after.point j).agingAlive = true) :
    i = j := by
  by_cases old : ∀ k, (after.point k).agingAlive = true → (config.point k).agingAlive = true
  · exact sole i j (old i first) (old j second)
  · obtain ⟨newborn, fresh⟩ := not_forall.mp old
    obtain ⟨alive, unborn⟩ := Classical.not_imp.mp fresh
    obtain ⟨enabler, here, _⟩ := aging_born moves (Bool.eq_false_of_not_eq_true unborn) alive
    have none : ∀ k, (config.point k).agingAlive = false := fun k =>
      (alone enabler (by rw [here]; rfl) k).2
    have moved : ∀ {k next l}, after.point = Function.update config.point k next →
        (after.point l).agingAlive = true → l = k := by
      intro k next l points alive
      by_contra other
      rw [points, Function.update_of_ne other, none l] at alive
      cases alive
    cases moves_step moves with
    | still _ points =>
        rw [points, none i] at first
        cases first
    | sync _ _ points | read _ _ _ _ points | write _ _ points | createFails _ _ points =>
        rw [moved points first, moved points second]
    | @create enabler tid _ _ _ _ _ points =>
        have born : ∀ {l}, (after.point l).agingAlive = true → l = tid := by
          intro l alive
          by_contra other
          rw [points, Function.update_apply] at alive
          split at alive
          case isTrue => cases alive
          case isFalse =>
            rw [Function.update_of_ne other, none l] at alive
            cases alive
        rw [born first, born second]

theorem reachable_agingAlive (reaches : Reaches pool OneAgingThread (threadPoolInit roles idCount) config)
    (i j : ι) (first : (config.point i).agingAlive = true) (second : (config.point j).agingAlive = true) :
    i = j := by
  revert i j
  apply reaches.invariant fun config =>
    ∀ i j, (config.point i).agingAlive = true → (config.point j).agingAlive = true → i = j
  · intro i j first
    change (roles i).start.agingAlive = true at first
    cases role : roles i <;> rw [role] at first <;> cases first
  · intro config label after reached sole _ moves i j first second
    exact agingAlive_step (reachable_enablesAlone reached) moves sole i j first second

omit [Fintype ι] in
theorem dozes_agingAlive {j : ι} (waits : (config.threads j).Waits pool j)
    (dozes : (config.threads j).Dozes pool .agingCond j) : (config.point j).agingAlive = true := by
  unfold Config.point
  cases status : config.threads j with
  | ready point =>
      rw [status] at dozes
      obtain ⟨mutex, next, wait⟩ := dozes
      cases code_sleeps wait
      rfl
  | asleep cond mutex point =>
      rw [status] at dozes waits
      obtain rfl : cond = .agingCond := dozes
      obtain ⟨before, wait⟩ := waits
      cases code_sleeps wait
      rfl
  | woken =>
      rw [status] at dozes
      exact dozes.elim

/-- The signal of `thread_pool_disable_aging` leaves no aging thread asleep. -/
theorem aging_paid {k : ι} {caller : DisableCaller}
    (reaches : Reaches pool OneAgingThread (threadPoolInit roles idCount) config)
    (moves : Moves pool config label after) (here : config.point k = .disable caller .signal)
    (there : after.point k = .disable caller .unlock) (j : ι) :
    ¬ (after.threads j).Dozes pool .agingCond j := by
  have waits := reachable_waits reaches
  have ready := (waits k).ready (by rw [here]; intro _ _ _ wait; cases code_sleeps wait)
  rw [here] at ready
  have held : (Pc.disable caller .signal).holds .agingMutex = true := rfl
  refine moves.signal_rouses pool_disciplined (reachable_owned reaches) ?_ ?_ ready rfl rfl held ?_ ?_ j
  · intro i before own resume wait
    cases code_sleeps wait
    rfl
  · intro i j first second
    exact reachable_agingAlive reaches i j (dozes_agingAlive (waits i) (dozes_of_sleepsOn first))
      (dozes_agingAlive (waits j) (dozes_of_sleepsOn second))
  · intro own resume wait
    cases wait
  · rw [there]
    intro same
    cases same

theorem agingAttended_step (reaches : Reaches pool OneAgingThread (threadPoolInit roles idCount) config)
    (moves : Moves pool config label after) (attended : AgingAttended config) : AgingAttended after := by
  rintro disabled ⟨j, dozes⟩
  have waits := reachable_waits reaches
  have debt : (∃ k, (config.point k).owesAging = true) → ∃ k, (after.point k).owesAging = true := by
    rintro ⟨k, owed⟩
    refine ⟨k, ?_⟩
    rcases moves_goes moves k with same | goes
    · rwa [same]
    · refine (goes_aging goes owed).resolve_right ?_
      rintro ⟨caller, here, there⟩
      exact aging_paid reaches moves here there j dozes
  by_cases before : config.memory.agingEnable = false
  · rcases moves.dozes pool_tests (waits j) dozes with dozed | ⟨point, mutex, next, ready, wait, advance⟩
    · exact debt (attended before ⟨j, dozed⟩)
    · cases code_sleeps wait
      rw [goes_timedWait (advance_goes advance)] at before
      cases before
  · have set : ¬ after.memory.agingEnable = config.memory.agingEnable := fun same =>
      before (same ▸ disabled)
    cases moves_step moves with
    | @write i access middle next _ _ arrives writes points =>
        rcases writes_aging writes disabled with same | owed | ⟨undo, left⟩
        · exact absurd same before
        · refine ⟨i, ?_⟩
          rwa [points, Function.update_self]
        · -- a failed creation disables aging, but then there is no aging thread
          have alive := dozes_agingAlive (moves.waits waits j) dozes
          have other : j ≠ i := by
            rintro rfl
            rw [points, Function.update_self, left] at alive
            cases alive
          have enabling : (config.point i).enabling = true := by
            rcases arrives_behind arrives with here | syncs
            · rw [here, undo]
              rfl
            · rw [undo] at syncs
              generalize config.point i = pc at syncs
              cases syncs
          have dead := (reachable_enablesAlone reaches i enabling j).2
          rw [points, Function.update_of_ne other, dead] at alive
          cases alive
    | still memory | sync _ memory | read _ _ _ memory | create _ _ _ memory | createFails _ memory =>
        rw [memory] at set
        exact absurd rfl set

theorem reachable_agingAttended
    (reaches : Reaches pool OneAgingThread (threadPoolInit roles idCount) config) :
    AgingAttended config := by
  apply reaches.invariant AgingAttended
  · rintro _ ⟨j, dozes⟩
    have waits : ((threadPoolInit roles idCount).threads j).Waits pool j := trivial
    have alive : (roles j).start.agingAlive = true := dozes_agingAlive waits dozes
    cases role : roles j <;> rw [role] at alive <;> cases alive
  · intro config label after reached attended _ moves
    exact agingAttended_step reached moves attended

/-- No thread that has to stop sleeps on: a worker asleep on `not_empty` behind the store of
`shutdown` is woken by a `thread_pool_destroy` that has its broadcast before it, and an
aging thread asleep behind the store of `aging_enable` by a call with its signal before it. -/
theorem stopping_wakeups_kept
    (reaches : Reaches pool OneAgingThread (threadPoolInit roles idCount) config) :
    (config.memory.shutdown = true → (∃ i, (config.threads i).sleepsOn Cond.notEmpty = true) →
        ∃ k, (config.point k).owesExit = true) ∧
      (config.memory.agingEnable = false → (∃ i, (config.threads i).sleepsOn Cond.agingCond = true) →
        ∃ k, (config.point k).owesAging = true) := by
  refine ⟨fun stopped ⟨i, asleep⟩ => ?_, fun disabled ⟨i, asleep⟩ => ?_⟩
  · exact reachable_exitAttended reaches stopped ⟨i, dozes_of_sleepsOn asleep⟩
  · exact reachable_agingAttended reaches disabled ⟨i, dozes_of_sleepsOn asleep⟩

end Steps

/-- The worker sleeps on the empty queue when `thread_pool_destroy` sets `shutdown`. -/
theorem stopping_wakeups_kept_destroy : ∃ config : PoolConfig (Fin 3),
    Reaches pool OneAgingThread (threadPoolInit oneWorker 0) config ∧ config.memory.shutdown = true ∧
      (config.threads 0).sleepsOn Cond.notEmpty = true ∧ ∃ k, (config.point k).owesExit = true := by
  obtain ⟨config, reaches, stopped, asleep⟩ := Reaches.of_schedule pool OneAgingThread
    (threadPoolInit oneWorker 0) (List.replicate 4 (go 0) ++ [.run 1 (.call .destroy), go 1])
    (fun config => config.memory.shutdown = true ∧ (config.threads 0).sleepsOn Cond.notEmpty = true)
    (by decide +kernel)
  exact ⟨config, reaches, stopped, asleep, (stopping_wakeups_kept reaches).1 stopped ⟨0, asleep⟩⟩

end ThreadPool.Pool
