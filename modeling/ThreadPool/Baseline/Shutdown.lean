import ThreadPool.Baseline.Ledger
import ThreadPool.Foundation.Quiescence

namespace ThreadPool.Baseline

open Foundation

/-! # Shutdown of the baseline pool

Here a submit call looks at the flag before it announces itself, and the workers are woken
to leave before the announced calls are awaited. No accepted task is lost as long as
neither window is hit: the spin of `baseline_pool_shutdown` meets no call between its check
and its announcement, and the last worker leaves no call behind that may still push.
-/

/-- How far a call of `baseline_pool_shutdown` has come: it has set the flag (1), has seen
no announced submit call (2), has left its drain loop (3). -/
def Pc.shutdownStage : Pc → Nat
  | .shutdown .store => 0
  | .shutdown .join => 3
  | .shutdown .free => 3
  | .shutdown .freed => 3
  | .shutdown _ => 1
  | .drain .shutdown .unlock => 3
  | .drain .shutdown _ => 2
  | _ => 0

/-- A submit call behind its check of the flag. -/
def Pc.passed : Pc → Bool
  | .submit (.checkShutdown _) => false
  | .submit _ => true
  | _ => false

/-- A submit call between its check of the flag and its announcement. -/
def Pc.unannounced : Pc → Bool
  | .submit (.announce _) => true
  | _ => false

/-- A submit call behind its check of the flag that has not pushed yet. -/
def Pc.mayInsert : Pc → Bool
  | .submit (.announce _) => true
  | .submit (.create _) => true
  | .submit (.count _) => true
  | .submit (.lockQueue _) => true
  | .submit (.push _) => true
  | _ => false

/-- A worker that may still pop a task. -/
def Pc.canPop : Pc → Bool
  | .worker .unlockNull => false
  | .worker .exited => false
  | .worker _ => true
  | _ => false

/-- The points of `q_pop_until_shutdown` behind a failed test of the head. -/
def Pc.seesEmpty : Pc → Bool
  | .worker .popShutdown => true
  | .worker .popWait => true
  | .worker .unlockNull => true
  | _ => false

/-- The mutexes held at a program point. -/
def Pc.mutexes : Pc → List Mutex
  | .submit (.push _) => [.qMutex]
  | .submit (.unlockQueue _) => [.qMutex]
  | .worker .popTest => [.qMutex]
  | .worker .popShutdown => [.qMutex]
  | .worker .popWait => [.qMutex]
  | .worker .unlockNull => [.qMutex]
  | .worker (.unlockPopped _) => [.qMutex]
  | .worker .drainBroadcast => [.drainMutex]
  | .worker .drainUnlock => [.drainMutex]
  | .drain _ .lock => []
  | .drain _ _ => [.drainMutex]
  | .shutdown .wakeBroadcast => [.qMutex]
  | .shutdown .wakeUnlock => [.qMutex]
  | _ => []

def Pc.holds (pc : Pc) (mutex : Mutex) : Bool := decide (mutex ∈ pc.mutexes)

section Mutexes

variable {ι : Type} {memory after : Memory} {pc next : Pc} {input : Input}

theorem access_holds (body : (code pc : BaselineInstr ι).body memory input = some (after, next)) :
    next.holds = pc.holds := by
  cases code_access body <;> first | rfl | cases body

theorem read_body {choose : Memory → Input → Option Pc} (read : (code pc : BaselineInstr ι) = .read choose)
    (result : choose memory input = some next) :
    (code pc : BaselineInstr ι).body memory input = some (memory, next) := by
  rw [read]
  simp [Instr.body, result]

theorem act_body {run : Memory → Input → Option (Memory × Pc)}
    (act : (code pc : BaselineInstr ι) = .act run) (result : run memory input = some (after, next)) :
    (code pc : BaselineInstr ι).body memory input = some (after, next) := by
  rw [act]
  exact result

theorem code_respects (pc : Pc) : (code pc : BaselineInstr ι).Respects Pc.holds pc := by
  have access : (code pc : BaselineInstr ι).sync = none →
      (code pc : BaselineInstr ι).Respects Pc.holds pc := fun nosync =>
    Instr.respects_of_body (fun _ _ _ _ body => access_holds body) nosync (code_flat pc).2
  cases pc with
  | client => exact access rfl
  | drain caller pc =>
      cases pc with
      | test => exact access rfl
      | lock | wait => exact ⟨rfl, by funext other; cases other <;> rfl⟩
      | unlock => cases caller <;> exact ⟨rfl, by funext other; cases other <;> rfl⟩
  | submit pc | worker pc | shutdown pc =>
      cases pc <;> first
        | exact access rfl
        | exact ⟨rfl, by funext other; cases other <;> rfl⟩
        | rfl

theorem baseline_disciplined :
    Disciplined (baseline : Program ι Mutex Cond Memory Pc Input) Pc.holds :=
  .of_respects (fun _ pc => code_respects pc) nofun

theorem init_owned (roles : ι → Role) : Owned Pc.holds (baselinePoolInit roles) where
  owner i mutex := by
    constructor
    · nofun
    · intro held
      change (roles i).start.holds mutex = true at held
      cases role : roles i <;> rw [role] at held <;> cases mutex <;> cases held
  parked := nofun

/-- Only the holder of `q_mutex` changes the head. -/
theorem access_head (body : (code pc : BaselineInstr ι).body memory input = some (after, next))
    (outside : pc.holds .qMutex ≠ true) : after.queue.head = memory.queue.head := by
  cases code_access body with
  | push | pop => exact absurd rfl outside
  | _ => rfl

theorem access_seesEmpty (body : (code pc : BaselineInstr ι).body memory input = some (after, next))
    (before : pc.seesEmpty = true → memory.queue.head = none) (sees : next.seesEmpty = true) :
    after.queue.head = none := by
  cases code_access body with
  | popEmpty empty => exact empty
  | popNull | popSleep => exact before rfl
  | _ => cases sees

theorem sync_seesEmpty (sync : (code pc : BaselineInstr ι).sync = some next) :
    next.seesEmpty = false := by
  cases pc with
  | drain caller pc =>
      cases pc <;> cases sync <;> first | rfl | (cases caller <;> rfl)
  | client => cases sync
  | submit pc | worker pc | shutdown pc => cases pc <;> cases sync <;> rfl

theorem seesEmpty_holds (sees : pc.seesEmpty = true) : pc.holds .qMutex = true := by
  cases pc with
  | worker pc => cases pc <;> first | rfl | cases sees
  | _ => cases sees

def seenEmpty (_ : ι) (pc : Pc) (memory : Memory) : Prop :=
  pc.seesEmpty = true → memory.queue.head = none

theorem pop_outline :
    Outline (baseline : Program ι Mutex Cond Memory Pc Input) Pc.holds (fun _ => True) seenEmpty where
  read _ seen read result := access_seesEmpty (read_body read result) seen
  act _ seen act result := ⟨trivial, access_seesEmpty (act_body act result) seen⟩
  sync _ sync _ sees := by
    rw [sync_seesEmpty sync] at sees
    cases sees
  wait wait _ sees := by
    rw [sync_seesEmpty (congrArg Instr.sync wait)] at sees
    cases sees
  fork _ fork := absurd fork ((baseline_flat _ _).2 _ _)
  stable _ _ _ seen apart act result sees := by
    rw [access_head (act_body act result), seen sees]
    intro held
    exact apart .qMutex ⟨held, seesEmpty_holds sees⟩
  stableFork _ _ _ fork := absurd fork ((baseline_flat _ _).2 _ _)

variable [DecidableEq ι] [Fintype ι]

/-- A worker behind its test of the head faces an empty queue. -/
theorem reachable_seenEmpty {allowed : BaselineConfig ι → Label ι Input → Prop} {roles : ι → Role}
    {config : BaselineConfig ι} {i : ι}
    (reaches : Reaches baseline allowed (baselinePoolInit roles) config)
    (sees : (config.point i).seesEmpty = true) : config.memory.queue.head = none := by
  have initial : Outlined (fun _ => True) seenEmpty (baselinePoolInit roles) :=
    ⟨trivial, fun _ _ => rfl, nofun⟩
  have outlined := reaches.outlined baseline_disciplined pop_outline (init_owned roles) initial
  exact outlined.assertion i sees

end Mutexes

section Transitions

variable {memory after : Memory} {pc next : Pc}

/-- The three steps with which `baseline_pool_shutdown` comes further. -/
theorem steps_stage (steps : Steps memory pc after next) :
    next.shutdownStage = pc.shutdownStage ∨ (next.shutdownStage = 1 ∧ after.shutdown = true) ∨
      (pc = .shutdown .spin ∧ next.shutdownStage = 2 ∧ memory.inFlightSubmits = 0) ∨
      (pc.shutdownStage = 2 ∧ next.shutdownStage = 3 ∧ memory.totalTaskInSystem = 0) := by
  cases steps with
  | store => exact .inr (.inl ⟨rfl, rfl⟩)
  | quiet none => exact .inr (.inr (.inl ⟨rfl, rfl, none⟩))
  | drained caller none =>
      cases caller with
      | wait => exact .inl rfl
      | shutdown => exact .inr (.inr (.inr ⟨rfl, rfl, none⟩))
  | waiterLock caller | undrained caller | waiterSleep caller => cases caller <;> exact .inl rfl
  | _ => exact .inl rfl

theorem steps_shutdown (steps : Steps memory pc after next) (flagged : memory.shutdown = true) :
    after.shutdown = true := by
  cases steps with
  | store => rfl
  | _ => exact flagged

/-- A submit call passes its check only while the flag is clear. -/
theorem steps_passed (steps : Steps memory pc after next) (passed : next.passed = true) :
    pc.passed = true ∨ memory.shutdown = false := by
  cases steps with
  | pass args running => exact .inr running
  | _ => first | exact .inl rfl | cases passed

theorem steps_mayInsert (steps : Steps memory pc after next) (may : next.mayInsert = true) :
    pc.mayInsert = true ∨ memory.shutdown = false := by
  cases steps with
  | pass args running => exact .inr running
  | _ => first | exact .inl rfl | cases may

/-- Without calls past their check nothing more is counted. -/
theorem steps_counted (steps : Steps memory pc after next) (outside : pc.passed = false) :
    after.waiting + next.counted ≤ memory.waiting + pc.counted := by
  cases steps with
  | call task =>
      simp only [Memory.waiting, Pc.counted, List.length_cons]
      omega
  | decrement | decrementLast =>
      simp only [Memory.waiting, Memory.addTotal, Pc.counted]
      omega
  | _ => first | exact le_rfl | cases outside

theorem steps_head (steps : Steps memory pc after next) (outside : pc.mayInsert = false)
    (empty : memory.queue.head = none) : after.queue.head = none := by
  cases steps with
  | push => cases outside
  | pop task queue popped => simp [Queue.qPop, empty] at popped
  | _ => exact empty

/-- A worker stops popping only when it loads the flag behind a failed test of the head. -/
theorem steps_canPop (steps : Steps memory pc after next) (can : pc.canPop = true)
    (gone : next.canPop = false) :
    pc = .worker .popShutdown ∧ memory.shutdown = true ∧ after = memory ∧
      next = .worker .unlockNull := by
  cases steps with
  | popNull stopped => exact ⟨rfl, stopped, rfl, rfl⟩
  | _ => simp [Pc.canPop] at can gone

theorem passed_inFlight (passed : pc.passed = true) :
    pc.unannounced = true ∨ pc.inFlight = 1 := by
  cases pc with
  | submit pc => cases pc <;> first | exact .inl rfl | exact .inr rfl | cases passed
  | _ => cases passed

end Transitions

section Reachable

variable {ι : Type} [DecidableEq ι] [Fintype ι] {config after : BaselineConfig ι}
  {label : Label ι Input} {allowed : BaselineConfig ι → Label ι Input → Prop} {roles : ι → Role}

/-- The counters are in the range in which they are exact. -/
def Countable (config : BaselineConfig ι) : Prop :=
  tasksInSystem config < 2 ^ 31 ∧ submitsInFlight config < 2 ^ 31

/-- The spin ends only when no submit call is between its check and its announcement. -/
def SpinMeetsAll (config : BaselineConfig ι) (label : Label ι Input) : Prop :=
  config.point label.thread = .shutdown .spin → config.memory.inFlightSubmits = 0 →
    ∀ j, (config.point j).unannounced = false

/-- The last worker that could still pop does not take the null result while a submit
call may still push. -/
def LastWorkerStays (config : BaselineConfig ι) (label : Label ι Input) : Prop :=
  config.point label.thread = .worker .popShutdown → config.memory.shutdown = true →
    (∀ j, j ≠ label.thread → (config.point j).canPop = false) →
    ∀ j, (config.point j).mayInsert = false

def Orderly (config : BaselineConfig ι) (label : Label ι Input) : Prop :=
  Countable config ∧ SpinMeetsAll config label ∧ LastWorkerStays config label

instance (config : BaselineConfig ι) (label : Label ι Input) : Decidable (Orderly config label) :=
  inferInstanceAs (Decidable ((tasksInSystem config < 2 ^ 31 ∧ submitsInFlight config < 2 ^ 31) ∧
    (config.point label.thread = .shutdown .spin → config.memory.inFlightSubmits = 0 →
      ∀ j, (config.point j).unannounced = false) ∧
    (config.point label.thread = .worker .popShutdown → config.memory.shutdown = true →
      (∀ j, j ≠ label.thread → (config.point j).canPop = false) →
      ∀ j, (config.point j).mayInsert = false)))

/-- What holds once a call of `baseline_pool_shutdown` has come to a stage. -/
structure Quiescing (config : BaselineConfig ι) : Prop where
  flagged : ∀ i, 1 ≤ (config.point i).shutdownStage → config.memory.shutdown = true
  quiet : ∀ i, 2 ≤ (config.point i).shutdownStage → ∀ j, (config.point j).passed = false
  drained : ∀ i, 3 ≤ (config.point i).shutdownStage → tasksInSystem config = 0

omit [Fintype ι] in
theorem moves_shutdown (moves : Moves baseline config label after)
    (flagged : config.memory.shutdown = true) : after.memory.shutdown = true := by
  rcases moves_steps moves with ⟨memory, _⟩ | ⟨_, steps, _⟩
  · rw [memory, flagged]
  · exact steps_shutdown steps flagged

omit [Fintype ι] in
/-- Points that a thread reaches only while the flag is clear. -/
theorem moves_enters {inside : Pc → Bool}
    (enters : ∀ {memory pc after next}, Steps memory pc after next → inside next = true →
      inside pc = true ∨ memory.shutdown = false)
    (moves : Moves baseline config label after) (j : ι) (here : inside (after.point j) = true) :
    inside (config.point j) = true ∨ config.memory.shutdown = false := by
  rcases moves_steps moves with ⟨_, points⟩ | ⟨next, steps, points⟩
  · exact .inl (by rwa [← points])
  by_cases mover : j = label.thread
  · subst mover
    rw [points, Function.update_self] at here
    exact enters steps here
  · rw [points, Function.update_of_ne mover] at here
    exact .inl here

theorem moves_drained (reaches : Reaches baseline allowed (baselinePoolInit roles) after)
    (moves : Moves baseline config label after) (quiet : ∀ j, (config.point j).passed = false)
    (none : tasksInSystem config = 0) : tasksInSystem after = 0 := by
  have bound : tasksInSystem after ≤ tasksInSystem config := by
    rw [tasksInSystem, tasksInSystem]
    rcases moves_steps moves with ⟨memory, points⟩ | ⟨next, steps, points⟩
    · rw [memory, total_still Pc.counted points]
    · obtain ⟨rest, before, later⟩ := total_moved Pc.counted points
      have counted := steps_counted steps (quiet label.thread)
      rw [before, later]
      push_cast
      omega
  obtain ⟨tasks, sound⟩ := reachable_sound reaches
  have waiting := waiting_eq sound
  rw [tasksInSystem] at bound ⊢
  omega

/-- When the spin ends under the condition, no submit call is behind its check. -/
theorem none_passed (reaches : Reaches baseline allowed (baselinePoolInit roles) config)
    (few : submitsInFlight config < 2 ^ 31) (zero : config.memory.inFlightSubmits = 0)
    (met : ∀ j, (config.point j).unannounced = false) (j : ι) : (config.point j).passed = false := by
  have counter := reachable_inFlight reaches
  rw [zero, wrap_of_range_32 (by omega) (by omega)] at counter
  have none : submitsInFlight config = 0 := by omega
  have mine : (config.point j).inFlight = 0 :=
    Finset.sum_eq_zero_iff.mp none j (Finset.mem_univ j)
  cases passed : (config.point j).passed with
  | false => rfl
  | true =>
      rcases passed_inFlight passed with early | announced
      · rw [met j] at early
        cases early
      · omega

/-- The shutdown of the pool in stages. -/
def quiescence (config : BaselineConfig ι) : Quiescence ι where
  stage i := (config.point i).shutdownStage
  flag := config.memory.shutdown
  inside j := (config.point j).passed
  drained := tasksInSystem config = 0

theorem moves_quiescence (reached : Reaches baseline allowed (baselinePoolInit roles) config)
    (reaches : Reaches baseline allowed (baselinePoolInit roles) after)
    (orderly : Orderly config label) (moves : Moves baseline config label after) :
    Quiescence.Step (quiescence config) (quiescence after) where
  stages i := by
    have ⟨⟨fewTasks, fewSubmits⟩, meets, _⟩ := orderly
    rcases moves_steps moves with ⟨_, points⟩ | ⟨next, steps, points⟩
    · exact .inl (by simp only [quiescence, points])
    by_cases here : i = label.thread
    · subst here
      simp only [quiescence, points, Function.update_self]
      rcases steps_stage steps with same | first | ⟨spin, second, zero⟩ | ⟨before, third, zero⟩
      · exact .inl same
      · exact .inr (.inl first)
      · refine .inr (.inr (.inl ⟨by rw [spin]; rfl, second, ?_⟩))
        exact none_passed reached fewSubmits zero (meets spin zero)
      · refine .inr (.inr (.inr ⟨before, third, ?_⟩))
        obtain ⟨tasks, sound⟩ := reachable_sound reached
        have waiting := waiting_eq sound
        have counter := reachable_total reached
        have nonneg : 0 ≤ tasksInSystem config := by rw [tasksInSystem]; omega
        rw [zero, wrap_of_range_32 (by omega) (by omega)] at counter
        exact counter.symm
    · exact .inl (by simp only [quiescence, points, Function.update_of_ne here])
  flag := moves_shutdown moves
  enters := moves_enters steps_passed moves
  settles := moves_drained reaches moves

theorem quiescing_step (reached : Reaches baseline allowed (baselinePoolInit roles) config)
    (reaches : Reaches baseline allowed (baselinePoolInit roles) after)
    (orderly : Orderly config label) (moves : Moves baseline config label after)
    (quiescing : Quiescing config) : Quiescing after := by
  have staged := (moves_quiescence reached reaches orderly moves).staged
    ⟨quiescing.flagged, quiescing.quiet, quiescing.drained⟩
  exact ⟨staged.flagged, staged.quiet, staged.drained⟩

theorem reachable_quiescing (reaches : Reaches baseline Orderly (baselinePoolInit roles) config) :
    Quiescing config := by
  induction reaches with
  | refl =>
      have start : ∀ i, ((baselinePoolInit roles).point i).shutdownStage = 0 := by
        intro i
        change (roles i).start.shutdownStage = 0
        cases roles i <;> rfl
      constructor <;> intro i far <;> simp [start] at far
  | step reached orderly stepped quiescing =>
      exact quiescing_step reached (reached.step orderly stepped) orderly (step_moves stepped)
        quiescing

/-- What the last worker must leave behind. -/
structure Abandoned (config : BaselineConfig ι) : Prop where
  flagged : config.memory.shutdown = true
  empty : config.memory.queue.head = none
  quiet : ∀ j, (config.point j).mayInsert = false

omit [Fintype ι] in
theorem abandoned_step (moves : Moves baseline config label after) (abandoned : Abandoned config) :
    Abandoned after where
  flagged := moves_shutdown moves abandoned.flagged
  empty := by
    rcases moves_steps moves with ⟨memory, _⟩ | ⟨_, steps, _⟩
    · rw [memory, abandoned.empty]
    · exact steps_head steps (abandoned.quiet label.thread) abandoned.empty
  quiet := Quiescence.none_enters (moves_enters steps_mayInsert moves) abandoned.flagged abandoned.quiet

/-- The last worker that leaves under the condition abandons nothing. -/
theorem abandoned_of_last {i : ι} (reaches : Reaches baseline allowed (baselinePoolInit roles) config)
    (stays : LastWorkerStays config label) (moves : Moves baseline config label after)
    (can : (config.point i).canPop = true) (none : ∀ j, (after.point j).canPop = false) :
    Abandoned after := by
  have left := none i
  rcases moves_steps moves with ⟨_, points⟩ | ⟨next, steps, points⟩
  · rw [points, can] at left
    cases left
  · by_cases here : i = label.thread
    · subst here
      rw [points, Function.update_self] at left
      obtain ⟨point, stopped, memory, rfl⟩ := steps_canPop steps can left
      have others : ∀ j, j ≠ label.thread → (config.point j).canPop = false := by
        intro j different
        have gone := none j
        rwa [points, Function.update_of_ne different] at gone
      have quiet := stays point stopped others
      constructor
      · rw [memory, stopped]
      · rw [memory]
        exact reachable_seenEmpty reaches (i := label.thread) (by rw [point]; rfl)
      · intro j
        by_cases same : j = label.thread
        · rw [points, same, Function.update_self]
          rfl
        · rw [points, Function.update_of_ne same, quiet j]
    · rw [points, Function.update_of_ne here, can] at left
      cases left

theorem reachable_abandoned {worker : ι} (isWorker : roles worker = .worker)
    (reaches : Reaches baseline Orderly (baselinePoolInit roles) config)
    (none : ∀ i, (config.point i).canPop = false) : Abandoned config := by
  have start : ((baselinePoolInit roles).point worker).canPop = true := by
    change (roles worker).start.canPop = true
    rw [isWorker]
    rfl
  exact reaches.last_leaves Pc.canPop Abandoned start
    (fun reached orderly moves can none => abandoned_of_last reached orderly.2.2 moves can none)
    (fun _ abandoned moves => abandoned_step moves abandoned) none

/-- In an orderly run of a pool with a worker: behind the spin of `baseline_pool_shutdown`
no submit call is past its check, so each one that returned 0 has pushed its task before;
behind the drain loop, and so when the pool is freed, every such task was called and
completed once; and when all workers have left, the queue is empty. -/
theorem baseline_drops_no_task (worker : ι) (isWorker : roles worker = .worker)
    (reaches : Reaches baseline Orderly (baselinePoolInit roles) config) :
    (∀ task ∈ config.memory.journal.returned, task ∈ config.memory.journal.accepted) ∧
    (∀ i, 2 ≤ (config.point i).shutdownStage → ∀ j, (config.point j).passed = false) ∧
    (∀ i, (config.point i).shutdownStage = 3 → ∀ task ∈ config.memory.journal.returned,
      config.memory.journal.called.count task = 1 ∧
        config.memory.journal.completed.count task = 1) ∧
    ((∀ i, (config.point i).liveWorker = false) → config.memory.queue.head = none) := by
  have quiescing := reachable_quiescing reaches
  refine ⟨?_, quiescing.quiet, ?_, ?_⟩
  · intro task returned
    obtain ⟨tasks, sound⟩ := reachable_sound reaches
    have split : (config.memory.journal.accepted : Multiset Addr) =
        config.memory.journal.returned + config.total Pc.share .returning := sound.balanced.returned
    rw [← Multiset.mem_coe, split]
    simp [returned]
  · intro i drained task returned
    exact settled reaches (quiescing.drained i drained.ge) returned
  · intro left
    refine (reachable_abandoned isWorker reaches fun i => ?_).empty
    have gone := left i
    generalize config.point i = pc at gone
    cases pc with
    | worker pc => cases pc <;> first | rfl | cases gone
    | _ => rfl

end Reachable

def go {ι : Type} (i : ι) : Label ι Input := .run i .none

/-- Thread 0 is a worker, the others make calls. -/
def oneWorker : Fin 3 → Role
  | 0 => .worker
  | _ => .client

/-- A submit call up to its check of the flag, and behind it. -/
def checkSteps (i : Fin 3) : List (Label (Fin 3) Input) := [.run i (.call (.submit ⟨1, 0⟩)), go i]

def pushSteps (i : Fin 3) : List (Label (Fin 3) Input) :=
  [go i, .run i (.alloc true), go i, go i, go i, go i, .pick i none, go i]

theorem baseline_drops_no_task_single : ∃ config : BaselineConfig (Fin 3),
    Reaches baseline Orderly (baselinePoolInit oneWorker) config ∧
      config.point 2 = .shutdown .freed ∧ config.memory.journal.returned = [0] ∧
      config.memory.journal.completed.count 0 = 1 ∧ config.memory.queue.head = none := by
  obtain ⟨config, reaches, freed, returned, left⟩ := Reaches.of_schedule baseline Orderly
    (baselinePoolInit oneWorker)
    (checkSteps 1 ++ pushSteps 1 ++ List.replicate 10 (go 0) ++ [.run 2 (.call .shutdown)] ++
      List.replicate 8 (go 2) ++ List.replicate 4 (go 0) ++ [go 2, go 2])
    (fun config => config.point 2 = .shutdown .freed ∧ config.memory.journal.returned = [0] ∧
      ∀ i, (config.point i).liveWorker = false) (by decide)
  obtain ⟨_, _, done, empty⟩ := baseline_drops_no_task 0 rfl reaches
  exact ⟨config, reaches, freed, returned,
    (done 2 (by rw [freed]; rfl) 0 (by simp [returned])).2, empty left⟩

/-- A submit call passes its check; the flag is set, the only worker leaves, and shutdown
sees neither an announced call nor a task. The call then announces itself, pushes its task
and returns 0, and the pool is freed with the task still in its queue. -/
theorem baseline_drops_late_task : ∃ config : BaselineConfig (Fin 3),
    Reaches baseline (fun _ _ => True) (baselinePoolInit oneWorker) config ∧
      config.point 2 = .shutdown .freed ∧ config.point 1 = .client (some 0) ∧
      (∀ i, (config.point i).liveWorker = false) ∧ config.memory.journal.returned = [0] ∧
      config.memory.journal.called = [] ∧ config.memory.queue.head = some 0 :=
  Reaches.of_schedule baseline (fun _ _ => True) (baselinePoolInit oneWorker)
    (checkSteps 1 ++ [.run 2 (.call .shutdown)] ++ List.replicate 8 (go 2) ++
      List.replicate 4 (go 0) ++ pushSteps 1 ++ [go 2, go 2])
    (fun config => config.point 2 = .shutdown .freed ∧ config.point 1 = .client (some 0) ∧
      (∀ i, (config.point i).liveWorker = false) ∧ config.memory.journal.returned = [0] ∧
      config.memory.journal.called = [] ∧ config.memory.queue.head = some 0) (by decide)

end ThreadPool.Baseline
