import ThreadPool.Pool.PopSection
import ThreadPool.Pool.Shutdown

namespace ThreadPool.Pool

open Foundation

/-! # Tasks behind the last worker

A worker leaves when it finds the flag set and the queue empty. A submit call that has
passed its check of the flag may still insert, so the last worker leaves a task behind
unless it stays until those calls have pushed.
-/

/-- A worker that may still pop a task. -/
def Pc.canPop : Pc → Bool
  | .worker .unlockNull => false
  | .worker .exited => false
  | .worker _ => true
  | _ => false

/-- A submit call behind its check of the flag whose push is still to be decided. -/
def Pc.mayInsert : Pc → Bool
  | .submit (.loadMax _) => true
  | .submit (.loadDepth ..) => true
  | .submit (.create _) => true
  | .submit (.count _) => true
  | .submit (.checkAging _) => true
  | .submit (.stamp _) => true
  | .submit (.lockQueue _) => true
  | .submit (.loadCap _) => true
  | .submit (.insert ..) => true
  | _ => false

section Transitions

variable {ι : Type} [DecidableEq ι] {me : ι} {memory after : Memory ι} {pc access next : Pc}

theorem syncs_canPop (syncs : Syncs pc next) (can : pc.canPop = true) : next.canPop = true := by
  cases syncs <;> first | rfl | cases can

omit [DecidableEq ι] in
theorem reads_canPop (reads : Reads memory pc next) (can : pc.canPop = true)
    (gone : next.canPop = false) :
    pc = .worker .popShutdown ∧ next = .worker .unlockNull ∧ memory.shutdown = true := by
  cases reads with
  | popNull stopped => exact ⟨rfl, rfl, stopped⟩
  | topPaused | topRunning | stillPaused | resumed | popSleep => cases gone
  | _ => cases can

theorem writes_canPop (writes : Writes me memory pc after next) (can : pc.canPop = true) :
    next.canPop = true := by
  cases writes <;> first | rfl | cases can

theorem syncs_mayInsert (syncs : Syncs pc next) : next.mayInsert = pc.mayInsert := by
  cases syncs <;> rfl

theorem goes_mayInsert (goes : Goes me memory pc after next) (may : next.mayInsert = true) :
    pc.mayInsert = true ∨ memory.shutdown = false := by
  cases goes with
  | sync syncs => exact .inl (by rw [← syncs_mayInsert syncs, may])
  | read behind reads =>
      rw [← behind.same syncs_mayInsert]
      cases reads with
      | pass args running => exact .inr running
      | call _ _ entry => cases entry <;> cases may
      | unbounded | bounded | shallow | aged | unaged | loadCap => exact .inl rfl
      | _ => cases may
  | write behind writes =>
      rw [← behind.same syncs_mayInsert]
      cases writes with
      | create | count | stamp => exact .inl rfl
      | _ => cases may
  | create | createFails | created => cases may

/-- Only an insertion makes the queue longer. -/
theorem writes_size {lanes : Lanes Priority Addr} (writes : Writes me memory pc after next)
    (represents : memory.pq.Represents lanes) (outside : pc.mayInsert = false) :
    after.pq.size ≤ memory.pq.size := by
  cases writes with
  | insert => cases outside
  | pop task pq ready popped =>
      have size := (pop_counts represents ready popped).1
      exact Nat.le.intro size.symm
  | promote scan promoteMs now promoted pq result =>
      exact (promote_counts represents (by cases scan <;> decide) result).1.le
  | destroyQueue tasks pq result =>
      simp [(destroy_size represents result).1]
  | _ => exact le_rfl

end Transitions

section Reachable

variable {ι : Type} [DecidableEq ι] [Fintype ι] {config after : PoolConfig ι} {label : Label ι Input}
  {allowed : PoolConfig ι → Label ι Input → Prop} {roles : ι → Role} {idCount : Nat}

/-- The last worker that could still pop does not take the null result while a submit
call may still insert. -/
def LastWorkerStays (config : PoolConfig ι) : Label ι Input → Prop
  | .run i _ => config.point i = .worker .popShutdown → config.memory.shutdown = true →
      (∀ j, j ≠ i → (config.point j).canPop = false) → ∀ j, (config.point j).mayInsert = false
  | _ => True

instance : ∀ label, Decidable (LastWorkerStays config label)
  | .run i _ => inferInstanceAs (Decidable (config.point i = .worker .popShutdown →
      config.memory.shutdown = true → (∀ j, j ≠ i → (config.point j).canPop = false) →
      ∀ j, (config.point j).mayInsert = false))
  | .pick .. => inferInstanceAs (Decidable True)
  | .wake _ => inferInstanceAs (Decidable True)

/-- A worker stops popping only when it loads the flag behind a failed test of the mask. -/
theorem moves_stops_popping {i : ι} (moves : Moves pool config label after)
    (can : (config.point i).canPop = true) (gone : (after.point i).canPop = false) :
    ∃ input, label = .run i input ∧ config.point i = .worker .popShutdown ∧
      config.memory.shutdown = true ∧ after.memory = config.memory ∧
      after.point = Function.update config.point i (.worker .unlockNull) := by
  have moved : ∀ {k next}, after.point = Function.update config.point k next →
      i = k ∧ next.canPop = false := by
    intro k next points
    by_cases here : i = k
    · subst here
      rw [points, Function.update_self] at gone
      exact ⟨rfl, gone⟩
    · rw [points, Function.update_of_ne here, can] at gone
      cases gone
  cases moves.change with
  | still _ points =>
      rw [points, can] at gone
      cases gone
  | hop sync _ points =>
      obtain ⟨rfl, left⟩ := moved points
      rw [syncs_canPop (code_syncs sync) can] at left
      cases left
  | @read k access middle input choose next after arrives code result memory points =>
      obtain ⟨rfl, left⟩ := moved points
      have behind := arrives_behind arrives
      obtain ⟨rfl, rfl, stopped⟩ :=
        reads_canPop (code_reads code result) (behind.keeps syncs_canPop can) left
      refine ⟨input, rfl, ?_, stopped, memory, points⟩
      rcases behind with same | syncs
      · exact same
      · generalize config.point i = pc at syncs
        cases syncs
  | act arrives code result points =>
      obtain ⟨rfl, left⟩ := moved points
      have behind := arrives_behind arrives
      rw [writes_canPop (code_writes code result) (behind.keeps syncs_canPop can)] at left
      cases left
  | @create k start choose child final after code dormant different result points =>
      have forker : config.point k = .enable .create := (fork_result code result).1
      have idle : config.point child = .dormant := of_decide_eq_true dormant
      have notForker : i ≠ k := by
        intro same
        rw [same, forker] at can
        cases can
      have notChild : i ≠ child := by
        intro same
        rw [same, idle] at can
        cases can
      rw [points, Function.update_of_ne notForker, Function.update_of_ne notChild, can] at gone
      cases gone
  | createFails code result points =>
      obtain ⟨rfl, _⟩ := moved points
      rw [(fork_result code result).1] at can
      cases can

/-- What the last worker must leave behind. -/
structure Abandoned (config : PoolConfig ι) : Prop where
  flagged : config.memory.shutdown = true
  empty : config.memory.pq.size = 0
  quiet : ∀ j, (config.point j).mayInsert = false

theorem abandoned_step (reaches : Reaches pool allowed (threadPoolInit roles idCount) config)
    (moves : Moves pool config label after) (abandoned : Abandoned config) : Abandoned after := by
  constructor
  · exact moves_shutdown moves abandoned.flagged
  · rcases moves_holding (fun _ => 0) moves with
      ⟨memory, _⟩ | ⟨i, pc, next, _, behind, writes, _⟩ | ⟨_, memory, _⟩
    · rw [memory, abandoned.empty]
    · obtain ⟨lanes, books⟩ := reachable_balanced reaches
      have outside : pc.mayInsert = false := by rw [behind.same syncs_mayInsert, abandoned.quiet i]
      have size := writes_size writes books.represents outside
      rw [abandoned.empty] at size
      exact Nat.le_zero.mp size
    · rw [memory]
      exact abandoned.empty
  · exact Quiescence.none_enters (moves_enters goes_mayInsert moves) abandoned.flagged abandoned.quiet

/-- The last worker that leaves under the condition abandons nothing. -/
theorem abandoned_of_last {i : ι} (reaches : Reaches pool allowed (threadPoolInit roles idCount) config)
    (stays : LastWorkerStays config label) (moves : Moves pool config label after)
    (can : (config.point i).canPop = true) (none : ∀ j, (after.point j).canPop = false) :
    Abandoned after := by
  obtain ⟨input, rfl, point, stopped, memory, points⟩ := moves_stops_popping moves can (none i)
  have others : ∀ j, j ≠ i → (config.point j).canPop = false := by
    intro j different
    have left := none j
    rwa [points, Function.update_of_ne different] at left
  have quiet := stays point stopped others
  obtain ⟨lanes, books⟩ := reachable_balanced reaches
  have mask := reachable_seenEmpty reaches (i := i) (by rw [point]; rfl)
  have empty := books.represents.mask_eq_zero.mp mask
  constructor
  · rw [memory, stopped]
  · rw [memory, books.represents.size, empty, Multiset.card_zero]
  · intro j
    by_cases here : j = i
    · rw [points, here, Function.update_self]
      rfl
    · rw [points, Function.update_of_ne here, quiet j]

theorem reachable_abandoned {worker : ι} (isWorker : roles worker = .worker)
    (reaches : Reaches pool LastWorkerStays (threadPoolInit roles idCount) config)
    (none : ∀ i, (config.point i).canPop = false) : Abandoned config := by
  have start : ((threadPoolInit roles idCount).point worker).canPop = true := by
    change (roles worker).start.canPop = true
    rw [isWorker]
    rfl
  exact reaches.last_leaves Pc.canPop Abandoned start
    (fun reached stays moves can none => abandoned_of_last reached stays moves can none)
    (fun reached abandoned moves => abandoned_step reached moves abandoned) none

/-- In a run in which the last worker stays as long as a submit call may still insert,
the queue is empty when all workers have left, and stays so. -/
theorem no_task_stranded (worker : ι) (isWorker : roles worker = .worker)
    (reaches : Reaches pool LastWorkerStays (threadPoolInit roles idCount) config)
    (left : ∀ i, (config.point i).liveWorker = false) :
    config.memory.pq.lanes = Lanes.empty ∧ ∀ j, (config.point j).mayInsert = false := by
  have none : ∀ i, (config.point i).canPop = false := by
    intro i
    have gone := left i
    generalize config.point i = pc at gone
    cases pc with
    | worker pc => cases pc <;> first | rfl | cases gone
    | _ => rfl
  have abandoned := reachable_abandoned isWorker reaches none
  obtain ⟨lanes, books⟩ := reachable_balanced reaches
  refine ⟨?_, abandoned.quiet⟩
  have empty := abandoned.empty
  rw [books.represents.size, Multiset.card_eq_zero] at empty
  rw [books.represents.lanes_eq]
  funext p
  exact Lanes.contents_eq_zero.mp empty p

end Reachable

theorem no_task_stranded_oneWorker : ∃ config : PoolConfig (Fin 3),
    Reaches pool LastWorkerStays (threadPoolInit oneWorker 0) config ∧
      (∀ i, (config.point i).liveWorker = false) ∧ config.memory.pq.lanes = Lanes.empty := by
  obtain ⟨config, reaches, left⟩ := Reaches.of_schedule pool LastWorkerStays (threadPoolInit oneWorker 0)
    (submitSteps 1 ⟨1, 0, .low⟩ ++ List.replicate 9 (go 0) ++ [go 0, .pick 0 none, go 0] ++
      [.run 2 (.call .destroy), go 2] ++ List.replicate 4 (go 0))
    (fun config => ∀ i, (config.point i).liveWorker = false) (by decide)
  exact ⟨config, reaches, left, (no_task_stranded 0 rfl reaches left).1⟩

/-- A submit call passes its check, then the flag is set, the only worker finds the queue
empty and leaves, and the call pushes its task. -/
theorem stranded_task : ∃ config : PoolConfig (Fin 3),
    Reaches pool (fun _ _ => True) (threadPoolInit oneWorker 0) config ∧
      (∀ i, (config.point i).liveWorker = false) ∧ config.memory.journal.accepted = [0] ∧
      config.memory.pq.lanes .low = [0] :=
  Reaches.of_schedule pool (fun _ _ => True) (threadPoolInit oneWorker 0)
    ([.run 1 (.call (.submit ⟨1, 0, .low⟩)), go 1, go 1, .run 2 (.call .destroy), go 2] ++
      List.replicate 4 (go 0) ++ [go 1, .run 1 (.alloc true), go 1, go 1, go 1, go 1])
    (fun config => (∀ i, (config.point i).liveWorker = false) ∧ config.memory.journal.accepted = [0] ∧
      config.memory.pq.lanes .low = [0]) (by decide)

end ThreadPool.Pool
