import Mathlib.Data.List.TakeWhile
import ThreadPool.Pool.Execution
import ThreadPool.Pool.Mutexes

namespace ThreadPool.Pool

open Foundation

/-! # Scans of the aging thread

A scan of `pq_aging` promotes the tasks in front of the first one that is not due. A
task that has waited long enough behind one that is not due, such as one submitted
before aging was enabled, is passed over.
-/

/-- The clock readings and thresholds that a program point carries. -/
def Pc.Timed : Pc → Prop
  | .enable (.lock _ promoteMs) => 0 ≤ promoteMs
  | .enable (.test _ promoteMs) => 0 ≤ promoteMs
  | .enable (.set _ promoteMs) => 0 ≤ promoteMs
  | .aging (.readClock _ promoteMs) => 0 ≤ promoteMs
  | .aging (.checkFlag _ promoteMs now) => 0 ≤ promoteMs ∧ now.Reading
  | .aging (.lockQueue _ promoteMs now) => 0 ≤ promoteMs ∧ now.Reading
  | .aging (.promote _ promoteMs now) => 0 ≤ promoteMs ∧ now.Reading
  | .aging (.unlockQueue _ promoteMs _) => 0 ≤ promoteMs
  | .aging (.broadcast _ promoteMs) => 0 ≤ promoteMs
  | .aging (.between promoteMs) => 0 ≤ promoteMs
  | _ => True

section Transitions

variable {ι : Type} [DecidableEq ι] {me : ι} {memory after : Memory ι} {pc next : Pc}

omit [DecidableEq ι] in
theorem reads_timed (reads : Reads memory pc next) (valid : 0 ≤ memory.agingPromoteMs)
    (timed : pc.Timed) : next.Timed := by
  cases reads with
  | call _ _ entry =>
      cases entry with
      | enable intervalMs promoteMs interval promote => exact promote.le
      | _ => trivial
  | notEnabled => exact timed
  | passStart => exact valid
  | readClock scan promoteMs now => exact ⟨timed, now.2⟩
  | skipFirst => exact timed.1
  | scan => exact timed
  | secondScan => exact timed
  | _ => trivial

theorem syncs_timed (syncs : Syncs pc next) (timed : pc.Timed) : next.Timed := by
  cases syncs with
  | enableLock | scanLock | scanUnlock | firstNothing | firstBroadcast => exact timed
  | _ => trivial

theorem writes_timed (writes : Writes me memory pc after next) (valid : 0 ≤ memory.agingPromoteMs)
    (timed : pc.Timed) : 0 ≤ after.agingPromoteMs ∧ next.Timed := by
  cases writes with
  | enableSet => exact ⟨timed, trivial⟩
  | promote => exact ⟨valid, timed.1⟩
  | _ => exact ⟨valid, trivial⟩

theorem wait_timed {cond : Cond} {mutex : Mutex} (wait : code me pc = .wait cond mutex next) :
    next.Timed := by
  cases pc <;> (try (rename_i pc; cases pc)) <;> cases wait <;> trivial

theorem timed_outline :
    Outline (pool : Program ι Mutex Cond (Memory ι) Pc Input) Pc.holds
      (fun memory => 0 ≤ memory.agingPromoteMs) (fun _ pc _ => pc.Timed) where
  read valid timed read result := reads_timed (code_reads read result) valid timed
  act valid timed act result := writes_timed (code_writes act result) valid timed
  sync _ sync timed := syncs_timed (code_syncs sync) timed
  wait wait _ := wait_timed wait
  fork valid fork result _ := by
    obtain ⟨_, rfl, ⟨_, _, rfl, rfl⟩ | ⟨_, rfl, rfl⟩⟩ := fork_result fork result
    · exact ⟨valid, trivial, fun _ => trivial⟩
    · exact ⟨valid, trivial, fun _ => trivial⟩
  stable _ _ _ timed _ _ _ := timed
  stableFork _ _ timed _ _ := timed

end Transitions

section Reachable

variable {ι : Type} [DecidableEq ι] [Fintype ι] {config after : PoolConfig ι}
  {allowed : PoolConfig ι → Label ι Input → Prop} {roles : ι → Role} {idCount : Nat}

theorem reachable_timed (reaches : Reaches pool allowed (threadPoolInit roles idCount) config) (i : ι) :
    (config.point i).Timed := by
  have initial : Outlined (fun memory : Memory ι => 0 ≤ memory.agingPromoteMs) (fun _ pc _ => pc.Timed)
      (threadPoolInit roles idCount) := by
    refine ⟨le_rfl, ?_, nofun⟩
    intro j point ready
    cases ready
    cases roles j <;> trivial
  exact (reaches.outlined pool_disciplined timed_outline (init_owned roles idCount) initial).assertion i

section Scan

variable {i : ι} {input : Input} {scan : Scan} {promoteMs : Int} {now : Timespec}

omit [Fintype ι] in
theorem scan_arrives {pc : Pc} {middle : PoolConfig ι}
    (scanning : config.point i = .aging (.lockQueue scan promoteMs now))
    (arrives : Arrives pool config i pc middle) (access : (pool.code i pc).sync = none) :
    pc = .aging (.promote scan promoteMs now) := by
  cases arrives with
  | here ready =>
      rw [← point_ready ready, scanning] at access
      cases access
  | entering ready enter =>
      rw [← point_ready ready, scanning] at enter
      cases enter
      rfl
  | resuming woken =>
      rw [Config.point, woken] at scanning
      cases scanning
      cases access

/-- The critical section of a scan. -/
theorem scan_step (scanning : config.point i = .aging (.lockQueue scan promoteMs now))
    (stepped : pool.step config (.run i input) = some after) :
    ∃ promoted pq, config.memory.pq.promoteLocked scan.src scan.dst now promoteMs =
      some (promoted, pq) ∧ after.memory.pq = pq := by
  cases step_moves stepped with
  | read arrives code result =>
      cases scan_arrives scanning arrives (by rw [code]; rfl)
      cases code
  | act arrives code result =>
      cases scan_arrives scanning arrives (by rw [code]; rfl)
      have writes : Writes i config.memory (.aging (.promote scan promoteMs now)) _ _ :=
        code_writes code result
      cases writes with
      | promote _ _ _ promoted pq moved => exact ⟨promoted, pq, moved, rfl⟩
  | lock ready code | unlock ready code | wait ready code | broadcast ready code | join ready code =>
      rw [← point_ready ready, scanning] at code
      cases code

/-- The task was stamped on submission and has waited for the time to promote it. -/
def overdue (pq : PriorityQueue) (now : Timespec) (promoteMs : Int) (task : Addr) : Bool :=
  (pq.heap task).any fun record => decide (Waited record.submitTime now promoteMs)

/-- A scan promotes every overdue task of its lane exactly if no task that is not due
stands ahead of an overdue one. -/
theorem scan_promotes_overdue_iff
    (reaches : Reaches pool allowed (threadPoolInit roles idCount) config)
    (scanning : config.point i = .aging (.lockQueue scan promoteMs now))
    (stepped : pool.step config (.run i input) = some after) :
    (∀ task ∈ config.memory.pq.lanes scan.src, overdue config.memory.pq now promoteMs task = true →
      task ∈ after.memory.pq.lanes scan.dst) ↔
    ∀ front task, [front, task].Sublist (config.memory.pq.lanes scan.src) →
      overdue config.memory.pq now promoteMs task = true →
      config.memory.pq.due now promoteMs front = true := by
  obtain ⟨nonneg, reading⟩ : 0 ≤ promoteMs ∧ now.Reading := by
    have timed := reachable_timed reaches i
    rwa [scanning] at timed
  obtain ⟨lanes, books⟩ := reachable_balanced reaches
  have different : scan.src ≠ scan.dst := by cases scan <;> decide
  obtain ⟨promoted, pq, moved, memory⟩ := scan_step scanning stepped
  obtain ⟨_, final, result, represents, _⟩ :=
    PriorityQueue.promoteLocked_spec books.represents different now promoteMs
  cases result.symm.trans moved
  rw [memory, represents.lanes_eq, books.represents.lanes_eq, Lanes.promote_target]
  have isDue : ∀ {task}, overdue config.memory.pq now promoteMs task = true →
      config.memory.pq.due now promoteMs task = true := by
    intro task late
    cases found : config.memory.pq.heap task with
    | none => simp [overdue, found] at late
    | some record =>
        have waited : Waited record.submitTime now promoteMs := by simpa [overdue, found] using late
        rw [PriorityQueue.due_eq found]
        exact waited.hasPassedMs (books.stamps found) reading nonneg
  have apart : ∀ {task}, task ∈ lanes scan.src → task ∉ lanes scan.dst := by
    intro task queued promoted
    exact books.represents.disjoint different queued promoted
  constructor
  · intro all ahead task order late
    have queued : task ∈ lanes scan.src := order.subset (by simp)
    have taken := (List.mem_append.mp (all task queued late)).resolve_right (apart queued)
    have both := Lanes.pair_sublist_takeWhile (books.represents.separate.nodup scan.src) order taken
    exact List.mem_takeWhile_imp (both.subset (by simp))
  · intro ordered task queued late
    refine List.mem_append.mpr (.inl (Lanes.mem_takeWhile_of_ahead queued (isDue late) ?_))
    intro ahead order
    exact ordered ahead task order late

end Scan

end Reachable

/-- A worker, two application threads, and a thread that can be created. -/
def withSpare (i : Fin 4) : Role := if i = 0 then .worker else if i = 3 then .spare else .client

def atNsec : ClockReading := ⟨⟨0, 1⟩, by decide⟩

def atSecond : ClockReading := ⟨⟨1, 0⟩, by decide⟩

/-- The call of `thread_pool_enable_aging` by thread `i` up to the creation of the thread. -/
def enableSteps {ι : Type} (i : ι) : List (Label ι Input) :=
  [.run i (.call (.enableAging 1 1)), go i, go i, go i, go i]

/-- Thread 1 submits a stamped task. -/
def stampedSteps : List (Label (Fin 4) Input) :=
  [.run 1 (.call (.submit ⟨1, 0, .low⟩)), go 1, go 1, go 1, .run 1 (.alloc true), go 1, go 1,
    .run 1 (.clock atNsec), go 1, go 1, go 1, .pick 1 none, go 1]

/-- The aging thread comes to its scan of the low lane one second later. -/
def scanSteps : List (Label (Fin 4) Input) :=
  [go 3, go 3, go 3, go 3, .wake 3, go 3, .run 3 (.clock atSecond), go 3, go 3, go 3, go 3,
    .run 3 (.clock atSecond), go 3]

theorem scan_promotes_overdue_iff_stamped : ∃ config after : PoolConfig (Fin 4),
    Reaches pool (fun _ _ => True) (threadPoolInit withSpare 0) config ∧
      config.point 3 = .aging (.lockQueue .second 1 atSecond) ∧
      pool.step config (go 3) = some after ∧ config.memory.pq.lanes .low = [0, 1] ∧
      0 ∈ after.memory.pq.lanes .medium ∧ 1 ∈ after.memory.pq.lanes .medium := by
  obtain ⟨config, reaches, scanning, low, first, second, due, stepped⟩ :=
    Reaches.of_schedule pool (fun _ _ => True) (threadPoolInit withSpare 0)
      (enableSteps 2 ++ [.pick 2 (some 3)] ++ stampedSteps ++ stampedSteps ++ scanSteps)
      (fun config => config.point 3 = .aging (.lockQueue .second 1 atSecond) ∧
        config.memory.pq.lanes .low = [0, 1] ∧ overdue config.memory.pq atSecond 1 0 = true ∧
        overdue config.memory.pq atSecond 1 1 = true ∧
        config.memory.pq.due atSecond 1 0 = true ∧ (pool.step config (go 3)).isSome = true)
      (by decide)
  obtain ⟨after, stepped⟩ := Option.isSome_iff_exists.mp stepped
  have lane : config.memory.pq.lanes Scan.second.src = [0, 1] := low
  have promoted := (scan_promotes_overdue_iff reaches scanning stepped).mpr ?_
  · exact ⟨config, after, reaches, scanning, stepped, low, promoted 0 (by simp [lane]) first,
      promoted 1 (by simp [lane]) second⟩
  · intro front task order _
    rw [lane] at order
    cases order.eq_of_length rfl
    exact due

/-- A task submitted before aging was enabled stands ahead of the overdue one. -/
theorem overdue_task_passed_over : ∃ config after : PoolConfig (Fin 4),
    Reaches pool (fun _ _ => True) (threadPoolInit withSpare 0) config ∧
      config.point 3 = .aging (.lockQueue .second 1 atSecond) ∧
      pool.step config (go 3) = some after ∧ config.memory.pq.lanes .low = [0, 1] ∧
      overdue config.memory.pq atSecond 1 1 = true ∧ after.memory.pq.lanes .medium = [] ∧
      after.memory.pq.lanes .low = [0, 1] := by
  obtain ⟨config, reaches, scanning, low, late, stepped⟩ := Reaches.of_schedule pool (fun _ _ => True)
    (threadPoolInit withSpare 0)
    (submitSteps 1 ⟨1, 0, .low⟩ ++ enableSteps 2 ++ [.pick 2 (some 3)] ++ stampedSteps ++ scanSteps)
    (fun config => config.point 3 = .aging (.lockQueue .second 1 atSecond) ∧
      config.memory.pq.lanes .low = [0, 1] ∧ overdue config.memory.pq atSecond 1 1 = true ∧
      (pool.step config (go 3)).map (fun after => (after.memory.pq.lanes .medium,
        after.memory.pq.lanes .low)) = some ([], [0, 1]))
    (by decide)
  obtain ⟨after, stepped, lanes⟩ := Option.map_eq_some_iff.mp stepped
  obtain ⟨medium, rest⟩ := Prod.mk.inj lanes
  exact ⟨config, after, reaches, scanning, stepped, low, late, medium, rest⟩

end ThreadPool.Pool
