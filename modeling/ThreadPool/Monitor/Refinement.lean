import ThreadPool.Monitor.Code

namespace ThreadPool.Monitor

open Foundation Pool

/-! # The pool with its monitor refines the pool

To the pool the monitor thread is one more application thread, and a thread in a call on
the monitor is outside any call. So whatever holds in every run of the pool holds beside
a monitor too.
-/

variable {ι : Type} [DecidableEq ι]

/-- The points at which a thread may take a step that the pool does not see. -/
def Point.own : Point → Bool
  | .pool (.client _) => true
  | .pool (.destroy .monitorStop) => true
  | .pool _ => false
  | .control _ _ => true
  | .monitor (.calling _) => false
  | .monitor _ => true

instance : Inhabited Input := ⟨.none⟩

section Refinement

theorem pc_monitorReturn (pc : Pc) : (monitorReturn pc).pc = pc := by
  unfold monitorReturn
  split <;> rfl

theorem own_of_holds {pc : Pc} {mutex : Mutex} (holds : pc.holds mutex = true) :
    (Point.pool pc).own = false ∧ (monitorReturn pc).own = false := by
  cases pc with
  | client last => cases last <;> cases holds
  | destroy pc => cases pc <;> first | cases holds | exact ⟨rfl, rfl⟩
  | _ => exact ⟨rfl, rfl⟩

/-- The points of the pool follow its code. -/
theorem follows_fromPool {me : ι} {pc : Pc} {point : Point} {embed : Pc → Point}
    (embedded : ∀ pc, (embed pc).pc = pc)
    (visible : ∀ {pc mutex}, pc.holds mutex = true → (embed pc).own = false) :
    Follows Shared.pool Point.pc Point.own point (fromPool embed (Pool.code me pc))
      (Pool.code me pc) := by
  refine follows_lift (fun _ _ => rfl) embedded (fun _ => rfl) ?entered ?waited
  case entered =>
    intro mutex next enter
    have held : next.holds mutex = true := by
      rw [(enter_holds enter).2, Function.update_self]
    exact visible held
  case waited =>
    intro cond mutex next wait
    have held : next.holds mutex = true := by
      rw [(wait_holds wait).2]
      exact (wait_holds wait).1
    exact visible held

section Control

variable {me : ι} {caller : Caller} {pc : ControlPc} {instr : PoolInstr ι}

omit [DecidableEq ι] in
theorem follows_load {next : Shared ι → Point} {point : Point} (mine : point.own = true)
    (stays : ∀ shared, (next shared).pc = point.pc) :
    Follows Shared.pool Point.pc Point.own point (loadShared next) instr := by
  refine .of_read fun result => ?_
  cases result
  exact .inl ⟨mine, stays _⟩

omit [DecidableEq ι] in
theorem follows_store {write : Shared ι → Shared ι} {next point : Point} (mine : point.own = true)
    (unseen : ∀ shared, (write shared).pool = shared.pool) (stays : next.pc = point.pc) :
    Follows Shared.pool Point.pc Point.own point (storeShared write next) instr := by
  refine .of_act mine fun result => ?_
  cases result
  exact ⟨unseen _, stays⟩

theorem follows_create {created failed point : Point} (mine : point.own = true)
    (succeeds : created.pc = point.pc) (fails : failed.pc = point.pc) :
    Follows Shared.pool Point.pc Point.own point (createThread created failed) instr := by
  refine .of_act mine fun {shared input after next} result => ?_
  rcases input with _ | _ | ⟨_ | child⟩ | _
  all_goals try cases result
  · exact ⟨rfl, fails⟩
  · simp only [Option.map_eq_some_iff, Prod.mk.injEq, Shared.createMonitor] at result
    obtain ⟨_, spare, rfl, rfl⟩ := result
    split at spare
    case isTrue => cases spare; exact ⟨rfl, succeeds⟩
    case isFalse => cases spare

/-- No call on the monitor touches the pool; `thread_pool_destroy` goes on when
`monitor_stop` returns. -/
theorem follows_control : Follows Shared.pool Point.pc Point.own (.control caller pc)
    (controlCode caller pc) (Pool.code me (Point.control caller pc).pc) := by
  have same : ∀ other, (Point.control caller other).pc = (Point.control caller pc).pc := by
    cases caller <;> exact fun _ => rfl
  cases pc with
  | start pc =>
      cases pc with
      | load => exact follows_load rfl fun _ => same _
      | create => exact follows_create rfl (same _) (same _)
      | store | undo | setValid => exact follows_store rfl (fun _ => rfl) (same _)
  | stop pc =>
      cases pc with
      | load | testValid => exact follows_load rfl fun _ => same _
      | join => exact .of_join (same _)
      | store | clearValid => exact follows_store rfl (fun _ => rfl) (same _)
  | detach pc =>
      cases pc with
      | load => exact follows_load rfl fun _ => same _
      | join => exact .of_join (same _)
      | store | clearValid => exact follows_store rfl (fun _ => rfl) (same _)
  | reattach pc =>
      cases pc with
      | load | loadInit | testValid => exact follows_load rfl fun _ => same _
      | join => exact .of_join (same _)
      | create => exact follows_create rfl (same _) (same _)
      | clearValid | store | undo | setValid => exact follows_store rfl (fun _ => rfl) (same _)
  | returned result =>
      cases caller with
      | client last => exact follows_load rfl fun _ => rfl
      | destroy =>
          refine .of_read fun result => .inr ⟨Input.none, ?_⟩
          cases result
          rfl

end Control

theorem follows_monitor {me : ι} {pc : MonitorPc} : Follows Shared.pool Point.pc Point.own (.monitor pc)
    (monitorThread me pc) (Pool.code me (Point.monitor pc).pc) := by
  cases pc with
  | unborn =>
      refine .of_read fun result => .inl ⟨rfl, ?_⟩
      split at result
      case isTrue => cases result
      case isFalse => cases result; rfl
  | loadInit | loop => exact follows_load rfl fun shared => by split <;> rfl
  | storeInit | quit => exact follows_store rfl (fun _ => rfl) rfl
  | getch =>
      refine .of_read fun result => .inl ⟨rfl, ?_⟩
      split at result <;> cases result <;> rfl
  | testPause =>
      refine .of_read fun result => ?_
      cases result
      dsimp only
      split
      case isTrue => exact .inl ⟨rfl, rfl⟩
      case isFalse => exact .inr ⟨.call .pause, rfl⟩
  | testResume =>
      refine .of_read fun result => ?_
      cases result
      dsimp only
      split
      case isTrue => exact .inr ⟨.call .resume, rfl⟩
      case isFalse => exact .inl ⟨rfl, rfl⟩
  | calling pc => exact follows_fromPool pc_monitorReturn fun held => (own_of_holds held).2
  | exited => exact .of_halt

theorem follows_code (me : ι) (point : Point) :
    Follows Shared.pool Point.pc Point.own point (code me point) (Pool.code me point.pc) := by
  have follow : ∀ pc, Follows Shared.pool Point.pc Point.own point (fromPool .pool (Pool.code me pc))
      (Pool.code me pc) :=
    fun pc => follows_fromPool (fun _ => rfl) fun held => (own_of_holds held).1
  cases point with
  | pool pc =>
      cases pc with
      | client last =>
          refine .of_read fun result => ?_
          split at result
          case h_1 call => cases result; exact .inr ⟨.call call, rfl⟩
          case h_2 call => cases result; exact .inl ⟨rfl, rfl⟩
          case h_3 => cases result
      | destroy pc =>
          cases pc with
          | monitorStop => exact follows_load rfl fun _ => rfl
          | _ => exact follow _
      | _ => exact follow _
  | control caller pc => exact follows_control
  | monitor pc => exact follows_monitor

theorem monitored_refines : Refines (monitored : Program ι Mutex Cond (Shared ι) Point (MonitorInput ι))
    pool Shared.pool Point.pc Point.own where
  follows := follows_code
  dormant idle := by
    rw [of_decide_eq_true idle]
    rfl

variable [Fintype ι] {allowed : MonitoredConfig ι → Label ι (MonitorInput ι) → Prop}
  {permitted : PoolConfig ι → Label ι Input → Prop} {roles : ι → MonitoredRole} {idCount : Nat}
  {config : MonitoredConfig ι}

/-- The configuration of the pool alone. -/
def poolView (config : MonitoredConfig ι) : PoolConfig ι := config.map Shared.pool Point.pc

omit [DecidableEq ι] [Fintype ι] in
theorem poolView_point (config : MonitoredConfig ι) :
    (poolView config).point = fun i => (config.point i).pc :=
  funext fun i => map_point (config.threads i)

omit [DecidableEq ι] [Fintype ι] in
theorem poolView_init (roles : ι → MonitoredRole) (idCount : Nat) :
    poolView (monitoredInit roles idCount) = threadPoolInit (fun i => (roles i).role) idCount := by
  unfold poolView Config.map monitoredInit
  congr 1
  funext i
  change Status.ready (roles i).start.pc = Status.ready (roles i).role.start
  cases roles i <;> rfl

/-- The runs of the pool with its monitor are runs of the pool. -/
theorem reachable_pool (reaches : Reaches monitored allowed (monitoredInit roles idCount) config)
    (weaker : ∀ {config label choice}, allowed config label → label.Agrees choice →
      permitted (poolView config) choice) :
    Reaches pool permitted (threadPoolInit (fun i => (roles i).role) idCount) (poolView config) := by
  rw [← poolView_init]
  exact reaches.refines monitored_refines (fun _ => trivial) weaker

end Refinement

end ThreadPool.Monitor
