import ThreadPool.Foundation.Observation
import ThreadPool.Pool.AgingLifecycle
import ThreadPool.Pool.AgingScan
import ThreadPool.Pool.Resuming

namespace ThreadPool.Pool

open Foundation

/-! # The control of aging

`thread_pool_enable_aging` sets the flag under `aging_mutex` and creates the thread
afterwards; `thread_pool_disable_aging` tests and clears the flag without the mutex and
joins `aging_tid`. Calls that do not overlap refine the steps of `Control`; the code does
nothing against those that do.
-/

def WakePauseCaller.stage : WakePauseCaller → Option Stage
  | .disable _ => some .stopping
  | _ => none

def Pc.stage : Pc → Option Stage
  | .enable (.set ..) => some .setting
  | .enable .store => some .setting
  | .enable .unlock => some .started
  | .enable .create => some .started
  | .enable .undo => some .started
  | .disable _ .store => some .clearing
  | .disable _ .lock => some .stopping
  | .disable _ .signal => some .stopping
  | .disable _ .unlock => some .stopping
  | .disable _ .join => some .stopping
  | .wakePause caller _ => caller.stage
  | _ => none

def Pc.isAging : Pc → Bool
  | .aging _ => true
  | _ => false

/-- `thread_pool_destroy` behind its call of `thread_pool_disable_aging`. -/
def Pc.agingClosed : Pc → Bool
  | .drain caller _ => decide (caller = .destroy)
  | .destroy .monitorStop => true
  | .destroy .joinWorkers => true
  | .destroy .lockQueue => true
  | .destroy .destroyQueue => true
  | .destroy .unlockQueue => true
  | .destroy .free => true
  | .destroy .done => true
  | _ => false

/-- In front of a store of `aging_enable = false`. -/
def Pc.clearsFlag : Pc → Bool
  | .disable _ .store => true
  | .enable .undo => true
  | _ => false

def Pc.atJoin : Pc → Bool
  | .disable _ .join => true
  | _ => false

def DisableCaller.stops (enabled : Bool) : DisableCaller → Bool
  | .client => enabled
  | .destroy => true

/-- A call of `thread_pool_disable_aging` that will go on behind its load of the flag, and
the one of `thread_pool_destroy`. -/
def Pc.stops (enabled : Bool) : Pc → Bool
  | .disable caller .load => caller.stops enabled
  | _ => false

/-- A call of `thread_pool_enable_aging` that will go on behind its load of the flag. -/
def Pc.starts (enabled : Bool) : Pc → Bool
  | .enable (.lock ..) => !enabled
  | .enable (.test ..) => !enabled
  | _ => false

/-- A move that does not concern the control of aging. -/
structure Kept (pc next : Pc) : Prop where
  stage : next.stage = pc.stage
  aging : next.isAging = pc.isAging
  closed : next.agingClosed = pc.agingClosed
  clears : pc.clearsFlag = false
  joins : pc.atJoin = false

/-- What the move of a thread means for the control of aging. -/
inductive Turn {ι : Type} (memory : Memory ι) : Pc → Memory ι → Pc → Prop
  | keep {pc next} {after : Memory ι} : Kept pc next → after.agingEnable = memory.agingEnable →
      after.agingTid = memory.agingTid → Turn memory pc after next
  | begin {pc intervalMs promoteMs} : pc = .enable (.lock intervalMs promoteMs) ∨
      pc = .enable (.test intervalMs promoteMs) → memory.agingEnable = false →
      Turn memory pc memory (.enable (.set intervalMs promoteMs))
  | enable : Turn memory (.enable .store) { memory with agingEnable := true } (.enable .unlock)
  | undo : Turn memory (.enable .undo) { memory with agingEnable := false } (.client none)
  | find (caller) : memory.agingEnable = true →
      Turn memory (.disable caller .load) memory (.disable caller .store)
  | tell (caller) : Turn memory (.disable caller .store) { memory with agingEnable := false }
      (.disable caller .lock)
  | join : Turn memory (.disable .client .join) memory (.client none)
  | joinClosing : Turn memory (.disable .destroy .join) memory (.drain .destroy .lock)
  | close : memory.agingEnable = false →
      Turn memory (.disable .destroy .load) memory (.drain .destroy .lock)

section Turns

variable {ι : Type} [DecidableEq ι] {me : ι} {memory after : Memory ι} {pc access next : Pc}
  {mutex : Mutex}

omit [DecidableEq ι] in
theorem syncs_turn (syncs : Syncs pc next) : Turn memory pc memory next := by
  cases syncs with
  | disableReturn => exact .join
  | destroyDisabled => exact .joinClosing
  | _ => exact .keep ⟨rfl, rfl, rfl, rfl, rfl⟩ rfl rfl

theorem enter_kept (enter : code me pc = .enter mutex next) : Kept pc next := by
  cases pc with
  | submit pc | worker pc | enable pc | aging pc | destroy pc =>
      cases pc <;> cases enter <;> exact ⟨rfl, rfl, rfl, rfl, rfl⟩
  | drain caller pc =>
      cases pc <;> cases enter
      exact ⟨rfl, rfl, rfl, rfl, rfl⟩
  | wakeAll caller pc | wakePause caller pc | disable caller pc => cases pc <;> cases enter
  | _ => cases enter

omit [DecidableEq ι] in
theorem reads_turn (reads : Reads memory pc next) : Turn memory pc memory next := by
  cases reads with
  | call _ _ entry => cases entry <;> exact .keep ⟨rfl, rfl, rfl, rfl, rfl⟩ rfl rfl
  | notEnabled _ _ disabled => exact .begin (.inr rfl) disabled
  | enabled caller enabled => exact .find caller enabled
  | destroyUnaged disabled => exact .close disabled
  | _ => exact .keep ⟨rfl, rfl, rfl, rfl, rfl⟩ rfl rfl

theorem writes_turn (writes : Writes me memory pc after next) : Turn memory pc after next := by
  cases writes with
  | enableStore => exact .enable
  | enableUndo => exact .undo
  | disableStore caller => exact .tell caller
  | _ => exact .keep ⟨rfl, rfl, rfl, rfl, rfl⟩ rfl rfl

/-- Whoever enters a mutex on the way moves as from behind it. -/
theorem Turn.enter (enter : code me pc = .enter mutex access) (turn : Turn memory access after next) :
    Turn memory pc after next := by
  have entered := enter_kept enter
  cases turn with
  | keep kept enabled tid =>
      exact .keep ⟨kept.stage.trans entered.stage, kept.aging.trans entered.aging,
        kept.closed.trans entered.closed, entered.clears, entered.joins⟩ enabled tid
  | begin before disabled =>
      have syncs := code_syncs (congrArg Instr.sync enter)
      rcases before with rfl | rfl
      · cases syncs
      · cases syncs
        exact .begin (.inl rfl) disabled
  | enable | undo | find | tell | join | joinClosing | close =>
      cases code_syncs (congrArg Instr.sync enter) <;> cases enter

theorem arrives_turn {config middle : PoolConfig ι} (arrives : Arrives pool config me access middle)
    (turn : Turn memory access after next) : Turn memory (config.point me) after next := by
  cases arrives with
  | here ready => rwa [point_ready ready]
  | entering ready code =>
      rw [point_ready ready]
      exact turn.enter code
  | resuming woken =>
      rw [Config.point, woken]
      exact turn

theorem arrives_stage {config middle : PoolConfig ι} (arrives : Arrives pool config me access middle) :
    (config.point me).stage = access.stage := by
  cases arrives with
  | here ready => rw [point_ready ready]
  | entering ready code =>
      rw [point_ready ready]
      exact (enter_kept code).stage.symm
  | resuming woken =>
      rw [Config.point, woken]
      rfl

omit [DecidableEq ι] in
theorem syncs_controlStage (syncs : Syncs pc next) (enabled : Bool) :
    next.stage ≠ some .setting ∧ pc.stops enabled = false := by
  cases syncs with
  | wakePauseLock caller | wakePauseBroadcast caller => cases caller <;> exact ⟨nofun, rfl⟩
  | _ => exact ⟨nofun, rfl⟩

theorem writes_setting (writes : Writes me memory pc after next) (setting : next.stage = some .setting) :
    pc.stage = some .setting := by
  cases writes <;> first | rfl | cases setting

end Turns

section Watch

variable {ι : Type} [DecidableEq ι] [Fintype ι] {config after : PoolConfig ι} {label : Label ι Input}
  {roles : ι → Role} {idCount : Nat}

/-- The threads that were told to stop, and how often each was joined. -/
structure AgingWatch (ι : Type) where
  told : ι → Bool := fun _ => false
  joins : ι → Nat := fun _ => 0

/-- A thread leaves a set of points in a step. -/
def Leaves (there : Pc → Bool) (config after : PoolConfig ι) : Prop :=
  ∃ i, there (config.point i) = true ∧ there (after.point i) = false

instance (there : Pc → Bool) : Decidable (Leaves there config after) :=
  inferInstanceAs (Decidable (∃ i, there (config.point i) = true ∧ there (after.point i) = false))

/-- A store of `aging_enable = false` tells the threads that exist to stop; a call of
`pthread_join` joins `aging_tid`. -/
def watchAging (watch : AgingWatch ι) (config : PoolConfig ι) (_ : Label ι Input)
    (after : PoolConfig ι) : AgingWatch ι where
  told j := watch.told j || (decide (Leaves Pc.clearsFlag config after) && (config.point j).isAging)
  joins j := watch.joins j +
    (decide (Leaves Pc.atJoin config after) && decide (config.memory.agingTid = some j)).toNat

def control (config : PoolConfig ι) (watch : AgingWatch ι) : Control ι where
  stage i := (config.point i).stage
  created i := (config.point i).isAging
  closed i := (config.point i).agingClosed
  enabled := config.memory.agingEnable
  tid := config.memory.agingTid
  told := watch.told
  joins := watch.joins

/-- The calls that change the flag do not overlap: a disabling call that finds the flag
set, and the one of `thread_pool_destroy` in any case, does so while no other call is
under way; an enabling call that finds the flag clear does so while no disabling call is
under way and `thread_pool_destroy` is not past its own. -/
def ControlSerial (config : PoolConfig ι) : Label ι Input → Prop
  | .run i _ =>
      ((config.point i).stops config.memory.agingEnable = true → ∀ j, (config.point j).stage = none) ∧
        ((config.point i).starts config.memory.agingEnable = true → ∀ j,
          (config.point j).stage ≠ some .clearing ∧ (config.point j).stage ≠ some .stopping ∧
            (config.point j).agingClosed = false)
  | _ => True

instance : ∀ label, Decidable (ControlSerial config label)
  | .run i _ => inferInstanceAs (Decidable (
      ((config.point i).stops config.memory.agingEnable = true → ∀ j, (config.point j).stage = none) ∧
        ((config.point i).starts config.memory.agingEnable = true → ∀ j,
          (config.point j).stage ≠ some .clearing ∧ (config.point j).stage ≠ some .stopping ∧
            (config.point j).agingClosed = false)))
  | .pick .. => inferInstanceAs (Decidable True)
  | .wake _ => inferInstanceAs (Decidable True)

omit [Fintype ι] in
theorem leaves_iff (there : Pc → Bool) {i : ι} {next : Pc}
    (points : after.point = Function.update config.point i next) :
    Leaves there config after ↔ there (config.point i) = true ∧ there next = false := by
  constructor
  · rintro ⟨k, before, behind⟩
    by_cases here : k = i
    · subst here
      rw [points, Function.update_self] at behind
      exact ⟨before, behind⟩
    · rw [points, Function.update_of_ne here, before] at behind
      cases behind
  · rintro ⟨before, behind⟩
    exact ⟨i, before, by rwa [points, Function.update_self]⟩

/-- The control of aging behind the move of one thread. -/
theorem control_move {watch : AgingWatch ι} {i : ι} {next : Pc}
    (points : after.point = Function.update config.point i next) :
    control after (watchAging watch config label after) =
      { stage := Function.update (control config watch).stage i next.stage
        created := Function.update (control config watch).created i next.isAging
        closed := Function.update (control config watch).closed i next.agingClosed
        enabled := after.memory.agingEnable
        tid := after.memory.agingTid
        told := fun j => watch.told j || (decide ((config.point i).clearsFlag = true ∧
          next.clearsFlag = false) && (config.point j).isAging)
        joins := fun j => watch.joins j + (decide ((config.point i).atJoin = true ∧
          next.atJoin = false) && decide (config.memory.agingTid = some j)).toNat } := by
  have told := leaves_iff Pc.clearsFlag points
  have joins := leaves_iff Pc.atJoin points
  have stages : ∀ {β : Type} (view : Pc → β), (fun j => view (after.point j)) =
      Function.update (fun j => view (config.point j)) i (view next) := by
    intro β view
    funext j
    rw [points, Function.apply_update (fun _ => view)]
  simp only [control, watchAging, told, joins, stages]

omit [Fintype ι] in
theorem setting_ready {j : ι} (waits : (config.threads j).Waits pool j)
    (setting : (config.point j).stage = some .setting) :
    config.threads j = .ready (config.point j) ∧ (config.point j).holds .agingMutex = true := by
  constructor
  · apply waits.ready
    intro cond mutex before wait
    generalize config.point j = pc at setting wait
    cases code_syncs (congrArg Instr.sync wait) <;> first | cases setting | cases wait
  · generalize config.point j = pc at setting
    cases pc with
    | enable pc => cases pc <;> first | rfl | cases setting
    | wakePause caller pc => cases caller <;> cases setting
    | disable caller pc => cases pc <;> cases setting
    | _ => cases setting

/-- An enabling call begins to set the flag only while no call is at any stage. -/
theorem begin_alone {watch : AgingWatch ι} {i : ι} {access : Pc} {middle : PoolConfig ι}
    {intervalMs promoteMs : Int}
    (reaches : Reaches pool (fun _ _ => True) (threadPoolInit roles idCount) config)
    (safe : (control config watch).Safe) (arrives : Arrives pool config i access middle)
    (testing : access = .enable (.test intervalMs promoteMs))
    (disabled : config.memory.agingEnable = false)
    (others : ∀ j, (config.point j).stage ≠ some .clearing ∧ (config.point j).stage ≠ some .stopping)
    (j : ι) : (config.point j).stage = none := by
  subst testing
  cases stage : (config.point j).stage with
  | none => rfl
  | some stage' =>
      cases stage' with
      | setting =>
          obtain ⟨ready, held⟩ := setting_ready (reachable_waits reaches j) stage
          have different : i ≠ j := by
            rintro rfl
            rcases arrives_behind arrives with here | syncs
            · rw [here] at stage
              cases stage
            · generalize config.point i = pc at syncs stage
              cases syncs
              cases stage
          exact absurd ⟨rfl, held⟩ (arrives.apart pool_disciplined (reachable_owned reaches) different
            ready .agingMutex)
      | started =>
          have fact : (control config watch).Fact (some .started) :=
            stage ▸ safe.fact j (safe.alone j (by simp [control, stage]))
          exact absurd (fact.1.symm.trans disabled) (by decide)
      | clearing => exact absurd stage (others j).1
      | stopping => exact absurd stage (others j).2

/-- The move of a thread is a step of the control of aging, or does not concern it. -/
theorem control_turn {watch : AgingWatch ι} {i : ι} {next : Pc}
    (points : after.point = Function.update config.point i next)
    (turn : Turn config.memory (config.point i) after.memory next)
    (begins : next.stage = some .setting → (config.point i).stage = none →
      ∀ j, (config.point j).stage = none ∧ (config.point j).agingClosed = false)
    (stops : (config.point i).stops config.memory.agingEnable = true → ∀ j, (config.point j).stage = none) :
    control after (watchAging watch config label after) = control config watch ∨
      Control.Step (control config watch) (control after (watchAging watch config label after)) := by
  rw [control_move points]
  generalize here : config.point i = pc at turn begins stops
  generalize written : after.memory = memory at turn
  have created : next.isAging = pc.isAging → Function.update (control config watch).created i
      next.isAging = (control config watch).created := by
    intro same
    rw [Function.update_eq_self_iff, same, ← here]
    rfl
  have closed : next.agingClosed = pc.agingClosed → Function.update (control config watch).closed i
      next.agingClosed = (control config watch).closed := by
    intro same
    rw [Function.update_eq_self_iff, same, ← here]
    rfl
  have stage : (control config watch).stage i = pc.stage := congrArg Pc.stage here
  cases turn with
  | keep kept enabled tid =>
      left
      rw [created kept.aging, closed kept.closed, kept.stage, ← stage, enabled, tid]
      simp [kept.clears, kept.joins]
      rfl
  | begin before disabled =>
      have idle := begins rfl (by rcases before with rfl | rfl <;> rfl)
      have outside : pc.isAging = false ∧ pc.agingClosed = false ∧ pc.clearsFlag = false ∧
          pc.atJoin = false := by
        rcases before with rfl | rfl <;> exact ⟨rfl, rfl, rfl, rfl⟩
      right
      have all : ∀ j, (control config watch).stage j = none ∧ (control config watch).closed j = false :=
        idle
      convert Control.Step.begin (i := i) all disabled using 1
      rw [created outside.1.symm, closed outside.2.1.symm]
      simp [Control.goto, control, outside]
      rfl
  | enable =>
      right
      convert Control.Step.enable stage using 1
      rw [created rfl, closed rfl]
      simp [Control.goto, control, Pc.clearsFlag, Pc.atJoin, Pc.stage]
  | undo =>
      right
      convert Control.Step.undo stage using 1
      rw [created rfl, closed rfl]
      simp [Control.goto, Control.clear, control, Pc.clearsFlag, Pc.atJoin, Pc.stage]
  | find caller enabled =>
      have idle : ∀ j, (control config watch).stage j = none :=
        stops (by cases caller with | client => exact enabled | destroy => rfl)
      right
      convert Control.Step.find (i := i) idle enabled using 1
      rw [created rfl, closed rfl]
      simp [Control.goto, control, Pc.clearsFlag, Pc.atJoin]
      rfl
  | tell caller =>
      right
      convert Control.Step.tell stage using 1
      rw [created rfl, closed rfl]
      simp [Control.goto, Control.clear, control, Pc.clearsFlag, Pc.atJoin, Pc.stage]
  | join =>
      right
      convert Control.Step.join stage using 1
      rw [created rfl, closed rfl]
      simp [Control.goto, Control.join, control, Pc.clearsFlag, Pc.atJoin, Pc.stage]
      rfl
  | joinClosing =>
      right
      convert Control.Step.joinClosing stage using 1
      rw [created rfl]
      simp [Control.goto, Control.join, Control.close, control, Pc.clearsFlag, Pc.atJoin, Pc.stage,
        Pc.agingClosed]
      rfl
  | close disabled =>
      have idle : ∀ j, (control config watch).stage j = none := stops rfl
      right
      convert Control.Step.close (i := i) idle disabled using 1
      have still : Function.update (control config watch).stage i (Pc.drain .destroy .lock).stage =
          (control config watch).stage := by
        rw [Function.update_eq_self_iff, idle i]
        rfl
      rw [created rfl, still]
      simp [Control.close, control, Pc.clearsFlag, Pc.atJoin]
      rfl

theorem still_watch {watch : AgingWatch ι} (points : after.point = config.point) :
    watchAging watch config label after = watch := by
  have nobody : ∀ there : Pc → Bool, ¬ Leaves there config after := by
    rintro there ⟨i, before, behind⟩
    rw [points, before] at behind
    cases behind
  simp [watchAging, nobody]

theorem control_create {watch : AgingWatch ι} {i tid : ι} (here : config.point i = .enable .create)
    (dormant : config.point tid = .dormant) (different : tid ≠ i)
    (memory : after.memory = { config.memory with agingTid := some tid })
    (points : after.point =
      Function.update (Function.update config.point tid (.aging .start)) i (.client none)) :
    Control.Step (control config watch) (control after (watchAging watch config label after)) := by
  have nobody : ∀ there : Pc → Bool, there (.enable .create) = false → there .dormant = false →
      ¬ Leaves there config after := by
    rintro there parent child ⟨k, before, behind⟩
    rw [points, Function.update_apply, Function.update_apply] at behind
    split at behind
    case isTrue same => simp [same, here, parent] at before
    case isFalse =>
      split at behind
      case isTrue same => simp [same, dormant, child] at before
      case isFalse => simp [before] at behind
  have views : ∀ {β : Type} (view : Pc → β), (fun j => view (after.point j)) = Function.update
      (Function.update (fun j => view (config.point j)) tid (view (.aging .start))) i
      (view (.client none)) := by
    intro β view
    funext j
    rw [points, Function.apply_update (fun _ => view)]
    congr 1
    funext k
    exact Function.apply_update (fun _ => view) ..
  have started : (control config watch).stage i = some .started := congrArg Pc.stage here
  have fresh : (control config watch).created tid = false := congrArg Pc.isAging dormant
  convert Control.Step.create started fresh using 1
  have unchanged : ∀ {β : Type} (view : Pc → β), view (.aging .start) = view .dormant →
      (fun j => view (after.point j)) =
        Function.update (fun j => view (config.point j)) i (view (.client none)) := by
    intro β view same
    rw [views view]
    congr 1
    rw [Function.update_eq_self_iff, same, dormant]
  apply Control.ext
  · exact unchanged Pc.stage rfl
  · change (fun j => (after.point j).isAging) =
      Function.update (fun j => (config.point j).isAging) tid (Pc.aging .start).isAging
    rw [views Pc.isAging, Function.update_eq_self_iff, Function.update_of_ne (Ne.symm different), here]
    rfl
  · change (fun j => (after.point j).agingClosed) = fun j => (config.point j).agingClosed
    rw [unchanged Pc.agingClosed rfl, Function.update_eq_self_iff, here]
    rfl
  · change after.memory.agingEnable = config.memory.agingEnable
    rw [memory]
  · change after.memory.agingTid = some tid
    rw [memory]
  · simp [control, watchAging, nobody Pc.clearsFlag rfl rfl, Control.goto]
  · simp [control, watchAging, nobody Pc.atJoin rfl rfl, Control.goto]

/-- Calls that do not overlap refine the steps of the control of aging. -/
theorem control_step {watch : AgingWatch ι}
    (reaches : Reaches pool (fun _ _ => True) (threadPoolInit roles idCount) config)
    (safe : (control config watch).Safe) (serial : ControlSerial config label)
    (moves : Moves pool config label after) :
    control after (watchAging watch config label after) = control config watch ∨
      Control.Step (control config watch) (control after (watchAging watch config label after)) := by
  cases moves_step moves with
  | still memory points =>
      left
      rw [still_watch points, control, memory, points]
      rfl
  | @sync _ i next _ syncs memory points =>
      have turn : Turn config.memory (config.point i) after.memory next := by
        rw [memory]
        exact syncs_turn syncs
      obtain ⟨notSetting, notStops⟩ := syncs_controlStage syncs config.memory.agingEnable
      apply control_turn points turn
      · exact fun setting => absurd setting notSetting
      · simp [notStops]
  | @read i access middle next input _ arrives reads _ memory points =>
      have turn : Turn config.memory (config.point i) after.memory next := by
        rw [memory]
        exact arrives_turn arrives (reads_turn reads)
      apply control_turn points turn
      · intro setting outside
        cases reads with
        | notEnabled intervalMs promoteMs disabled =>
            have starts : (config.point i).starts config.memory.agingEnable = true := by
              rw [disabled]
              rcases arrives_behind arrives with here | syncs
              · rw [here]
                rfl
              · generalize config.point i = pc at syncs
                cases syncs
                rfl
            have others := serial.2 starts
            intro j
            refine ⟨begin_alone reaches safe arrives rfl disabled ?_ j, (others j).2.2⟩
            exact fun j => ⟨(others j).1, (others j).2.1⟩
        | call _ _ entry => cases entry <;> cases setting
        | _ => cases setting
      · exact serial.1
  | write arrives writes points =>
      apply control_turn points (arrives_turn arrives (writes_turn writes))
      · intro setting outside
        rw [arrives_stage arrives, writes_setting writes setting] at outside
        cases outside
      · exact serial.1
  | create here dormant different memory points =>
      exact .inr (control_create here dormant different memory points)
  | @createFails i _ here memory points =>
      have turn : Turn config.memory (config.point i) after.memory (.enable .undo) := by
        rw [here, memory]
        exact .keep ⟨rfl, rfl, rfl, rfl, rfl⟩ rfl rfl
      apply control_turn points turn
      · exact nofun
      · rw [here]
        exact nofun

omit [DecidableEq ι] [Fintype ι] in
theorem init_safe (roles : ι → Role) (idCount : Nat) :
    (control (threadPoolInit roles idCount) {}).Safe := by
  have stage : ∀ i, ((threadPoolInit roles idCount).point i).stage = none := by
    intro i
    change (roles i).start.stage = none
    cases roles i <;> rfl
  have created : ∀ i, ((threadPoolInit roles idCount).point i).isAging = false := by
    intro i
    change (roles i).start.isAging = false
    cases roles i <;> rfl
  refine ⟨fun i busy => absurd (stage i) busy, fun i _ => ?_, fun i closed => ?_, nofun⟩
  · change Control.Fact _ ((threadPoolInit roles idCount).point i).stage
    rw [stage i]
    refine ⟨nofun, fun _ j born => ?_⟩
    exact absurd born (by simp [control, created j])
  · refine ⟨rfl, stage⟩

theorem observed_safe {watch : AgingWatch ι}
    (observed : Observed pool watchAging (fun _ => ControlSerial) (threadPoolInit roles idCount) {}
      config watch) : (control config watch).Safe := by
  refine observed.invariant (fun config watch => (control config watch).Safe)
    (init_safe roles idCount) ?_
  intro config watch label after reaches safe serial moves
  rcases control_step reaches safe serial moves with same | step
  · rwa [same]
  · exact Control.step_safe safe step

/-- If enabling and disabling calls do not overlap, at most one aging thread has not been
told to stop, every join finds a created thread that was not joined before, no thread is
joined twice, and behind the disabling call of `thread_pool_destroy` all are joined. -/
theorem aging_threads_joined_once {watch : AgingWatch ι}
    (observed : Observed pool watchAging (fun _ => ControlSerial) (threadPoolInit roles idCount) {}
      config watch) :
    (∀ s t, (config.point s).isAging = true → (config.point t).isAging = true →
        watch.told s = false → watch.told t = false → s = t) ∧
      (∀ i, (config.point i).atJoin = true → ∃ tid, config.memory.agingTid = some tid ∧
        (config.point tid).isAging = true ∧ watch.joins tid = 0) ∧
      (∀ t, watch.joins t ≤ 1) ∧
      ∀ i, (config.point i).agingClosed = true → ∀ t, (config.point t).isAging = true →
        watch.joins t = 1 := by
  have safe := observed_safe observed
  refine ⟨fun s t => safe.untold_unique, ?_, ?_, ?_⟩
  · intro i joining
    have stage : (config.point i).stage = some .stopping := by
      generalize config.point i = pc at joining
      cases pc with
      | disable caller pc => cases pc <;> first | rfl | cases joining
      | _ => cases joining
    have fact : (control config watch).Fact (some .stopping) :=
      stage ▸ safe.fact i (safe.alone i (by simp [control, stage]))
    obtain ⟨tid, current, created, unjoined, _⟩ := fact.2.1
    exact ⟨tid, current, created, unjoined⟩
  · intro t
    by_cases joined : watch.joins t = 0
    · omega
    · exact (safe.joined t joined).1.le
  · intro i closed
    obtain ⟨disabled, idle⟩ := safe.closed i closed
    have fact : (control config watch).Fact none := idle i ▸ safe.fact i fun j _ => idle j
    exact fact.2 disabled

end Watch

/-- The call of `thread_pool_disable_aging` by thread `i` up to its join. -/
def disableSteps {ι : Type} (i : ι) : List (Label ι Input) :=
  [.run i (.call .disableAging), go i, go i, go i, .pick i none, go i, go i, go i, go i]

/-- Thread 1 enables aging, and thread 2 disables it afterwards. -/
theorem aging_threads_joined_once_serial : ∃ config watch,
    Observed pool watchAging (fun _ => ControlSerial) (threadPoolInit withSpare 0) {} config watch ∧
      (config.point 2).atJoin = true ∧ ∃ tid, config.memory.agingTid = some tid ∧
        (config.point tid).isAging = true ∧ watch.joins tid = 0 := by
  obtain ⟨config, watch, observed, joining⟩ := Observed.of_schedule pool watchAging
    (fun _ => ControlSerial) (threadPoolInit withSpare 0) {}
    (enableSteps 1 ++ [.pick 1 (some 3)] ++ disableSteps 2)
    (fun config _ => (config.point 2).atJoin = true) (by decide)
  exact ⟨config, watch, observed, joining, (aging_threads_joined_once observed).2.1 2 joining⟩

/-- Thread 1 has set the flag and not created the thread yet when thread 2 comes to join it. -/
theorem disable_joins_nobody : ∃ config watch,
    Observed pool watchAging (fun _ _ _ => True) (threadPoolInit withSpare 0) {} config watch ∧
      (config.point 2).atJoin = true ∧ config.memory.agingTid = none :=
  Observed.of_schedule pool watchAging (fun _ _ _ => True) (threadPoolInit withSpare 0) {}
    (enableSteps 1 ++ disableSteps 2)
    (fun config _ => (config.point 2).atJoin = true ∧ config.memory.agingTid = none) (by decide)

end ThreadPool.Pool
