import ThreadPool.Foundation.Observation
import ThreadPool.Monitor.Account
import ThreadPool.Monitor.Override

namespace ThreadPool.Monitor

open Foundation Pool

/-! # The life of the monitor threads

The account is kept by every step of every run with one controlling thread: by its own
steps because its knowledge is passed on from point to point, and by all others because
they only clear `running`.
-/

variable {ι : Type}

section Invariant

variable {roles : ι → MonitoredRole} {config final : MonitoredConfig ι}
  {label : Label ι (MonitorInput ι)} {note : MonitorNote ι} {c i : ι} {p q : Point}
  {shared after : Shared ι} {joined : List ι}

/-- Inside a call that may create a thread. -/
def Point.late : Point → Bool
  | .control _ (.start _) => true
  | .control _ (.reattach .load) => false
  | .control _ (.reattach .loadInit) => false
  | .control _ (.reattach _) => true
  | _ => false

/-- Before the call of `monitor_start`. -/
structure Fresh (c : ι) (roles : ι → MonitoredRole) (config : MonitoredConfig ι) : Prop where
  invalid : config.memory.tidValid = false
  never : config.memory.everInit = false
  spare : ∀ t, roles t = .monitor → config.memory.spare t = true
  early : (config.point c).late = false

structure Lifecycle (c : ι) (roles : ι → MonitoredRole) (config : MonitoredConfig ι)
    (note : MonitorNote ι) : Prop where
  controls : ∀ i, (config.point i).place = .control → i = c
  unborn : ∀ i, (config.point i).place = .unborn → roles i = .monitor
  alive : ∀ i, (config.point i).place = .live → roles i = .monitor ∧ config.memory.spare i = false
  spare : ∀ t, config.memory.spare t = true → roles t = .monitor
  exited : ∀ t ∈ note.joined, config.point t = .monitor .exited ∧ config.memory.spare t = false
  recorded : ∀ t, Unjoined roles config.memory note.joined t → config.memory.tid = some t
  knows : (config.point c).knows.Holds roles config.memory note.joined
  fresh : note.started = false → Fresh c roles config

theorem knows_of_place (outside : p.place ≠ .control) : p.knows = { ledger := .idle } := by
  cases p with
  | control => exact absurd rfl outside
  | _ => rfl

theorem late_of_place (outside : p.place ≠ .control) : p.late = false := by
  cases p with
  | control => exact absurd rfl outside
  | _ => rfl

theorem joins_of_place (outside : p.place ≠ .control) : p.joinsMonitor = false := by
  cases p with
  | control => exact absurd rfl outside
  | _ => rfl

/-- A move that the controlling thread need not know about. -/
structure Passes (shared : Shared ι) (i : ι) (p q : Point) : Prop where
  knows : q.knows = p.knows
  outside : q.place ≠ .control
  moving : p ≠ .monitor .exited
  born : q.place ≠ .unborn
  live : q.place = .live → p.place = .live ∨ (p.place = .unborn ∧ shared.spare i = false)

theorem passes_of_place (same : p.place = q.place) (place : p.place = .pool ∨ p.place = .live) :
    Passes shared i p q := by
  have outside : p.place ≠ .control := by rcases place with place | place <;> rw [place] <;> nofun
  refine ⟨?_, same ▸ outside, ?_, ?_, fun live => .inl (same.trans live)⟩
  · rw [knows_of_place outside, knows_of_place (same ▸ outside)]
  · rintro rfl
    rcases place with place | place <;> cases place
  · rw [← same]
    rcases place with place | place <;> rw [place] <;> nofun

/-- A step that leaves the account alone. -/
theorem lifecycle_calm {other : MonitorNote ι} (lifecycle : Lifecycle c roles config note)
    (calms : Calms config.memory final.memory)
    (points : ∀ k, final.point k = config.point k ∨
      Passes config.memory k (config.point k) (final.point k))
    (init : final.memory.everInit = true → config.memory.everInit = true ∨
      ∃ k, (config.point k).place = .live)
    (joined : other.joined = note.joined) (started : other.started = false → note.started = false) :
    Lifecycle c roles final other := by
  have live : ∀ k, (final.point k).place = .live →
      roles k = .monitor ∧ config.memory.spare k = false := by
    intro k alive
    rcases points k with same | passes
    · exact lifecycle.alive k (same ▸ alive)
    · rcases passes.live alive with before | ⟨before, created⟩
      · exact lifecycle.alive k before
      · exact ⟨lifecycle.unborn k before, created⟩
  constructor
  case controls =>
    intro k inside
    rcases points k with same | passes
    · exact lifecycle.controls k (same ▸ inside)
    · exact absurd inside passes.outside
  case unborn =>
    intro k unborn
    rcases points k with same | passes
    · exact lifecycle.unborn k (same ▸ unborn)
    · exact absurd unborn passes.born
  case alive =>
    intro k alive
    rw [calms.spare]
    exact live k alive
  case spare =>
    rw [calms.spare]
    exact lifecycle.spare
  case exited =>
    intro t member
    rw [joined] at member
    obtain ⟨exited, created⟩ := lifecycle.exited t member
    rcases points t with same | passes
    · exact ⟨same.trans exited, by rwa [calms.spare]⟩
    · exact absurd exited passes.moving
  case recorded =>
    intro t unjoined
    rw [joined] at unjoined
    exact calms.tid.trans (lifecycle.recorded t ((calms.unjoined t).mp unjoined))
  case knows =>
    rw [joined]
    rcases points c with same | passes
    · rw [same]
      exact calms.holds lifecycle.knows
    · rw [passes.knows]
      exact calms.holds lifecycle.knows
  case fresh =>
    intro unstarted
    have fresh := lifecycle.fresh (started unstarted)
    refine ⟨calms.tidValid.trans fresh.invalid, ?_, by rw [calms.spare]; exact fresh.spare, ?_⟩
    · cases ever : final.memory.everInit with
      | false => rfl
      | true =>
          rcases init ever with before | ⟨k, alive⟩
          · rw [fresh.never] at before
            cases before
          · obtain ⟨monitor, created⟩ := lifecycle.alive k alive
            rw [fresh.spare k monitor] at created
            cases created
    · rcases points c with same | passes
      · rw [same]
        exact fresh.early
      · exact late_of_place passes.outside

theorem controls_early {joinable : Prop} [DecidableEq ι] {caller : Caller} {pc next : ControlPc}
    (controls : Controls joinable shared pc after next)
    (early : (Point.control caller pc).late = false) (never : shared.everInit = false)
    (invalid : shared.tidValid = false) :
    after.tidValid = false ∧ after.everInit = false ∧ after.spare = shared.spare ∧
      (Point.control caller next).late = false := by
  cases controls with
  | reattachKnown known =>
      rw [never] at known
      cases known
  | stopRunning | stopIdle | stopStore | stopValid | stopNone | stopJoin | detachRunning | detachIdle |
      detachStore | detachJoin | reattachRunning | reattachIdle | reattachNever =>
      exact ⟨invalid, never, rfl, rfl⟩
  | stopClear | detachClear => exact ⟨rfl, never, rfl, rfl⟩
  | _ => cases early

theorem watch_started (unstarted : (watchMonitor note config label final).started = false) :
    note.started = false ∧ ∀ begun ∈ beginsCall config label, begun.2 ≠ .start := by
  simp only [watchMonitor, Bool.or_eq_false_iff, decide_eq_false_iff_not, not_exists,
    not_and] at unstarted
  exact unstarted

theorem watch_joined {input : Option (MonitorInput ι)} (mover : stepBy label = some (i, input)) :
    (watchMonitor note config label final).joined = if (config.point i).joinsMonitor then
      config.memory.tid.toList ++ note.joined else note.joined := by
  simp only [watchMonitor, mover]

theorem watch_quiet {input : Option (MonitorInput ι)} (mover : stepBy label = some (i, input))
    (quiet : (config.point i).joinsMonitor = false) :
    (watchMonitor note config label final).joined = note.joined := by
  rw [watch_joined mover, quiet]
  rfl

theorem stepBy_run {input : MonitorInput ι} (mover : stepBy label = some (i, some input)) :
    label = .run i input := by
  cases label <;> cases mover
  rfl

section Controller

variable [DecidableEq ι]

/-- What a step of a call does to the threads that can be created and to `tid`. -/
theorem controls_threads {joinable : Prop} {pc next : ControlPc}
    (controls : Controls joinable shared pc after next) :
    (after.spare = shared.spare ∧ after.tid = shared.tid) ∨
      (∃ child, shared.spare child = true ∧ after.tid = some child ∧
        after.spare = Function.update shared.spare child false ∧ pc.knows.ledger = .settled ∧
        ∀ caller, (Point.control caller pc).joinsMonitor = false) := by
  have create : ∀ {child}, shared.createMonitor child = some after → shared.spare child = true ∧
      after.tid = some child ∧ after.spare = Function.update shared.spare child false := by
    intro child created
    unfold Shared.createMonitor at created
    split at created
    case isTrue available =>
      cases created
      exact ⟨available, rfl, rfl⟩
    case isFalse => cases created
  cases controls with
  | startCreate created | reattachCreate created =>
      obtain ⟨available, tid, spare⟩ := create created
      exact .inr ⟨_, available, tid, spare, rfl, fun _ => rfl⟩
  | _ => exact .inl ⟨rfl, rfl⟩

theorem joins_controls {joinable : Prop} {caller : Caller} {pc next : ControlPc}
    (controls : Controls joinable shared pc after next)
    (joins : (Point.control caller pc).joinsMonitor = true) :
    joinable ∧ pc.knows.ledger = .outstanding := by
  cases controls with
  | stopJoin exited | detachJoin exited | reattachJoin exited => exact ⟨exited, rfl⟩
  | _ => cases joins

/-- A move of the controlling thread inside the calls leaves every thread in its place. -/
theorem Lifecycle.places {caller : Caller} {next : ControlPc} (lifecycle : Lifecycle c roles config note)
    (points : final.point = Function.update config.point c (.control caller next))
    (fewer : ∀ t, config.memory.spare t = false → final.memory.spare t = false) :
    (∀ k, (final.point k).place = .control → k = c) ∧
      (∀ k, (final.point k).place = .unborn → roles k = .monitor) ∧
      (∀ k, (final.point k).place = .live → roles k = .monitor ∧ final.memory.spare k = false) ∧
      ∀ t, final.memory.spare t = true → roles t = .monitor := by
  have moved : ∀ k, (k = c ∧ (final.point k).place = .control) ∨ final.point k = config.point k := by
    intro k
    rw [points, Function.update_apply]
    split
    case isTrue mine => exact .inl ⟨mine, rfl⟩
    case isFalse => exact .inr rfl
  refine ⟨fun k inside => ?_, fun k unborn => ?_, fun k alive => ?_, fun t available => ?_⟩
  · rcases moved k with ⟨mine, _⟩ | same
    · exact mine
    · exact lifecycle.controls k (same ▸ inside)
  · rcases moved k with ⟨_, inside⟩ | same
    · cases inside.symm.trans unborn
    · exact lifecycle.unborn k (same ▸ unborn)
  · rcases moved k with ⟨_, inside⟩ | same
    · cases inside.symm.trans alive
    · obtain ⟨monitor, created⟩ := lifecycle.alive k (same ▸ alive)
      exact ⟨monitor, fewer k created⟩
  · apply lifecycle.spare t
    cases before : config.memory.spare t with
    | true => rfl
    | false => cases (fewer t before).symm.trans available

/-- A thread that has exited is not the one that moves. -/
theorem exited_stays {t : ι} (points : final.point = Function.update config.point c q)
    (running : config.point c ≠ .monitor .exited) (exited : config.point t = .monitor .exited) :
    final.point t = .monitor .exited := by
  rw [points, Function.update_of_ne ?_, exited]
  rintro rfl
  exact running exited

/-- A step of the controlling thread inside a call. -/
theorem lifecycle_control {caller : Caller} {pc next : ControlPc} {other : MonitorNote ι}
    (lifecycle : Lifecycle c roles config note) (here : config.point c = .control caller pc)
    (controls : Controls (Joinable config) config.memory pc final.memory next)
    (points : final.point = Function.update config.point c (.control caller next))
    (joined : other.joined = if (Point.control caller pc).joinsMonitor then
      config.memory.tid.toList ++ note.joined else note.joined)
    (started : other.started = false → note.started = false) : Lifecycle c roles final other := by
  have knows := lifecycle.knows
  rw [here] at knows
  have arrives : final.point c = .control caller next := by rw [points, Function.update_self]
  have threads := controls_threads controls
  have fewer : ∀ t, config.memory.spare t = false → final.memory.spare t = false := by
    intro t created
    rcases threads with ⟨same, _⟩ | ⟨child, _, _, spare, _⟩
    · rwa [same]
    · rw [spare, Function.update_apply]
      split
      · rfl
      · exact created
  obtain ⟨inside, unborn, alive, spare⟩ := lifecycle.places points fewer
  refine ⟨inside, unborn, alive, spare, ?exited, ?recorded, ?knows, ?fresh⟩
  case exited =>
    intro t member
    have exited : config.point t = .monitor .exited ∧ config.memory.spare t = false := by
      rw [joined] at member
      split at member
      case isTrue joins =>
        obtain ⟨joinable, outstanding⟩ := joins_controls controls joins
        rcases List.mem_append.mp member with target | old
        · have ledger := knows.ledger
          rw [show (Point.control caller pc).knows.ledger = .outstanding from outstanding] at ledger
          obtain ⟨s, recorded, _, created, _⟩ := ledger
          rw [recorded] at target
          cases List.mem_singleton.mp target
          exact ⟨joinable t recorded, created⟩
        · exact lifecycle.exited t old
      case isFalse => exact lifecycle.exited t member
    exact ⟨exited_stays points (by rw [here]; nofun) exited.1, fewer t exited.2⟩
  case recorded =>
    intro t unjoined
    obtain ⟨monitor, created, missing⟩ := unjoined
    have unnoted : t ∉ note.joined := by
      intro member
      apply missing
      rw [joined]
      split
      · exact List.mem_append.mpr (.inr member)
      · exact member
    rcases threads with ⟨spare, tid⟩ | ⟨child, available, tid, spare, settled, _⟩
    · rw [spare] at created
      exact tid.trans (lifecycle.recorded t ⟨monitor, created, unnoted⟩)
    · rw [spare, Function.update_apply] at created
      split at created
      case isTrue same => rw [same, tid]
      case isFalse =>
        have ledger := knows.ledger
        rw [show (Point.control caller pc).knows.ledger = .settled from settled] at ledger
        exact absurd ⟨monitor, created, unnoted⟩ (ledger t)
  case knows =>
    rw [arrives, joined]
    exact controls_holds caller controls lifecycle.spare (fun t member => (lifecycle.exited t member).2)
      lifecycle.recorded knows
  case fresh =>
    intro unstarted
    have fresh := lifecycle.fresh (started unstarted)
    obtain ⟨invalid, never, spare, early⟩ :=
      controls_early controls (here ▸ fresh.early) fresh.never fresh.invalid
    exact ⟨invalid, never, by rw [spare]; exact fresh.spare, by rw [arrives]; exact early⟩

/-- The controlling thread begins a call. -/
theorem lifecycle_begin {caller : Caller} {call : ControlCall} {other : MonitorNote ι}
    (lifecycle : Lifecycle c roles config note) (outside : (config.point c).place = .pool)
    (once : call = .start → note.started = false) (memory : final.memory = config.memory)
    (points : final.point = Function.update config.point c (.control caller call.entry))
    (joined : other.joined = note.joined)
    (started : other.started = false → note.started = false ∧ call ≠ .start) :
    Lifecycle c roles final other := by
  have arrives : final.point c = .control caller call.entry := by rw [points, Function.update_self]
  have idle := lifecycle.knows
  rw [knows_of_place (by rw [outside]; nofun)] at idle
  obtain ⟨inside, unborn, alive, spare⟩ := lifecycle.places points (by rw [memory]; exact fun _ => id)
  refine ⟨inside, unborn, alive, spare, ?exited, ?recorded, ?knows, ?fresh⟩
  case exited =>
    intro t member
    rw [joined] at member
    obtain ⟨exited, created⟩ := lifecycle.exited t member
    refine ⟨exited_stays points (fun gone => ?_) exited, by rwa [memory]⟩
    rw [gone] at outside
    cases outside
  case recorded =>
    rw [memory, joined]
    exact lifecycle.recorded
  case knows =>
    rw [arrives, memory, joined]
    cases call with
    | start =>
        refine ⟨idle.ledger, fun flag known => ?_, nofun⟩
        cases known
        exact (lifecycle.fresh (once rfl)).invalid
    | _ => exact ⟨idle.ledger, nofun, nofun⟩
  case fresh =>
    intro unstarted
    obtain ⟨before, other⟩ := started unstarted
    have fresh := lifecycle.fresh before
    refine ⟨by rw [memory]; exact fresh.invalid, by rw [memory]; exact fresh.never,
      by rw [memory]; exact fresh.spare, ?_⟩
    rw [arrives]
    cases call with
    | start => exact absurd rfl other
    | _ => rfl

/-- The steps of the pool, of the monitor thread and the returns leave the account alone. -/
theorem lifecycle_acts {input : Option (MonitorInput ι)} (lifecycle : Lifecycle c roles config note)
    (mover : stepBy label = some (i, input)) (here : config.point i = p)
    (points : final.point = Function.update config.point i q) (quiet : p.joinsMonitor = false)
    (calms : Calms config.memory final.memory) (passes : Passes config.memory i p q)
    (init : final.memory.everInit = true → config.memory.everInit = true ∨ p.place = .live) :
    Lifecycle c roles final (watchMonitor note config label final) := by
  refine lifecycle_calm lifecycle calms (fun k => ?_) (fun ever => ?_)
    (watch_quiet mover (by rw [here]; exact quiet)) fun unstarted => (watch_started unstarted).1
  · by_cases mine : k = i
    · right
      rw [mine, points, Function.update_self, here]
      exact passes
    · left
      rw [points, Function.update_of_ne mine]
  · exact (init ever).imp_right fun live => ⟨i, by rw [here]; exact live⟩

theorem lifecycle_step (lifecycle : Lifecycle c roles config note)
    (permitted : OneController c note config label) (moves : Moves monitored config label final) :
    Lifecycle c roles final (watchMonitor note config label final) := by
  cases moves_monitorStep moves with
  | still memory points =>
      refine lifecycle_calm lifecycle (by rw [memory]; exact .refl _) (fun k => .inl ?_)
        (fun ever => ?_) rfl fun unstarted => (watch_started unstarted).1
      · rw [points]
      · rw [memory] at ever
        exact .inl ever
  | @create k child written q start _ visible dormant memory same place points =>
      obtain ⟨outside, _⟩ := code_lifted k visible
      refine lifecycle_calm lifecycle (by rw [memory]; exact ⟨rfl, rfl, rfl, id⟩) (fun j => ?_)
        (fun ever => ?_) (watch_quiet rfl (joins_of_place ?_))
        fun unstarted => (watch_started unstarted).1
      · rw [points, Function.update_apply, Function.update_apply]
        split
        case isTrue mine =>
          rw [mine]
          exact .inr (passes_of_place same.symm outside)
        case isFalse =>
          split
          case isTrue mine =>
            rw [mine, dormant]
            exact .inr (passes_of_place place.symm (.inl rfl))
          case isFalse => exact .inl rfl
      · rw [memory] at ever
        exact .inl ever
      · rcases outside with outside | outside <;> rw [outside] <;> nofun
  | @acts _ k input q _ mover acts points =>
      generalize here : config.point k = p at acts
      generalize written : final.memory = after at acts
      have act := @lifecycle_acts _ roles config final label note c k p q _ input lifecycle mover
        here points
      rw [written] at act
      cases acts with
      | pool memory same place =>
          have outside : p.place ≠ .control := by
            rcases place with place | place <;> rw [place] <;> nofun
          exact act (joins_of_place outside) ⟨rfl, rfl, rfl, id⟩ (passes_of_place same place) .inl
      | begin last call given =>
          subst given
          cases stepBy_run mover
          have begins : beginsCall config (.run k (.control call)) = some (k, call) := by
            simp [beginsCall, here]
          obtain ⟨rfl, once⟩ := permitted _ begins
          refine lifecycle_begin lifecycle (by rw [here]; rfl) once written points
            (watch_quiet mover (by rw [here]; rfl)) fun unstarted => ?_
          exact ⟨(watch_started unstarted).1, (watch_started unstarted).2 _ begins⟩
      | beginStop given =>
          obtain ⟨input, rfl⟩ := Option.isSome_iff_exists.mp given
          cases stepBy_run mover
          have begins : beginsCall config (.run k input) = some (k, .stop) := by simp [beginsCall, here]
          obtain ⟨rfl, once⟩ := permitted _ begins
          refine lifecycle_begin lifecycle (by rw [here]; rfl) once written points
            (watch_quiet mover (by rw [here]; rfl)) fun unstarted => ?_
          exact ⟨(watch_started unstarted).1, nofun⟩
      | @control caller pc _ next controls =>
          cases lifecycle.controls k (by rw [here]; rfl)
          rw [← written] at controls
          refine lifecycle_control lifecycle here controls points ?_ fun unstarted =>
            (watch_started unstarted).1
          rw [watch_joined mover, here]
      | finish caller result =>
          exact act rfl (.refl _) ⟨rfl, nofun, nofun, nofun, nofun⟩ .inl
      | born created =>
          exact act rfl (.refl _) ⟨rfl, nofun, nofun, nofun, fun _ => .inr ⟨rfl, created⟩⟩ .inl
      | init => exact act rfl ⟨rfl, rfl, rfl, id⟩ (passes_of_place rfl (.inr rfl)) fun _ => .inr rfl
      | quit => exact act rfl ⟨rfl, rfl, rfl, nofun⟩ (passes_of_place rfl (.inr rfl)) .inl
      | exit => exact act rfl (.refl _) ⟨rfl, nofun, nofun, nofun, nofun⟩ .inl

/-- A step after which the controlling thread is elsewhere in its call. -/
theorem control_moved {caller : Caller} {pc next : ControlPc}
    (moves : Moves monitored config label final) (here : config.point c = .control caller pc)
    (there : final.point c = .control caller next) (different : pc ≠ next) :
    Controls (Joinable config) config.memory pc final.memory next := by
  have unmoved : ∀ {point : Point}, point = .control caller pc →
      point = .control caller next → False := by
    rintro _ rfl same
    exact different (Point.control.inj same).2
  cases moves_monitorStep moves with
  | still _ points =>
      rw [points] at there
      exact (unmoved here there).elim
  | @create k child _ q start _ visible dormant _ same place points =>
      rw [points, Function.update_apply, Function.update_apply] at there
      split at there
      case isTrue mine =>
        rw [← mine, here] at visible
        cases visible
      case isFalse =>
        split at there
        case isTrue =>
          rw [there] at place
          cases place
        case isFalse => exact (unmoved here there).elim
  | @acts _ k input q _ mover acts points =>
      rw [points, Function.update_apply] at there
      split at there
      case isTrue mine =>
        rw [← mine, here, there] at acts
        generalize final.memory = after at acts
        cases acts with
        | pool _ _ place => rcases place with place | place <;> cases place
        | control controls => exact controls
      case isFalse => exact (unmoved here there).elim

end Controller

theorem stop_returns {joinable : Prop} [DecidableEq ι] {pc : StopPc} {result : Option Int}
    (controls : Controls joinable shared (.stop pc) after (.returned result)) :
    after.tidValid = false := by
  cases controls with
  | stopNone invalid => exact invalid
  | stopClear => rfl

theorem reattach_returns {joinable : Prop} [DecidableEq ι] {pc : ReattachPc}
    (controls : Controls joinable shared (.reattach pc) after (.returned (some 0))) :
    after.tidValid = true := by
  cases controls
  rfl

theorem joins_knows (joins : p.joinsMonitor = true) : p.knows.ledger = .outstanding := by
  cases p with
  | control caller pc =>
      cases pc with
      | start pc | stop pc | detach pc | reattach pc => cases pc <;> first | rfl | cases joins
      | returned => cases joins
  | _ => cases joins

end Invariant

theorem place_start (role : MonitoredRole) : role.start.place ≠ .control ∧ role.start.place ≠ .live ∧
    (role.start.place = .unborn → role = .monitor) := by
  cases role with
  | pool role => exact ⟨nofun, nofun, nofun⟩
  | monitor => exact ⟨nofun, nofun, fun _ => rfl⟩

theorem lifecycle_init (c : ι) (roles : ι → MonitoredRole) (idCount : Nat) :
    Lifecycle c roles (monitoredInit roles idCount) {} := by
  have start : ∀ i, (monitoredInit roles idCount).point i = (roles i).start := fun _ => rfl
  have settled : Settled roles (monitoredInit roles idCount).memory [] := by
    rintro t ⟨monitor, created, _⟩
    exact absurd monitor (of_decide_eq_false created)
  constructor
  case controls => exact fun i inside => absurd inside (place_start (roles i)).1
  case unborn => exact fun i unborn => (place_start (roles i)).2.2 unborn
  case alive => exact fun i alive => absurd alive (place_start (roles i)).2.1
  case spare => exact fun t available => of_decide_eq_true available
  case exited => nofun
  case recorded => exact fun t unjoined => absurd unjoined (settled t)
  case knows =>
    rw [start, knows_of_place (place_start (roles c)).1]
    exact ⟨idle_of_settled settled rfl rfl, nofun, nofun⟩
  case fresh =>
    intro _
    refine ⟨rfl, rfl, fun t monitor => decide_eq_true monitor, ?_⟩
    rw [start]
    exact late_of_place (place_start (roles c)).1

section Runs

variable [DecidableEq ι] [Fintype ι] {roles : ι → MonitoredRole} {config after : MonitoredConfig ι}
  {label : Label ι (MonitorInput ι)} {note : MonitorNote ι} {c : ι} {idCount : Nat}

theorem observed_lifecycle
    (observed : Observed monitored watchMonitor (OneController c) (monitoredInit roles idCount) {} config
      note) : Lifecycle c roles config note := by
  apply observed.invariant (Lifecycle c roles)
  · exact lifecycle_init c roles idCount
  · intro config note label after _ lifecycle permitted moves
    exact lifecycle_step lifecycle permitted moves

/-- With one controlling thread that starts the monitor at most once: at most one monitor
thread is live; a join targets a created thread that was not joined before; `running` at a
return means an unjoined thread recorded by `tid_valid`; when `monitor_stop` returns every
created thread was joined; and when `monitor_reattach` returns 0 every one but the new one. -/
theorem monitor_lifecycle
    (observed : Observed monitored watchMonitor (OneController c) (monitoredInit roles idCount) {} config
      note) :
    (∀ s t, LiveMonitor roles config s → LiveMonitor roles config t → s = t) ∧
      (∀ i, (config.point i).joinsMonitor = true → ∃ t, config.memory.tid = some t ∧
        Unjoined roles config.memory note.joined t) ∧
      (∀ caller result, config.point c = .control caller (.returned result) →
        config.memory.running = true → config.memory.tidValid = true ∧
          ∃ t, config.memory.tid = some t ∧ Unjoined roles config.memory note.joined t) ∧
      ∀ label after, OneController c note config label → monitored.step config label = some after →
        (∀ caller pc result, config.point c = .control caller (.stop pc) →
          after.point c = .control caller (.returned result) →
          ∀ t, ¬ Unjoined roles after.memory (watchMonitor note config label after).joined t) ∧
        ∀ caller pc, config.point c = .control caller (.reattach pc) →
          after.point c = .control caller (.returned (some 0)) →
          ∃ t, after.memory.tid = some t ∧
            Unjoined roles after.memory (watchMonitor note config label after).joined t ∧
            ∀ s, s ≠ t →
              ¬ Unjoined roles after.memory (watchMonitor note config label after).joined s := by
  have lifecycle := observed_lifecycle observed
  refine ⟨?_, ?_, ?_, ?_⟩
  · intro s t live alive
    have recorded : ∀ t, LiveMonitor roles config t → config.memory.tid = some t := by
      rintro t ⟨monitor, created, running⟩
      exact lifecycle.recorded t ⟨monitor, created, fun member => running (lifecycle.exited t member).1⟩
    exact Option.some.inj ((recorded s live).symm.trans (recorded t alive))
  · intro i joins
    have inside : (config.point i).place = .control := by
      by_contra outside
      rw [joins_of_place outside] at joins
      cases joins
    cases lifecycle.controls i inside
    have outstanding := lifecycle.knows.ledger
    rw [joins_knows joins] at outstanding
    exact outstanding
  · intro caller result returned running
    have idle := lifecycle.knows.ledger
    rw [returned] at idle
    exact ⟨idle.running running, idle.valid (idle.running running)⟩
  · intro label after permitted stepped
    have moves := step_moves stepped
    have later := lifecycle_step lifecycle permitted moves
    constructor
    · intro caller pc result here returned
      have idle := later.knows.ledger
      rw [returned] at idle
      exact idle.invalid (stop_returns (control_moved moves here returned nofun))
    · intro caller pc here returned
      have idle := later.knows.ledger
      rw [returned] at idle
      have valid := reattach_returns (control_moved moves here returned nofun)
      obtain ⟨t, recorded, unjoined⟩ := idle.valid valid
      refine ⟨t, recorded, unjoined, fun s other missing => other ?_⟩
      exact Option.some.inj ((later.recorded s missing).symm.trans recorded)

end Runs

/-- Thread 1 is an application thread; threads 2 and 3 can become monitor threads. -/
def withMonitors (i : Fin 4) : MonitoredRole :=
  if i.val = 0 then .pool .worker else if i.val = 1 then .pool .client else .monitor

/-- Thread `i` starts the monitor, whose thread quits; it reattaches and stops it, up to the
store behind the second join. -/
def quitAndReattach {ι : Type} (i first second : ι) : List (Label ι (MonitorInput ι)) :=
  startSteps i first ++ [.run first (.key .quit), monitorGo first, monitorGo first] ++
  .run i (.control .reattach) :: List.replicate 6 (monitorGo i) ++
  [.run i (.thread (some second)), monitorGo i, monitorGo i, .run i (.control .stop), monitorGo i,
    monitorGo i] ++
  List.replicate 3 (monitorGo second) ++ [monitorGo i, monitorGo i]

theorem monitor_lifecycle_quitAndReattach : ∃ (config after : MonitoredConfig (Fin 4))
    (note : MonitorNote (Fin 4)),
    Observed monitored watchMonitor (OneController 1) (monitoredInit withMonitors 0) {} config note ∧
      config.point 1 = .control (.client none) (.stop .clearValid) ∧
      monitored.step config (monitorGo 1) = some after ∧
      after.point 1 = .control (.client none) (.returned none) ∧
      after.memory.spare 2 = false ∧ after.memory.spare 3 = false ∧
      ∀ t, ¬ Unjoined withMonitors after.memory
        (watchMonitor note config (monitorGo 1) after).joined t := by
  obtain ⟨config, note, observed, here, permitted, stepped⟩ := Observed.of_schedule monitored
    watchMonitor (OneController 1) (monitoredInit withMonitors 0) {} (quitAndReattach 1 2 3)
    (fun config note => config.point 1 = .control (.client none) (.stop .clearValid) ∧
      OneController 1 note config (monitorGo 1) ∧
      (monitored.step config (monitorGo 1)).any (fun after =>
        decide (after.point 1 = .control (.client none) (.returned none) ∧
          after.memory.spare 2 = false ∧ after.memory.spare 3 = false)) = true)
    (by decide)
  obtain ⟨after, stepped, ends⟩ := (Option.any_eq_true ..).mp stepped
  obtain ⟨returned, second, third⟩ := of_decide_eq_true ends
  refine ⟨config, after, note, observed, here, stepped, returned, second, third, ?_⟩
  exact ((monitor_lifecycle observed).2.2.2 _ after permitted stepped).1 _ _ _ here returned

end ThreadPool.Monitor
