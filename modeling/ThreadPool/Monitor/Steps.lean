import ThreadPool.Monitor.Refinement

namespace ThreadPool.Monitor

open Foundation Pool

/-! # Steps on the monitor

What a step of any thread does to the fields of `struct monitor_t`, with the threads of
the pool and the running monitor thread reduced to the little they can do to them.
-/

variable {ι : Type} [DecidableEq ι]

/-- Where a thread stands as far as the monitor is concerned. -/
inductive Place where
  | pool
  | control
  | unborn
  | live
  | exited
deriving DecidableEq

def Point.place : Point → Place
  | .pool _ => .pool
  | .control _ _ => .control
  | .monitor .unborn => .unborn
  | .monitor .exited => .exited
  | .monitor _ => .live

/-- The calls on the monitor: program point and memory before and after. `joinable` says
that the thread in `tid` has exited. -/
inductive Controls (joinable : Prop) (shared : Shared ι) : ControlPc → Shared ι → ControlPc → Prop
  | startRunning : shared.running = true →
      Controls joinable shared (.start .load) shared (.returned none)
  | startIdle : shared.running = false → Controls joinable shared (.start .load) shared (.start .store)
  | startStore :
      Controls joinable shared (.start .store) (shared.setRunning true) (.start .create)
  | startCreate {after child} : shared.createMonitor child = some after →
      Controls joinable shared (.start .create) after (.start .setValid)
  | startFails : Controls joinable shared (.start .create) shared (.start .undo)
  | startUndo :
      Controls joinable shared (.start .undo) (shared.setRunning false) (.returned none)
  | startValid :
      Controls joinable shared (.start .setValid) (shared.setValid true) (.returned none)
  | stopRunning : shared.running = true → Controls joinable shared (.stop .load) shared (.stop .store)
  | stopIdle : shared.running = false →
      Controls joinable shared (.stop .load) shared (.stop .testValid)
  | stopStore :
      Controls joinable shared (.stop .store) (shared.setRunning false) (.stop .testValid)
  | stopValid : shared.tidValid = true →
      Controls joinable shared (.stop .testValid) shared (.stop .join)
  | stopNone : shared.tidValid = false →
      Controls joinable shared (.stop .testValid) shared (.returned none)
  | stopJoin : joinable → Controls joinable shared (.stop .join) shared (.stop .clearValid)
  | stopClear :
      Controls joinable shared (.stop .clearValid) (shared.setValid false) (.returned none)
  | detachRunning : shared.running = true →
      Controls joinable shared (.detach .load) shared (.detach .store)
  | detachIdle : shared.running = false →
      Controls joinable shared (.detach .load) shared (.returned (some (-1)))
  | detachStore :
      Controls joinable shared (.detach .store) (shared.setRunning false) (.detach .join)
  | detachJoin : joinable → Controls joinable shared (.detach .join) shared (.detach .clearValid)
  | detachClear :
      Controls joinable shared (.detach .clearValid) (shared.setValid false) (.returned (some 0))
  | reattachRunning : shared.running = true →
      Controls joinable shared (.reattach .load) shared (.returned (some (-1)))
  | reattachIdle : shared.running = false →
      Controls joinable shared (.reattach .load) shared (.reattach .loadInit)
  | reattachKnown : shared.everInit = true →
      Controls joinable shared (.reattach .loadInit) shared (.reattach .testValid)
  | reattachNever : shared.everInit = false →
      Controls joinable shared (.reattach .loadInit) shared (.returned (some (-1)))
  | reattachValid : shared.tidValid = true →
      Controls joinable shared (.reattach .testValid) shared (.reattach .join)
  | reattachNone : shared.tidValid = false →
      Controls joinable shared (.reattach .testValid) shared (.reattach .store)
  | reattachJoin : joinable →
      Controls joinable shared (.reattach .join) shared (.reattach .clearValid)
  | reattachClear :
      Controls joinable shared (.reattach .clearValid) (shared.setValid false) (.reattach .store)
  | reattachStore :
      Controls joinable shared (.reattach .store) (shared.setRunning true) (.reattach .create)
  | reattachCreate {after child} : shared.createMonitor child = some after →
      Controls joinable shared (.reattach .create) after (.reattach .setValid)
  | reattachFails : Controls joinable shared (.reattach .create) shared (.reattach .undo)
  | reattachUndo :
      Controls joinable shared (.reattach .undo) (shared.setRunning false) (.returned (some (-1)))
  | reattachSet :
      Controls joinable shared (.reattach .setValid) (shared.setValid true) (.returned (some 0))

/-- What thread `me` can do at a point in one step. -/
inductive Acts (joinable : Prop) (shared : Shared ι) (me : ι) (input : Option (MonitorInput ι)) :
    Point → Shared ι → Point → Prop
  | pool {p q} (memory : Memory ι) : p.place = q.place → p.place = .pool ∨ p.place = .live →
      Acts joinable shared me input p { shared with pool := memory } q
  | begin (last call) : input = some (.control call) →
      Acts joinable shared me input (.pool (.client last)) shared (.control (.client last) call.entry)
  | beginStop : input.isSome →
      Acts joinable shared me input (.pool (.destroy .monitorStop)) shared
        (.control .destroy (.stop .load))
  | control {caller pc after next} : Controls joinable shared pc after next →
      Acts joinable shared me input (.control caller pc) after (.control caller next)
  | finish (caller result) : Acts joinable shared me input (.control caller (.returned result)) shared
      (.pool caller.return)
  | born : shared.spare me = false →
      Acts joinable shared me input (.monitor .unborn) shared (.monitor .loadInit)
  | init : Acts joinable shared me input (.monitor .storeInit) { shared with everInit := true }
      (.monitor .loop)
  | quit : Acts joinable shared me input (.monitor .quit) (shared.setRunning false) (.monitor .loop)
  | exit : shared.running = false →
      Acts joinable shared me input (.monitor .loop) shared (.monitor .exited)

section Code

variable {joinable : Prop} {me : ι} {shared after : Shared ι} {p q : Point} {input : MonitorInput ι}

/-- The points that `Point.own` leaves out run an instruction of the pool. -/
theorem code_lifted (me : ι) (visible : p.own = false) :
    (p.place = .pool ∨ p.place = .live) ∧ ∃ embed pc, code me p = fromPool embed (Pool.code me pc) ∧
      ∀ next, (embed next).place = p.place := by
  have returns : ∀ next, (monitorReturn next).place = .live := by
    intro next
    unfold monitorReturn
    split <;> rfl
  cases p with
  | control => cases visible
  | pool pc =>
      refine ⟨.inl rfl, .pool, pc, ?_, fun _ => rfl⟩
      cases pc with
      | client => cases visible
      | destroy pc =>
          cases pc with
          | monitorStop => cases visible
          | _ => rfl
      | _ => rfl
  | monitor pc =>
      cases pc with
      | calling pc => exact ⟨.inr rfl, monitorReturn, pc, rfl, returns⟩
      | _ => cases visible

omit [DecidableEq ι] in
theorem fromPool_body {embed : Pc → Point} {instr : PoolInstr ι}
    (body : (fromPool embed instr).body shared input = some (after, q)) :
    ∃ memory next, after = { shared with pool := memory } ∧ q = embed next := by
  cases instr with
  | read choose =>
      simp only [fromPool, Instr.lift, Instr.body, Option.map_eq_some_iff, Option.bind_eq_bind,
        Option.bind_eq_some_iff, Option.pure_def, Option.some.injEq, Prod.mk.injEq] at body
      obtain ⟨_, ⟨_, _, next, _, rfl⟩, rfl, rfl⟩ := body
      exact ⟨shared.pool, next, rfl, rfl⟩
  | act run =>
      simp only [fromPool, Instr.lift, Instr.body, Option.bind_eq_bind, Option.bind_eq_some_iff,
        Option.pure_def, Option.some.injEq, Prod.mk.injEq] at body
      obtain ⟨_, _, ⟨memory, next⟩, _, rfl, rfl⟩ := body
      exact ⟨memory, next, rfl, rfl⟩
  | _ => cases body

omit [DecidableEq ι] in
theorem fromPool_sync {embed : Pc → Point} {instr : PoolInstr ι}
    (sync : (fromPool embed instr).sync = some q) : ∃ next, q = embed next := by
  cases instr <;> cases sync <;> exact ⟨_, rfl⟩

omit [DecidableEq ι] in
theorem fromPool_fork {embed : Pc → Point} {instr : PoolInstr ι} {start : Point}
    {choose : Shared ι → Option ι → Shared ι × Point} (fork : fromPool embed instr = .fork start choose)
    (shared : Shared ι) (target : Option ι) :
    start.place = .pool ∧ ∃ memory next,
      choose shared target = ({ shared with pool := memory }, embed next) := by
  cases instr <;> cases fork
  exact ⟨rfl, _, _, rfl⟩

theorem createThread_body {created failed : Point}
    (body : (createThread created failed).body shared input = some (after, q)) :
    (∃ child, shared.createMonitor child = some after ∧ q = created) ∨
      (after = shared ∧ q = failed) := by
  cases input with
  | thread target =>
      cases target with
      | some child =>
          obtain ⟨written, result, same⟩ := Option.map_eq_some_iff.mp body
          obtain ⟨rfl, rfl⟩ := Prod.mk.inj same
          exact .inl ⟨child, result, rfl⟩
      | none =>
          cases body
          exact .inr ⟨rfl, rfl⟩
  | _ => cases body

theorem start_controls (joinable : Prop) {caller : Caller} {pc : StartPc}
    (body : (monitorStart caller pc).body shared input = some (after, q)) :
    ∃ next, q = .control caller next ∧ Controls joinable shared (.start pc) after next := by
  cases pc with
  | load =>
      cases body
      refine ⟨_, rfl, ?_⟩
      split
      case isTrue running => exact .startRunning running
      case isFalse idle => exact .startIdle (Bool.eq_false_of_not_eq_true idle)
  | create =>
      rcases createThread_body body with ⟨child, result, rfl⟩ | ⟨rfl, rfl⟩
      · exact ⟨_, rfl, .startCreate result⟩
      · exact ⟨_, rfl, .startFails⟩
  | store | undo | setValid =>
      cases body
      exact ⟨_, rfl, by constructor⟩

theorem stop_controls (joinable : Prop) {caller : Caller} {pc : StopPc}
    (body : (monitorStop caller pc).body shared input = some (after, q)) :
    ∃ next, q = .control caller next ∧ Controls joinable shared (.stop pc) after next := by
  cases pc with
  | load =>
      cases body
      refine ⟨_, rfl, ?_⟩
      split
      case isTrue running => exact .stopRunning running
      case isFalse idle => exact .stopIdle (Bool.eq_false_of_not_eq_true idle)
  | testValid =>
      cases body
      refine ⟨_, rfl, ?_⟩
      split
      case isTrue valid => exact .stopValid valid
      case isFalse none => exact .stopNone (Bool.eq_false_of_not_eq_true none)
  | join => cases body
  | store | clearValid =>
      cases body
      exact ⟨_, rfl, by constructor⟩

theorem detach_controls (joinable : Prop) {caller : Caller} {pc : DetachPc}
    (body : (monitorDetach caller pc).body shared input = some (after, q)) :
    ∃ next, q = .control caller next ∧ Controls joinable shared (.detach pc) after next := by
  cases pc with
  | load =>
      cases body
      refine ⟨_, rfl, ?_⟩
      split
      case isTrue running => exact .detachRunning running
      case isFalse idle => exact .detachIdle (Bool.eq_false_of_not_eq_true idle)
  | join => cases body
  | store | clearValid =>
      cases body
      exact ⟨_, rfl, by constructor⟩

theorem reattach_controls (joinable : Prop) {caller : Caller} {pc : ReattachPc}
    (body : (monitorReattach caller pc).body shared input = some (after, q)) :
    ∃ next, q = .control caller next ∧ Controls joinable shared (.reattach pc) after next := by
  cases pc with
  | load =>
      cases body
      refine ⟨_, rfl, ?_⟩
      split
      case isTrue running => exact .reattachRunning running
      case isFalse idle => exact .reattachIdle (Bool.eq_false_of_not_eq_true idle)
  | loadInit =>
      cases body
      refine ⟨_, rfl, ?_⟩
      split
      case isTrue known => exact .reattachKnown known
      case isFalse never => exact .reattachNever (Bool.eq_false_of_not_eq_true never)
  | testValid =>
      cases body
      refine ⟨_, rfl, ?_⟩
      split
      case isTrue valid => exact .reattachValid valid
      case isFalse none => exact .reattachNone (Bool.eq_false_of_not_eq_true none)
  | create =>
      rcases createThread_body body with ⟨child, result, rfl⟩ | ⟨rfl, rfl⟩
      · exact ⟨_, rfl, .reattachCreate result⟩
      · exact ⟨_, rfl, .reattachFails⟩
  | join => cases body
  | store | clearValid | undo | setValid =>
      cases body
      exact ⟨_, rfl, by constructor⟩

theorem control_acts {caller : Caller} {pc : ControlPc}
    (body : (controlCode caller pc).body shared input = some (after, q)) :
    Acts joinable shared me (some input) (.control caller pc) after q := by
  cases pc with
  | start pc =>
      obtain ⟨next, rfl, controls⟩ := start_controls joinable body
      exact .control controls
  | stop pc =>
      obtain ⟨next, rfl, controls⟩ := stop_controls joinable body
      exact .control controls
  | detach pc =>
      obtain ⟨next, rfl, controls⟩ := detach_controls joinable body
      exact .control controls
  | reattach pc =>
      obtain ⟨next, rfl, controls⟩ := reattach_controls joinable body
      exact .control controls
  | returned result =>
      cases body
      exact .finish caller result

theorem monitor_acts {pc : MonitorPc} (mine : (Point.monitor pc).own = true)
    (body : (monitorThread me pc).body shared input = some (after, q)) :
    Acts joinable shared me (some input) (.monitor pc) after q := by
  cases pc with
  | unborn =>
      simp only [monitorThread, Instr.body, Option.map_eq_some_iff, Prod.mk.injEq] at body
      obtain ⟨next, chosen, rfl, rfl⟩ := body
      split at chosen
      case isTrue => cases chosen
      case isFalse created =>
        cases chosen
        exact .born (Bool.eq_false_of_not_eq_true created)
  | loadInit | testPause | testResume =>
      cases body
      dsimp only
      split <;> exact .pool shared.pool rfl (.inr rfl)
  | storeInit =>
      cases body
      exact .init
  | loop =>
      cases body
      dsimp only
      split
      case isTrue => exact .pool shared.pool rfl (.inr rfl)
      case isFalse idle => exact .exit (Bool.eq_false_of_not_eq_true idle)
  | getch =>
      cases input with
      | key key =>
          cases key <;> cases body <;> exact .pool shared.pool rfl (.inr rfl)
      | _ => cases body
  | quit =>
      cases body
      exact .quit
  | calling => cases mine
  | exited => cases body

theorem own_acts (mine : p.own = true) (body : (code me p).body shared input = some (after, q)) :
    Acts joinable shared me (some input) p after q := by
  cases p with
  | control caller pc => exact control_acts body
  | monitor pc => exact monitor_acts mine body
  | pool pc =>
      cases pc with
      | client last =>
          cases input with
          | pool input =>
              cases input with
              | call call =>
                  cases body
                  exact .pool shared.pool rfl (.inl rfl)
              | _ => cases body
          | control call =>
              cases body
              exact .begin last call rfl
          | _ => cases body
      | destroy pc =>
          cases pc with
          | monitorStop =>
              cases body
              exact .beginStop rfl
          | _ => cases mine
      | _ => cases mine

/-- `pthread_join(m->tid, NULL)` in one of the calls, and the point behind it. -/
inductive Joins : ControlPc → ControlPc → Prop
  | stop : Joins (.stop .join) (.stop .clearValid)
  | detach : Joins (.detach .join) (.detach .clearValid)
  | reattach : Joins (.reattach .join) (.reattach .clearValid)

theorem Joins.controls {pc next : ControlPc} (joins : Joins pc next) (exited : joinable) :
    Controls joinable shared pc shared next := by
  cases joins with
  | stop => exact .stopJoin exited
  | detach => exact .detachJoin exited
  | reattach => exact .reattachJoin exited

/-- The only synchronisation of the monitor's own code is `pthread_join`. -/
theorem own_sync (mine : p.own = true) (sync : (code me p).sync = some q) :
    ∃ caller pc next, p = .control caller pc ∧ q = .control caller next ∧ Joins pc next ∧
      code me p = joinThread q := by
  cases p with
  | control caller pc =>
      refine ⟨caller, pc, ?_⟩
      cases pc with
      | start pc => cases pc <;> cases sync
      | returned => cases sync
      | stop pc =>
          cases pc <;> cases sync
          exact ⟨_, rfl, rfl, .stop, rfl⟩
      | detach pc =>
          cases pc <;> cases sync
          exact ⟨_, rfl, rfl, .detach, rfl⟩
      | reattach pc =>
          cases pc <;> cases sync
          exact ⟨_, rfl, rfl, .reattach, rfl⟩
  | monitor pc =>
      cases pc with
      | calling => cases mine
      | _ => cases sync
  | pool pc =>
      cases pc with
      | client => cases sync
      | destroy pc =>
          cases pc with
          | monitorStop => cases sync
          | _ => cases mine
      | _ => cases mine

theorem own_fork {start : Point} {next : Shared ι → Option ι → Shared ι × Point}
    (fork : code me p = .fork start next) : p.own = false := by
  cases visible : p.own with
  | false => rfl
  | true =>
      cases p with
      | control caller pc =>
          cases pc with
          | returned => cases fork
          | start pc | stop pc | detach pc | reattach pc => cases pc <;> cases fork
      | monitor pc =>
          cases pc with
          | calling => cases visible
          | _ => cases fork
      | pool pc =>
          cases pc with
          | client => cases fork
          | destroy pc =>
              cases pc with
              | monitorStop => cases fork
              | _ => cases visible
          | _ => cases visible

end Code

section Steps

variable {config final : MonitoredConfig ι} {label : Label ι (MonitorInput ι)}

/-- The thread in `tid` has exited. -/
def Joinable (config : MonitoredConfig ι) : Prop :=
  ∀ t, config.memory.tid = some t → config.point t = .monitor .exited

/-- The thread that makes a step, and its input if it runs. -/
def stepBy : Label ι (MonitorInput ι) → Option (ι × Option (MonitorInput ι))
  | .run i input => some (i, some input)
  | .pick i _ => some (i, none)
  | .wake _ => none

/-- A step as it appears in the fields of the monitor and in the program points; a
thread of the pool may create another one. -/
inductive MonitorStep (config : MonitoredConfig ι) : Label ι (MonitorInput ι) → MonitoredConfig ι → Prop
  | still {j final} : final.memory = config.memory → final.point = config.point →
      MonitorStep config (.wake j) final
  | acts {label i input q final} : stepBy label = some (i, input) →
      Acts (Joinable config) config.memory i input (config.point i) final.memory q →
      final.point = Function.update config.point i q → MonitorStep config label final
  | create {i child memory q start final} : (config.point i).own = false →
      config.point child = .pool .dormant → final.memory = { config.memory with pool := memory } →
      q.place = (config.point i).place → start.place = .pool →
      final.point = Function.update (Function.update config.point child start) i q →
      MonitorStep config (.pick i (some child)) final

theorem sync_place {me : ι} {p q : Point} (visible : p.own = false) (sync : (code me p).sync = some q) :
    p.place = q.place := by
  obtain ⟨_, embed, pc, lifted, places⟩ := code_lifted me visible
  rw [lifted] at sync
  obtain ⟨next, rfl⟩ := fromPool_sync sync
  exact (places next).symm

theorem arrives_own {i : ι} {p : Point} {middle : MonitoredConfig ι}
    (arrives : Arrives monitored config i p middle) :
    config.point i = p ∨ ((config.point i).place = p.place ∧ p.own = false) := by
  cases arrives with
  | here ready => exact .inl (point_ready ready)
  | resuming woken =>
      left
      rw [Config.point, woken]
      rfl
  | @entering before mutex _ ready enters =>
      right
      rw [point_ready ready]
      have sync : (code i before).sync = some p := congrArg Instr.sync enters
      refine ⟨?_, ((follows_code i before).enter enters).2⟩
      cases visible : before.own with
      | false => exact sync_place visible sync
      | true =>
          obtain ⟨_, _, _, _, _, _, joins⟩ := own_sync visible sync
          cases joins.symm.trans enters

theorem access_acts {i : ι} {p q : Point} {middle : MonitoredConfig ι} {input : MonitorInput ι}
    {after : Shared ι} (arrives : Arrives monitored config i p middle)
    (body : (code i p).body config.memory input = some (after, q)) :
    Acts (Joinable config) config.memory i (some input) (config.point i) after q := by
  rcases arrives_own arrives with rfl | ⟨same, visible⟩
  · cases visible : (config.point i).own with
    | true => exact own_acts visible body
    | false =>
        obtain ⟨place, embed, pc, lifted, places⟩ := code_lifted i visible
        rw [lifted] at body
        obtain ⟨memory, next, rfl, rfl⟩ := fromPool_body body
        exact .pool memory (places next).symm place
  · obtain ⟨place, embed, pc, lifted, places⟩ := code_lifted i visible
    rw [lifted] at body
    obtain ⟨memory, next, rfl, rfl⟩ := fromPool_body body
    rw [← same] at place places
    exact .pool memory (places next).symm place

theorem sync_acts {i : ι} {p q : Point} {input : Option (MonitorInput ι)}
    (ready : config.threads i = .ready p) (sync : (code i p).sync = some q)
    (exited : code i p = joinThread q → Joinable config) :
    Acts (Joinable config) config.memory i input (config.point i) config.memory q := by
  rw [point_ready ready]
  cases visible : p.own with
  | false =>
      obtain ⟨place, _⟩ := code_lifted i visible
      exact .pool config.memory.pool (sync_place visible sync) place
  | true =>
      obtain ⟨caller, pc, next, rfl, rfl, joins, code⟩ := own_sync visible sync
      exact .control (joins.controls (exited code))

theorem moves_monitorStep (moves : Moves monitored config label final) :
    MonitorStep config label final := by
  have synced : ∀ {i p q input label}, stepBy label = some (i, input) →
      config.threads i = .ready p → (code i p).sync = some q →
      (code i p = joinThread q → Joinable config) → final.memory = config.memory →
      final.point = Function.update config.point i q → MonitorStep config label final := by
    intro i p q input label by_ ready sync exited memory points
    refine .acts by_ ?_ points
    rw [memory]
    exact sync_acts ready sync exited
  cases moves with
  | @read i p middle input choose next arrives code result =>
      refine .acts rfl (access_acts arrives ?_) (arrives.point_set _)
      change Monitor.code i p = _ at code
      rw [code, Config.set_memory, arrives.memory_eq, Instr.body, result]
      rfl
  | @act i p middle input run memory next arrives code result =>
      refine .acts rfl (access_acts arrives ?_) (arrives.point_set _)
      change Monitor.code i p = _ at code
      rw [code]
      exact result
  | lock ready code | unlock ready code | wait ready code | signalNone ready code =>
      exact synced rfl ready (congrArg Instr.sync code) (fun joins => by cases code.symm.trans joins) rfl
        (point_set ..)
  | @broadcast _ _ _ cond next ready code =>
      refine synced rfl ready (congrArg Instr.sync code)
        (fun joins => by cases code.symm.trans joins) rfl ?_
      rw [point_set, point_rouseAll]
      rfl
  | signal ready code sleeper =>
      refine synced rfl ready (congrArg Instr.sync code)
        (fun joins => by cases code.symm.trans joins) rfl ?_
      rw [point_set, point_wake sleeper]
      rfl
  | join ready code finished =>
      refine synced rfl ready (congrArg Instr.sync code) ?_ rfl (point_set ..)
      intro joins t recorded
      cases code.symm.trans joins
      have exited := finished t
      simp only [recorded, decide_true, Bool.true_and, decide_eq_false_iff_not, ne_eq, not_not] at exited
      exact exited
  | @create i p start choose child idle memory q ready code dormant isDormant different result =>
      have visible : (config.point i).own = false := by
        rw [point_ready ready]
        exact own_fork code
      rw [← point_ready ready] at code
      obtain ⟨_, embed, pc, lifted, places⟩ := code_lifted i visible
      obtain ⟨place, written, next, chosen⟩ :=
        fromPool_fork (lifted.symm.trans code) config.memory (some child)
      obtain ⟨rfl, rfl⟩ := Prod.mk.inj (chosen.symm.trans result)
      refine .create visible ?_ rfl (places next) place ?_
      · rw [point_ready dormant]
        exact of_decide_eq_true isDormant
      · change ((config.set child (.ready start)).set i (.ready (embed next))).point = _
        rw [point_set, point_set]
        rfl
  | @createFails i p start choose memory q ready code result =>
      have visible : (config.point i).own = false := by
        rw [point_ready ready]
        exact own_fork code
      rw [← point_ready ready] at code
      obtain ⟨place, embed, pc, lifted, places⟩ := code_lifted i visible
      obtain ⟨_, written, next, chosen⟩ := fromPool_fork (lifted.symm.trans code) config.memory none
      obtain ⟨rfl, rfl⟩ := Prod.mk.inj (chosen.symm.trans result)
      exact .acts rfl (.pool written (places next).symm place) (point_set ..)
  | spurious sleeper => exact .still rfl (point_wake sleeper)

end Steps

end ThreadPool.Monitor
