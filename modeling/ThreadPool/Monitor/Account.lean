import ThreadPool.Monitor.Steps

namespace ThreadPool.Monitor

open Foundation Pool

/-! # The account of the monitor threads

One thread controls the monitor. `tid_valid` is its private record of an unjoined thread,
while `running` can be cleared by the monitor thread at any moment; what the controlling
thread knows at each point of its calls ties both to the threads that were created and
not joined yet.
-/

variable {ι : Type}

structure MonitorNote (ι : Type) where
  /-- `monitor_start` has been called. -/
  started : Bool := false
  /-- The targets of the calls of `pthread_join` that have returned. -/
  joined : List ι := []

def Point.joinsMonitor : Point → Bool
  | .control _ (.stop .join) => true
  | .control _ (.detach .join) => true
  | .control _ (.reattach .join) => true
  | _ => false

/-- The call on the monitor that begins in a step, with its thread. -/
def beginsCall (config : MonitoredConfig ι) :
    Label ι (MonitorInput ι) → Option (ι × ControlCall)
  | .run i input =>
      match config.point i, input with
      | .pool (.client _), .control call => some (i, call)
      | .pool (.destroy .monitorStop), _ => some (i, .stop)
      | _, _ => none
  | _ => none

def watchMonitor (note : MonitorNote ι) (config : MonitoredConfig ι) (label : Label ι (MonitorInput ι))
    (_ : MonitoredConfig ι) : MonitorNote ι where
  started := note.started || decide (∃ begun ∈ beginsCall config label, begun.2 = .start)
  joined :=
    match stepBy label with
    | some (i, _) =>
        if (config.point i).joinsMonitor then config.memory.tid.toList ++ note.joined else note.joined
    | none => note.joined

/-- Only thread `c` calls the functions of the monitor, and it starts it at most once. -/
def OneController (c : ι) (note : MonitorNote ι) (config : MonitoredConfig ι)
    (label : Label ι (MonitorInput ι)) : Prop :=
  ∀ begun ∈ beginsCall config label, begun.1 = c ∧ (begun.2 = .start → note.started = false)

instance [DecidableEq ι] (c : ι) (note : MonitorNote ι) (config : MonitoredConfig ι)
    (label : Label ι (MonitorInput ι)) :
    Decidable (OneController c note config label) :=
  inferInstanceAs (Decidable (∀ begun ∈ beginsCall config label,
    begun.1 = c ∧ (begun.2 = .start → note.started = false)))

/-- A monitor thread that was created and not joined yet. -/
def Unjoined (roles : ι → MonitoredRole) (shared : Shared ι) (joined : List ι) (t : ι) : Prop :=
  roles t = .monitor ∧ shared.spare t = false ∧ t ∉ joined

/-- A monitor thread that was created and has not exited yet. -/
def LiveMonitor (roles : ι → MonitoredRole) (config : MonitoredConfig ι) (t : ι) : Prop :=
  roles t = .monitor ∧ config.memory.spare t = false ∧ config.point t ≠ .monitor .exited

inductive Ledger where
  | idle
  | settled
  | outstanding

/-- What the controlling thread knows: the threads to be joined, the value of `tid_valid`,
and whether `running` is false. -/
structure Knowledge where
  ledger : Ledger
  valid : Option Bool := none
  stopped : Bool := false

def StartPc.knows : StartPc → Knowledge
  | .load => { ledger := .idle, valid := some false }
  | .store => { ledger := .idle, valid := some false }
  | .create => { ledger := .settled, valid := some false }
  | .undo => { ledger := .settled, valid := some false }
  | .setValid => { ledger := .outstanding }

def StopPc.knows : StopPc → Knowledge
  | .load => { ledger := .idle }
  | .store => { ledger := .idle }
  | .testValid => { ledger := .idle, stopped := true }
  | .join => { ledger := .outstanding, stopped := true }
  | .clearValid => { ledger := .settled, stopped := true }

def DetachPc.knows : DetachPc → Knowledge
  | .load => { ledger := .idle }
  | .store => { ledger := .idle, valid := some true }
  | .join => { ledger := .outstanding, stopped := true }
  | .clearValid => { ledger := .settled, stopped := true }

def ReattachPc.knows : ReattachPc → Knowledge
  | .load => { ledger := .idle }
  | .loadInit => { ledger := .idle, stopped := true }
  | .testValid => { ledger := .idle, stopped := true }
  | .join => { ledger := .outstanding, stopped := true }
  | .clearValid => { ledger := .settled, stopped := true }
  | .store => { ledger := .settled, valid := some false }
  | .create => { ledger := .settled, valid := some false }
  | .undo => { ledger := .settled, valid := some false }
  | .setValid => { ledger := .outstanding }

def ControlPc.knows : ControlPc → Knowledge
  | .start pc => pc.knows
  | .stop pc => pc.knows
  | .detach pc => pc.knows
  | .reattach pc => pc.knows
  | .returned _ => { ledger := .idle }

def Point.knows : Point → Knowledge
  | .control _ pc => pc.knows
  | _ => { ledger := .idle }

section Stages

variable (roles : ι → MonitoredRole) (shared : Shared ι) (joined : List ι)

def Settled : Prop := ∀ t, ¬ Unjoined roles shared joined t

/-- `tid` is the thread that is still to be joined. -/
def Outstanding : Prop := ∃ t, shared.tid = some t ∧ Unjoined roles shared joined t

/-- Between the calls. -/
structure Idle : Prop where
  running : shared.running = true → shared.tidValid = true
  valid : shared.tidValid = true → Outstanding roles shared joined
  invalid : shared.tidValid = false → Settled roles shared joined

def Ledger.Holds : Ledger → Prop
  | .idle => Idle roles shared joined
  | .settled => Settled roles shared joined
  | .outstanding => Outstanding roles shared joined

structure Knowledge.Holds (knowledge : Knowledge) : Prop where
  ledger : knowledge.ledger.Holds roles shared joined
  valid : ∀ flag ∈ knowledge.valid, shared.tidValid = flag
  stopped : knowledge.stopped = true → shared.running = false

end Stages

section Frames

variable {roles : ι → MonitoredRole} {shared after : Shared ι} {joined : List ι}

/-- What the threads of the pool and the monitor thread can do to the fields. -/
structure Calms (shared after : Shared ι) : Prop where
  tid : after.tid = shared.tid
  tidValid : after.tidValid = shared.tidValid
  spare : after.spare = shared.spare
  running : after.running = true → shared.running = true

theorem Calms.refl (shared : Shared ι) : Calms shared shared := ⟨rfl, rfl, rfl, id⟩

theorem Calms.unjoined (calms : Calms shared after) (t : ι) :
    Unjoined roles after joined t ↔ Unjoined roles shared joined t := by
  rw [Unjoined, Unjoined, calms.spare]

theorem Calms.stopped (calms : Calms shared after) (stopped : shared.running = false) :
    after.running = false := by
  cases running : after.running with
  | false => rfl
  | true => simp [calms.running running] at stopped

theorem Calms.settled (calms : Calms shared after) (settled : Settled roles shared joined) :
    Settled roles after joined :=
  fun t unjoined => settled t ((calms.unjoined t).mp unjoined)

theorem Calms.outstanding (calms : Calms shared after) (outstanding : Outstanding roles shared joined) :
    Outstanding roles after joined := by
  obtain ⟨t, recorded, unjoined⟩ := outstanding
  exact ⟨t, calms.tid.trans recorded, (calms.unjoined t).mpr unjoined⟩

theorem Calms.idle (calms : Calms shared after) (idle : Idle roles shared joined) :
    Idle roles after joined where
  running running := calms.tidValid.trans (idle.running (calms.running running))
  valid valid := calms.outstanding (idle.valid (calms.tidValid.symm.trans valid))
  invalid invalid := calms.settled (idle.invalid (calms.tidValid.symm.trans invalid))

theorem Calms.holds (calms : Calms shared after) {knowledge : Knowledge}
    (holds : knowledge.Holds roles shared joined) : knowledge.Holds roles after joined := by
  refine ⟨?_, fun flag known => calms.tidValid.trans (holds.valid flag known),
    fun known => calms.stopped (holds.stopped known)⟩
  have ledger := holds.ledger
  cases kind : knowledge.ledger with
  | idle =>
      rw [kind] at ledger
      exact calms.idle ledger
  | settled =>
      rw [kind] at ledger
      exact calms.settled ledger
  | outstanding =>
      rw [kind] at ledger
      exact calms.outstanding ledger

/-- The join settles the account. -/
theorem join_settled (recorded : ∀ t, Unjoined roles shared joined t → shared.tid = some t) :
    Settled roles shared (shared.tid.toList ++ joined) := by
  intro t unjoined
  obtain ⟨monitor, created, missing⟩ := unjoined
  rw [List.mem_append, not_or] at missing
  have target := recorded t ⟨monitor, created, missing.2⟩
  exact missing.1 (by rw [target]; exact List.mem_singleton_self t)

theorem idle_of_settled (settled : Settled roles shared joined) (invalid : shared.tidValid = false)
    (stopped : shared.running = false) : Idle roles shared joined where
  running running := by
    rw [stopped] at running
    cases running
  valid valid := by
    rw [invalid] at valid
    cases valid
  invalid _ := settled

variable [DecidableEq ι]

/-- A thread that can still be created is none of the joined ones. -/
theorem create_outstanding {child : ι} (spare : ∀ t, shared.spare t = true → roles t = .monitor)
    (old : ∀ t ∈ joined, shared.spare t = false) (created : shared.createMonitor child = some after) :
    Outstanding roles after joined := by
  unfold Shared.createMonitor at created
  split at created
  case isTrue available =>
    cases created
    refine ⟨child, rfl, spare child available, Function.update_self .., fun member => ?_⟩
    rw [old child member] at available
    cases available
  case isFalse => cases created

/-- Each step of a call passes its knowledge on. -/
theorem controls_holds {joinable : Prop} {pc next : ControlPc} (caller : Caller)
    (controls : Controls joinable shared pc after next)
    (spare : ∀ t, shared.spare t = true → roles t = .monitor)
    (old : ∀ t ∈ joined, shared.spare t = false)
    (recorded : ∀ t, Unjoined roles shared joined t → shared.tid = some t)
    (holds : pc.knows.Holds roles shared joined) :
    next.knows.Holds roles after
      (if (Point.control caller pc).joinsMonitor then shared.tid.toList ++ joined else joined) := by
  obtain ⟨ledger, valid, stopped⟩ := holds
  cases controls with
  | startRunning => exact ⟨ledger, nofun, nofun⟩
  | startIdle idle => exact ⟨ledger, valid, nofun⟩
  | startStore => exact ⟨ledger.invalid (valid false rfl), valid, nofun⟩
  | startCreate created | reattachCreate created =>
      exact ⟨create_outstanding spare old created, nofun, nofun⟩
  | startFails | reattachFails => exact ⟨ledger, valid, nofun⟩
  | startUndo | reattachUndo =>
      exact ⟨idle_of_settled ledger (valid false rfl) rfl, nofun, nofun⟩
  | startValid | reattachSet => exact ⟨⟨fun _ => rfl, fun _ => ledger, nofun⟩, nofun, nofun⟩
  | stopRunning => exact ⟨ledger, nofun, nofun⟩
  | stopIdle idle => exact ⟨ledger, nofun, fun _ => idle⟩
  | stopStore => exact ⟨⟨nofun, ledger.valid, ledger.invalid⟩, nofun, fun _ => rfl⟩
  | stopValid set | reattachValid set => exact ⟨ledger.valid set, nofun, stopped⟩
  | stopNone => exact ⟨ledger, nofun, nofun⟩
  | stopJoin | detachJoin | reattachJoin => exact ⟨join_settled recorded, nofun, stopped⟩
  | stopClear | detachClear =>
      exact ⟨idle_of_settled ledger rfl (stopped rfl), nofun, nofun⟩
  | detachRunning running =>
      refine ⟨ledger, fun flag known => ?_, nofun⟩
      cases known
      exact ledger.running running
  | detachIdle => exact ⟨ledger, nofun, nofun⟩
  | detachStore => exact ⟨ledger.valid (valid true rfl), nofun, fun _ => rfl⟩
  | reattachRunning => exact ⟨ledger, nofun, nofun⟩
  | reattachIdle idle => exact ⟨ledger, nofun, fun _ => idle⟩
  | reattachKnown => exact ⟨ledger, nofun, stopped⟩
  | reattachNever => exact ⟨ledger, nofun, nofun⟩
  | reattachNone unset =>
      refine ⟨ledger.invalid unset, fun flag known => ?_, nofun⟩
      cases known
      exact unset
  | reattachClear =>
      refine ⟨ledger, fun flag known => ?_, nofun⟩
      cases known
      rfl
  | reattachStore => exact ⟨ledger, valid, nofun⟩

end Frames

end ThreadPool.Monitor
