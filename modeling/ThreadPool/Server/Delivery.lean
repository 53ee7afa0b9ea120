import ThreadPool.Server.Clients

namespace ThreadPool.Server

open Foundation

/-! # Delivery of snapshots

The broadcaster compares a new snapshot with the last payload it has sent, once for all
subscribers, while a handler writes a snapshot of its own and registers its client later.
The clients are up to date after an iteration if no handler is caught between its snapshot
and its registration by a frame with another payload, and if the gauges do not come back to
the last payload after a client has joined with another one.
-/

/-- The payload that the broadcaster has sent last. -/
def BroadcastPc.last : BroadcastPc → String
  | .top b => b.last
  | .lock b => b.last
  | .test b => b.last
  | .wait b => b.last
  | .waited b => b.last
  | .grab b => b.last
  | .unlock b _ => b.last
  | .checkRunning b _ => b.last
  | .snapshot b _ _ _ => b.last
  | .compare b _ _ _ => b.last
  | .send b _ _ _ => b.last
  | .finish b _ _ _ => b.last
  | .exited b => b.last

/-- The version at which the iteration under way has begun its snapshot. -/
def BroadcastPc.since : BroadcastPc → Option Nat
  | .snapshot _ _ since _ => some since
  | .compare _ _ since _ => some since
  | .send _ since _ _ => some since
  | .finish _ since _ _ => some since
  | _ => none

section Stages

variable {κ : Type}

/-- In the loop of `sse_send_all`, behind `i` clients. -/
structure Sending (memory : Memory) (points : κ → Pc) (since : Nat) (payload : String)
    (visits i : Nat) : Prop where
  bound : visits ≤ memory.journal.visits
  shown : Shown memory (memory.clients.take i) payload
  agree : since = memory.journal.version → ∀ j, (points j).Agrees memory
  carried : visits = memory.journal.visits → ∀ j, (points j).carries payload = true

/-- Behind that loop. -/
structure Sent (memory : Memory) (points : κ → Pc) (since : Nat) (payload : String)
    (visits : Nat) : Prop where
  bound : visits ≤ memory.journal.visits
  current : since = memory.journal.version → Current memory points payload
  agreed : visits = memory.journal.visits → Agreed memory points payload

/-- The payload is new, and up to date unless a gauge has changed since. -/
structure New (memory : Memory) (last : String) (since : Nat) (payload : String) : Prop where
  differs : payload ≠ last
  unsent : memory.journal.sentVisits = none
  snapshot : since = memory.journal.version → payload = memory.snapshot

def SendPc.Stage (memory : Memory) (points : κ → Pc) (since : Nat) (payload : String) : SendPc → Prop
  | .lock => True
  | .begin => True
  | .write visits i _ => Sending memory points since payload visits i
  | .unlock visits => Sent memory points since payload visits

/-- What holds at each point of an iteration. -/
def BroadcastPc.Stage (memory : Memory) (points : κ → Pc) : BroadcastPc → Prop
  | .snapshot _ _ since pc =>
      since = memory.journal.version → pc.Agrees memory.context memory.gauges
  | .compare _ _ since payload => since = memory.journal.version → payload = memory.snapshot
  | .send b since none _ => since = memory.journal.version → Current memory points b.last
  | .send b since (some payload) pc =>
      New memory b.last since payload ∧ pc.Stage memory points since payload
  | .finish b since none _ => since = memory.journal.version → Current memory points b.last
  | .finish b since (some payload) visits =>
      New memory b.last since payload ∧ Sent memory points since payload visits
  | _ => True

/-- If the last completed iteration began after the last change, all clients are up to
date; if no connection came since the last payload was sent, all clients have it. -/
structure Delivered (memory : Memory) (points : κ → Pc) (pc : BroadcastPc) : Prop where
  settled : memory.journal.covered = some memory.journal.version → Current memory points pc.last
  agreed : memory.journal.sentVisits = some memory.journal.visits → Agreed memory points pc.last
  covered : ∀ version, memory.journal.covered = some version → version ≤ memory.journal.version
  sent : ∀ visits, memory.journal.sentVisits = some visits → visits ≤ memory.journal.visits
  since : ∀ since, pc.since = some since → since ≤ memory.journal.version ∧
    ∀ version, memory.journal.covered = some version → version ≤ since
  stage : pc.Stage memory points

end Stages

section Delivery

variable {κ : Type} [DecidableEq κ] {memory after : Memory} {points : κ → Pc} {k : κ}
  {pc next : Pc} {cast cast' : BroadcastPc} {payload : String} {since visits i : Nat}

theorem steps_journal (steps : Steps memory false pc after next) (other : pc.isBroadcaster = false) :
    after.journal.covered = memory.journal.covered ∧
      after.journal.sentVisits = memory.journal.sentVisits ∧
      memory.journal.version ≤ after.journal.version ∧
      memory.journal.visits ≤ after.journal.visits := by
  cases steps with
  | change => exact ⟨rfl, rfl, Nat.le_succ _, le_rfl⟩
  | accept => exact ⟨rfl, rfl, le_rfl, Nat.le_succ _⟩
  | _ => first | exact ⟨rfl, rfl, le_rfl, le_rfl⟩ | cases other

theorem other_quiet (other : pc.isBroadcaster = false) : pc.sendsData = false := by
  cases pc with
  | broadcaster => cases other
  | _ => rfl

omit [DecidableEq κ] in
/-- A thread that does not hold the mutex of the table leaves the table and its clients alone. -/
theorem steps_apart (steps : Steps memory false (points k) after next)
    (descriptors : Descriptors memory points) (other : (points k).isBroadcaster = false)
    (outside : (points k).holds .clientsMutex = false) :
    after.clients = memory.clients ∧
      ∀ fd ∈ memory.clients, after.received fd = memory.received fd := by
  generalize here : points k = pc at steps other outside
  have mine : ∀ {fd other}, pc.fd = some fd → other ∈ memory.clients → other ≠ fd := by
    rintro fd other has member rfl
    exact (descriptors.owned (here ▸ has)).2 member
  cases steps with
  | accept fd closed =>
      refine ⟨rfl, fun other member => Function.update_of_ne ?_ ..⟩
      rintro rfl
      rw [descriptors.clients other member] at closed
      cases closed
  | writeHeader | writeFrame =>
      exact ⟨rfl, fun other member => Function.update_of_ne (mine rfl member) ..⟩
  | register | closeAll => cases outside
  | _ => first | exact ⟨rfl, fun _ _ => rfl⟩ | cases other

/-- A step of another thread leaves the iteration as it is. -/
theorem stage_aside (steps : Steps memory false (points k) after next)
    (descriptors : Descriptors memory points) (other : (points k).isBroadcaster = false)
    (outside : (Pc.broadcaster cast).holds .clientsMutex = true →
      (points k).holds .clientsMutex = false)
    (bound : ∀ since, cast.since = some since → since ≤ memory.journal.version)
    (stage : cast.Stage memory points) : cast.Stage after (Function.update points k next) := by
  obtain ⟨_, sentVisits, version, arrivals⟩ := steps_journal steps other
  have quiet := other_quiet other
  have unchanged : ∀ {since}, cast.since = some since → since = after.journal.version →
      after.journal.version = memory.journal.version := by
    intro since here same
    have := bound since here
    omega
  have new : ∀ {last since payload}, cast.since = some since → New memory last since payload →
      New after last since payload := by
    intro last since payload here new
    refine ⟨new.differs, sentVisits.trans new.unsent, fun same => ?_⟩
    obtain ⟨gauges, context⟩ := steps_gauges steps (unchanged here same)
    rw [new.snapshot (same.trans (unchanged here same)), snapshot_congr gauges context]
  have sent : ∀ {since payload visits}, cast.since = some since →
      Sent memory points since payload visits →
      Sent after (Function.update points k next) since payload visits := by
    intro since payload visits here sent
    refine ⟨sent.bound.trans arrivals, fun same => ?_, fun same => ?_⟩
    · have still := unchanged here same
      exact (sent.current (same.trans still)).step steps descriptors quiet still
    · have still : after.journal.visits = memory.journal.visits := by
        have := sent.bound
        omega
      exact (sent.agreed (same.trans still)).step steps descriptors quiet still
  cases cast with
  | snapshot b timedOut since pc =>
      intro same
      obtain ⟨gauges, context⟩ := steps_gauges steps (unchanged rfl same)
      rw [gauges, context]
      exact stage (same.trans (unchanged rfl same))
  | compare b timedOut since payload =>
      intro same
      obtain ⟨gauges, context⟩ := steps_gauges steps (unchanged rfl same)
      rw [snapshot_congr gauges context]
      exact stage (same.trans (unchanged rfl same))
  | send b since payload pc =>
      cases payload with
      | none =>
          intro same
          have still := unchanged rfl same
          exact (stage (same.trans still)).step steps descriptors quiet still
      | some payload =>
          refine ⟨new rfl stage.1, ?_⟩
          cases pc with
          | lock | begin => trivial
          | write visits i n =>
              have sending : Sending memory points since payload visits i := stage.2
              obtain ⟨clients, received⟩ := steps_apart steps descriptors other (outside rfl)
              refine ⟨sending.bound.trans arrivals, ?_, fun same => ?_, fun same => ?_⟩
              · intro fd member
                rw [clients] at member
                rw [received fd (List.mem_of_mem_take member)]
                exact sending.shown fd member
              · have still := unchanged rfl same
                exact all_agree steps still (sending.agree (same.trans still))
              · have still : after.journal.visits = memory.journal.visits := by
                  have := sending.bound
                  omega
                exact all_carry steps still (sending.carried (same.trans still))
          | unlock visits => exact sent rfl stage.2
  | finish b since payload visits =>
      cases payload with
      | none =>
          intro same
          have still := unchanged rfl same
          exact (stage (same.trans still)).step steps descriptors quiet still
      | some payload => exact ⟨new rfl stage.1, sent rfl stage.2⟩
  | _ => trivial

theorem Delivered.aside (delivered : Delivered memory points cast)
    (steps : Steps memory false (points k) after next) (descriptors : Descriptors memory points)
    (other : (points k).isBroadcaster = false)
    (outside : (Pc.broadcaster cast).holds .clientsMutex = true →
      (points k).holds .clientsMutex = false) :
    Delivered after (Function.update points k next) cast := by
  obtain ⟨covered, sentVisits, version, arrivals⟩ := steps_journal steps other
  constructor
  · intro settled
    rw [covered] at settled
    have still : after.journal.version = memory.journal.version := by
      have := delivered.covered _ settled
      omega
    exact (delivered.settled (still ▸ settled)).step steps descriptors (other_quiet other) still
  · intro recent
    rw [sentVisits] at recent
    have still : after.journal.visits = memory.journal.visits := by
      have := delivered.sent _ recent
      omega
    exact (delivered.agreed (still ▸ recent)).step steps descriptors (other_quiet other) still
  · intro past isCovered
    exact (delivered.covered past (covered ▸ isCovered)).trans version
  · intro past isSent
    exact (delivered.sent past (sentVisits ▸ isSent)).trans arrivals
  · intro since here
    obtain ⟨bound, later⟩ := delivered.since since here
    exact ⟨bound.trans version, fun past isCovered => later past (covered ▸ isCovered)⟩
  · exact stage_aside steps descriptors other outside
      (fun since here => (delivered.since since here).1) delivered.stage

/-- What a handler holds is up to date if the payload it holds is. -/
theorem carries_agrees (carries : pc.carries payload = true) (current : payload = memory.snapshot) :
    pc.Agrees memory := by
  cases pc with
  | admin pc =>
      cases pc with
      | snapshot => cases carries
      | writeHeader | writeFrame | lock | register => exact (of_decide_eq_true carries).trans current
      | _ => trivial
  | _ => trivial

omit [DecidableEq κ] in
theorem Agreed.current (agreed : Agreed memory points payload) (current : payload = memory.snapshot) :
    Current memory points payload :=
  ⟨current, agreed.shown, fun j => carries_agrees (agreed.carried j) current⟩

/-- A step of the broadcaster that sends no payload. -/
theorem Delivered.goto (delivered : Delivered memory points cast) (descriptors : Descriptors memory points)
    (here : points k = .broadcaster cast)
    (steps : Steps memory false (.broadcaster cast) after (.broadcaster cast'))
    (quiet : (Pc.broadcaster cast).sendsData = false) (journal : after.journal = memory.journal)
    (last : cast'.last = cast.last)
    (since : ∀ since, cast'.since = some since → since ≤ memory.journal.version ∧
      ∀ version, memory.journal.covered = some version → version ≤ since)
    (stage : cast'.Stage after (Function.update points k (.broadcaster cast'))) :
    Delivered after (Function.update points k (.broadcaster cast')) cast' := by
  rw [← here] at steps quiet
  constructor
  · intro settled
    rw [journal] at settled
    rw [last]
    exact (delivered.settled settled).step steps descriptors quiet (by rw [journal])
  · intro recent
    rw [journal] at recent
    rw [last]
    exact (delivered.agreed recent).step steps descriptors quiet (by rw [journal])
  · rw [journal]
    exact delivered.covered
  · rw [journal]
    exact delivered.sent
  · rw [journal]
    exact since
  · exact stage

omit [DecidableEq κ] in
/-- While a new payload is being sent, the last iteration is out of date. -/
theorem Delivered.unsettled (delivered : Delivered memory points cast) (during : cast.since = some since)
    (new : New memory cast.last since payload) :
    memory.journal.covered ≠ some memory.journal.version := by
  intro settled
  obtain ⟨bound, later⟩ := delivered.since since during
  have same : since = memory.journal.version := le_antisymm bound (later _ settled)
  exact new.differs ((new.snapshot same).trans (delivered.settled settled).snapshot.symm)

theorem New.congr {last : String} (new : New memory last since payload)
    (journal : after.journal = memory.journal) (gauges : after.gauges = memory.gauges)
    (context : after.context = memory.context) : New after last since payload := by
  refine ⟨new.differs, by rw [journal]; exact new.unsent, fun same => ?_⟩
  rw [journal] at same
  rw [new.snapshot same, snapshot_congr gauges context]

omit [DecidableEq κ] in
/-- A step of the broadcaster while it sends a new payload. -/
theorem Delivered.sending (delivered : Delivered memory points cast) {points' : κ → Pc}
    (during : cast.since = some since) (new : New memory cast.last since payload)
    (journal : after.journal = memory.journal) (later : cast'.since = cast.since)
    (stage : cast'.Stage after points') : Delivered after points' cast' := by
  constructor
  · rw [journal]
    exact fun settled => absurd settled (delivered.unsettled during new)
  · rw [journal, new.unsent]
    nofun
  · rw [journal]
    exact delivered.covered
  · rw [journal]
    exact delivered.sent
  · rw [journal, later]
    exact delivered.since
  · exact stage

/-- The loop of `sse_send_all` writes the payload to one more client. -/
theorem Sending.keep {n : Nat} {cfd : Fd} {b : Local}
    (sending : Sending memory points since payload visits i) (aligned : n = i)
    (found : memory.clients[i]? = some cfd)
    (here : points k = .broadcaster (.send b since (some payload) (.write visits i n))) :
    Sending (memory.keep cfd n (sentFrame (some payload))) (Function.update points k
      (.broadcaster (.send b since (some payload) (.write visits (i + 1) (n + 1)))))
      since payload visits (i + 1) := by
  have steps : Steps memory false _ _ _ := .keep b since (some payload) visits i n cfd found
  rw [← here] at steps
  subst aligned
  have same : (memory.keep cfd n (sentFrame (some payload))).clients = memory.clients := set_self found
  refine ⟨sending.bound, ?_, fun current => ?_, fun quiet => ?_⟩
  · intro fd member
    rw [same, List.take_add_one, found] at member
    by_cases mine : fd = cfd
    · subst mine
      simp [Memory.keep, Memory.write, sentFrame]
    · have old : fd ∈ memory.clients.take n := by simpa [mine] using member
      simpa [Memory.keep, Memory.write, mine] using sending.shown fd old
  · exact all_agree steps rfl (sending.agree current)
  · exact all_carry steps rfl (sending.carried quiet)

/-- At its end all clients have the payload. -/
theorem Sending.sent {n : Nat} {b : Local} (sending : Sending memory points since payload visits i)
    (new : New memory b.last since payload) (aligned : n = i) (found : memory.clients[i]? = none)
    (here : points k = .broadcaster (.send b since (some payload) (.write visits i n))) :
    Sent { memory with clients := memory.clients.take n } (Function.update points k
      (.broadcaster (.send b since (some payload) (.unlock visits)))) since payload visits := by
  have steps : Steps memory false _ _ _ := .sendEnd b since (some payload) visits i n found
  rw [← here] at steps
  subst aligned
  refine ⟨sending.bound, fun current => ⟨?_, sending.shown, ?_⟩, fun quiet => ⟨sending.shown, ?_⟩⟩
  · exact new.snapshot current
  · exact all_agree steps rfl (sending.agree current)
  · exact all_carry steps rfl (sending.carried quiet)

/-- The payload that the broadcaster is about to send. -/
def Pc.aboutToSend : Pc → Option String
  | .broadcaster (.send _ _ payload .begin) => payload
  | _ => none

/-- The broadcaster has found the payload that it sent last. -/
def Pc.repeats : Pc → Bool
  | .broadcaster (.compare b _ _ payload) => decide (payload = b.last)
  | _ => false

omit [DecidableEq κ] in
/-- An iteration without a new payload ends with all clients up to date. -/
theorem Delivered.repeated (delivered : Delivered memory points cast)
    (returns : memory.journal.covered = some memory.journal.version ∨
      memory.journal.sentVisits = some memory.journal.visits)
    (current : cast.last = memory.snapshot) : Current memory points cast.last := by
  rcases returns with settled | recent
  · exact delivered.settled settled
  · exact (delivered.agreed recent).current current

/-- Every step of the broadcaster keeps the clients up to date under the two conditions. -/
theorem Delivered.advance (delivered : Delivered memory points cast)
    (descriptors : Descriptors memory points) (here : points k = .broadcaster cast)
    (steps : Steps memory false (.broadcaster cast) after next)
    (meets : ∀ payload, (Pc.broadcaster cast).aboutToSend = some payload →
      ∀ j, (points j).carries payload = true)
    (returns : (Pc.broadcaster cast).repeats = true →
      memory.journal.covered = some memory.journal.version ∨
        memory.journal.sentVisits = some memory.journal.visits) :
    ∃ cast', next = .broadcaster cast' ∧ Delivered after (Function.update points k next) cast' := by
  have step := steps
  have own := steps
  rw [← here] at own
  have quiet : (Pc.broadcaster cast).sendsData = false → (points k).sendsData = false := by
    rw [here]
    exact id
  have aligned : (Pc.broadcaster cast).Aligned := here ▸ descriptors.aligned k
  have stage := delivered.stage
  cases steps with
  | topRunning | topStopped | lock | testSame | testNew | wait | expired | woken | grab | unlock
  | stopped => exact ⟨_, rfl, delivered.goto descriptors here step rfl rfl rfl nofun trivial⟩
  | begins b timedOut running =>
      refine ⟨_, rfl, delivered.goto descriptors here step rfl rfl rfl ?_ fun _ => startSnapshot_agrees⟩
      rintro since ⟨⟩
      exact ⟨le_rfl, delivered.covered⟩
  | reads b timedOut since pc next read =>
      exact ⟨_, rfl, delivered.goto descriptors here step rfl rfl rfl delivered.since
        fun same => formatStatsJson_agrees (stage same) read⟩
  | prints b timedOut since pc payload printed =>
      exact ⟨_, rfl, delivered.goto descriptors here step rfl rfl rfl delivered.since
        fun same => formatStatsJson_snapshot (stage same) printed⟩
  | differs b timedOut since payload different =>
      refine ⟨_, rfl, fun settled => ?_, nofun, delivered.covered, nofun, delivered.since,
        ⟨different, rfl, stage⟩, trivial⟩
      exact (delivered.settled settled).step own descriptors (quiet rfl) rfl
  | pings b since payload same | skips b since payload same =>
      have upToDate : since = memory.journal.version → Current memory points b.last := fun current =>
        delivered.repeated (returns (decide_eq_true same)) (same.symm.trans (stage current))
      exact ⟨_, rfl, delivered.goto descriptors here step rfl rfl rfl delivered.since
        fun current => (upToDate current).step own descriptors (quiet rfl) rfl⟩
  | sendLock b since payload =>
      cases payload with
      | none =>
          exact ⟨_, rfl, delivered.goto descriptors here step rfl rfl rfl delivered.since
            fun current => (stage current).step own descriptors (quiet rfl) rfl⟩
      | some payload => exact ⟨_, rfl, delivered.sending rfl stage.1 rfl rfl ⟨stage.1, trivial⟩⟩
  | sendBegin b since payload =>
      cases payload with
      | none =>
          exact ⟨_, rfl, delivered.goto descriptors here step rfl rfl rfl delivered.since
            fun current => (stage current).step own descriptors (quiet rfl) rfl⟩
      | some payload =>
          have carried := meets payload rfl
          refine ⟨_, rfl, delivered.sending rfl stage.1 rfl rfl ⟨stage.1, le_rfl, nofun, ?_, ?_⟩⟩
          · intro current
            have agree : ∀ j, (points j).Agrees memory :=
              fun j => carries_agrees (carried j) (stage.1.snapshot current)
            exact all_agree own rfl agree
          · exact fun _ => all_carry own rfl carried
  | keep b since payload visits i n cfd found =>
      cases payload with
      | none =>
          exact ⟨_, rfl, delivered.goto descriptors here step rfl rfl rfl delivered.since
            fun current => (stage current).step own descriptors (quiet rfl) rfl⟩
      | some payload =>
          exact ⟨_, rfl, delivered.sending rfl stage.1 rfl rfl
            ⟨stage.1.congr rfl rfl rfl, Sending.keep stage.2 aligned found here⟩⟩
  | drop b since payload visits i n cfd fails => cases fails
  | sendEnd b since payload visits i n found =>
      cases payload with
      | none =>
          exact ⟨_, rfl, delivered.goto descriptors here step rfl rfl rfl delivered.since
            fun current => (stage current).step own descriptors (quiet rfl) rfl⟩
      | some payload =>
          exact ⟨_, rfl, delivered.sending rfl stage.1 rfl rfl
            ⟨stage.1.congr rfl rfl rfl, Sending.sent stage.2 stage.1 aligned found here⟩⟩
  | sendUnlock b since payload visits =>
      cases payload with
      | none =>
          exact ⟨_, rfl, delivered.goto descriptors here step rfl rfl rfl delivered.since
            fun current => (stage current).step own descriptors (quiet rfl) rfl⟩
      | some payload =>
          have sent : Sent memory points since payload visits := stage.2
          refine ⟨_, rfl, delivered.sending rfl stage.1 rfl rfl ⟨stage.1, sent.bound, ?_, ?_⟩⟩
          · exact fun current => (sent.current current).step own descriptors (quiet rfl) rfl
          · exact fun recent => (sent.agreed recent).step own descriptors (quiet rfl) rfl
  | finish b since payload visits =>
      have bound := (delivered.since since rfl).1
      cases payload with
      | none =>
          refine ⟨_, rfl, ?_, fun recent => ?_, ?_, delivered.sent, nofun, trivial⟩
          · intro settled
            exact (stage (Option.some.inj settled)).step own descriptors (quiet rfl) rfl
          · exact (delivered.agreed recent).step own descriptors (quiet rfl) rfl
          · rintro version ⟨⟩
            exact bound
      | some payload =>
          have sent : Sent memory points since payload visits := stage.2
          refine ⟨_, rfl, ?_, ?_, ?_, ?_, nofun, trivial⟩
          · intro settled
            exact (sent.current (Option.some.inj settled)).step own descriptors (quiet rfl) rfl
          · intro recent
            exact (sent.agreed (Option.some.inj recent)).step own descriptors (quiet rfl) rfl
          · rintro version ⟨⟩
            exact bound
          · rintro arrivals ⟨⟩
            exact sent.bound

end Delivery

section Runs

variable {ι : Type} [DecidableEq ι] [Fintype ι] {context : Context} {gauges : Gauges} {roles : ι → Role}
  {allowed : EventConfig ι → Label (Option ι) Input → Prop} {config after : EventConfig ι}
  {label : Label (Option ι) Input}

omit [DecidableEq ι] [Fintype ι] in
theorem start_point (context : Context) (gauges : Gauges) (roles : ι → Role) (i : ι) :
    (eventsStart context gauges roles).point (some i) = (roles i).start := rfl

omit [DecidableEq ι] [Fintype ι] in
theorem start_outside (role : Role) (mutex : Mutex) : role.start.holds mutex = false := by
  cases role <;> rfl

omit [DecidableEq ι] [Fintype ι] in
theorem start_owned (context : Context) (gauges : Gauges) (roles : ι → Role) :
    Owned Pc.holds (eventsStart context gauges roles) where
  owner i mutex := by
    constructor
    · nofun
    · intro held
      cases i with
      | none => cases held
      | some i =>
          have outside := start_outside (roles i) mutex
          exact absurd held (by simpa [eventsStart] using outside)
  parked {i mutex point} parked := by cases i <;> cases parked

/-- The table is in the hands of one thread at a time. -/
theorem table_exclusive (reaches : Reaches events allowed (eventsStart context gauges roles) config)
    {i j : Option ι} (first : (config.point i).holds .clientsMutex = true)
    (second : (config.point j).holds .clientsMutex = true) : i = j := by
  have owned := reaches.owned events_disciplined (start_owned context gauges roles)
  refine owned.exclusive_points (reaches.waits ?_) clients_unwaited first second
  intro i
  cases i <;> trivial

/-- No write fails. When the broadcaster begins to send a payload, every handler under way
holds that payload; when it finds the payload it has sent last, either no gauge has changed
since the last iteration began, or nobody has connected since that payload was sent. -/
structure Undisturbed (config : EventConfig ι) (label : Label (Option ι) Input) : Prop where
  writes : writeFails label = false
  meets : ∀ payload, (config.point label.thread).aboutToSend = some payload →
    ∀ j, (config.point j).carries payload = true
  returns : (config.point label.thread).repeats = true →
    config.memory.journal.covered = some config.memory.journal.version ∨
      config.memory.journal.sentVisits = some config.memory.journal.visits

instance (config : EventConfig ι) (label : Label (Option ι) Input) :
    Decidable (Undisturbed config label) :=
  decidable_of_iff (writeFails label = false ∧
      (∀ payload, (config.point label.thread).aboutToSend = some payload →
        ∀ j, (config.point j).carries payload = true) ∧
      ((config.point label.thread).repeats = true →
        config.memory.journal.covered = some config.memory.journal.version ∨
          config.memory.journal.sentVisits = some config.memory.journal.visits))
    ⟨fun ⟨writes, meets, returns⟩ => ⟨writes, meets, returns⟩,
      fun undisturbed => ⟨undisturbed.writes, undisturbed.meets, undisturbed.returns⟩⟩

/-- The invariant of the runs. -/
structure Served (config : EventConfig ι) : Prop where
  descriptors : Descriptors config.memory config.point
  others : ∀ i, (config.point (some i)).isBroadcaster = false
  delivered : ∃ cast, config.point none = .broadcaster cast ∧ Delivered config.memory config.point cast

omit [DecidableEq ι] [Fintype ι] in
theorem served_start (context : Context) (gauges : Gauges) (roles : ι → Role) :
    Served (eventsStart context gauges roles) where
  descriptors := by
    have free : ∀ j, ((eventsStart context gauges roles).point j).fd = none ∧
        ((eventsStart context gauges roles).point j).told = none ∧
        ((eventsStart context gauges roles).point j).Aligned := by
      intro j
      cases j with
      | none => exact ⟨rfl, rfl, trivial⟩
      | some i =>
          rw [start_point]
          cases roles i <;> exact ⟨rfl, rfl, trivial⟩
    refine ⟨nofun, fun {j fd} has => ?_, fun {i j fd} has _ => ?_, fun {j fd body} has => ?_,
      fun j => (free j).2.2⟩
    · rw [(free j).1] at has
      cases has
    · rw [(free i).1] at has
      cases has
    · rw [(free j).2.1] at has
      cases has
  others i := by
    rw [start_point]
    cases roles i <;> rfl
  delivered := ⟨_, rfl, nofun, nofun, nofun, nofun, nofun, trivial⟩

omit [DecidableEq ι] [Fintype ι] in
theorem steps_isBroadcaster {memory after : Memory} {pc next : Pc} {fails : Bool}
    (steps : Steps memory fails pc after next) : next.isBroadcaster = pc.isBroadcaster := by
  cases steps <;> rfl

theorem served_step (reaches : Reaches events allowed (eventsStart context gauges roles) config)
    (served : Served config) (undisturbed : Undisturbed config label)
    (moves : Moves events config label after) : Served after := by
  rcases moves_steps moves with ⟨memory, points⟩ | ⟨next, steps, points⟩
  · exact ⟨by rw [memory, points]; exact served.descriptors, by rw [points]; exact served.others,
      by rw [memory, points]; exact served.delivered⟩
  obtain ⟨cast, here, delivered⟩ := served.delivered
  rw [undisturbed.writes] at steps
  have descriptors := descriptors_step steps served.descriptors
  rw [← points] at descriptors
  cases who : label.thread with
  | none =>
      have meets := undisturbed.meets
      have returns := undisturbed.returns
      rw [who] at steps points meets returns
      rw [here] at steps meets returns
      obtain ⟨cast', rfl, delivered'⟩ :=
        delivered.advance served.descriptors here steps meets returns
      rw [← points] at delivered'
      refine ⟨descriptors, fun i => ?_, cast', by rw [points, Function.update_self], delivered'⟩
      rw [points, Function.update_of_ne (by simp)]
      exact served.others i
  | some k =>
      rw [who] at steps points
      have other := served.others k
      have delivered' := delivered.aside steps served.descriptors other fun held => by
        by_contra inside
        have same := table_exclusive reaches (by rw [here]; exact held)
          (Bool.eq_true_of_not_eq_false inside)
        cases same
      rw [← points] at delivered'
      refine ⟨descriptors, fun i => ?_, cast, ?_, delivered'⟩
      · rw [points]
        by_cases same : i = k
        · subst same
          rw [Function.update_self, steps_isBroadcaster steps]
          exact other
        · rw [Function.update_of_ne (by simpa using same)]
          exact served.others i
      · rw [points, Function.update_of_ne (by simp)]
        exact here

theorem reachable_served
    (reaches : Reaches events Undisturbed (eventsStart context gauges roles) config) : Served config :=
  reaches.invariant Served (served_start context gauges roles)
    fun reached served undisturbed moves => served_step reached served undisturbed moves

/-- After an iteration that began its snapshot behind the latest gauge change, every
registered client has the current snapshot. -/
theorem subscribers_up_to_date
    (reaches : Reaches events Undisturbed (eventsStart context gauges roles) config)
    (covered : config.memory.journal.covered = some config.memory.journal.version) :
    ∀ fd ∈ config.memory.clients,
      lastData (config.memory.received fd) = some config.memory.snapshot := by
  intro fd member
  obtain ⟨cast, _, delivered⟩ := (reachable_served reaches).delivered
  have current := delivered.settled covered
  rw [current.shown fd member, current.snapshot]

end Runs

def go {ι : Type} (i : Option ι) : Label (Option ι) Input := .run i .none

/-- Besides the broadcaster, thread 0 changes gauges and thread 1 is the admin listener. -/
def oneHandler : Fin 2 → Role
  | 0 => .gauge
  | 1 => .admin

/-- The server without a pool and without connections, or with a connection. -/
def idle : Gauges := ⟨[], 0, 0, 0⟩

def connected : Gauges := ⟨[], 0, 1, 0⟩

/-- A call of `notify_event` while nobody sleeps, and a change of gauges before it. -/
def notifySteps {ι : Type} (i : ι) : List (Label (Option ι) Input) :=
  [.run (some i) .notify, go (some i), go (some i), .pick (some i) none, go (some i)]

def changeSteps {ι : Type} (i : ι) (gauges : Gauges) : List (Label (Option ι) Input) :=
  .run (some i) (.change gauges) :: notifySteps i

/-- A handler up to the write of its snapshot, and its registration. -/
def greetSteps {ι : Type} (i : ι) (fd : Fd) : List (Label (Option ι) Input) :=
  [go (some i), .run (some i) (.accept fd), go (some i), go (some i), .run (some i) (.write true),
    .run (some i) (.write true)]

def registerSteps {ι : Type} (i : ι) : List (Label (Option ι) Input) := List.replicate 3 (go (some i))

/-- An iteration up to its comparison, and the sending to `n` clients. -/
def compareSteps : List (Label (Option (Fin 2)) Input) := List.replicate 9 (go none)

def sendSteps (n : Nat) : List (Label (Option (Fin 2)) Input) :=
  List.replicate 2 (go none) ++ List.replicate n (.run none (.write true)) ++ List.replicate 3 (go none)

theorem subscribers_up_to_date_single : ∃ config : EventConfig (Fin 2),
    Reaches events Undisturbed (eventsStart ⟨false, 0⟩ idle oneHandler) config ∧
      config.memory.clients = [5] ∧ config.memory.gauges = connected ∧
      lastData (config.memory.received 5) = some (connected.snapshot ⟨false, 0⟩) := by
  obtain ⟨config, reaches, covered, clients, gauges, context⟩ := Reaches.of_schedule events Undisturbed
    (eventsStart ⟨false, 0⟩ idle oneHandler)
    (greetSteps 1 5 ++ registerSteps 1 ++ changeSteps 0 connected ++ compareSteps ++ sendSteps 1)
    (fun config => config.memory.journal.covered = some config.memory.journal.version ∧
      config.memory.clients = [5] ∧ config.memory.gauges = connected ∧
      config.memory.snapshot = connected.snapshot ⟨false, 0⟩) (by decide)
  have upToDate := subscribers_up_to_date reaches covered 5 (by simp [clients])
  exact ⟨config, reaches, clients, gauges, by rw [upToDate, context]⟩

/-- A handler has written its snapshot when a gauge changes. The broadcaster sends the new
payload to the clients of the table, the handler registers its client behind that, and the
client keeps the old snapshot. -/
theorem subscriber_left_stale : ∃ config : EventConfig (Fin 2),
    Reaches events (fun _ label => writeFails label = false)
        (eventsStart ⟨false, 0⟩ idle oneHandler) config ∧
      config.memory.journal.covered = some config.memory.journal.version ∧
      config.point (some 1) = .admin .top ∧ config.memory.clients = [5] ∧
      lastData (config.memory.received 5) ≠ some config.memory.snapshot :=
  Reaches.of_schedule events (fun _ label => writeFails label = false)
    (eventsStart ⟨false, 0⟩ idle oneHandler)
    (greetSteps 1 5 ++ changeSteps 0 connected ++ compareSteps ++ sendSteps 0 ++ registerSteps 1)
    (fun config => config.memory.journal.covered = some config.memory.journal.version ∧
      config.point (some 1) = .admin .top ∧ config.memory.clients = [5] ∧
      lastData (config.memory.received 5) ≠ some config.memory.snapshot) (by decide)

/-- The second condition is needed as well. A client joins while a gauge has changed for a
moment; when it has changed back, the broadcaster finds the payload it has sent before. -/
theorem subscriber_misses_return : ∃ config : EventConfig (Fin 2),
    Reaches events (fun config label => writeFails label = false ∧
        ∀ payload, (config.point label.thread).aboutToSend = some payload →
          ∀ j, (config.point j).carries payload = true)
        (eventsStart ⟨false, 0⟩ idle oneHandler) config ∧
      config.memory.journal.covered = some config.memory.journal.version ∧
      config.point (some 1) = .admin .top ∧ config.memory.clients = [5] ∧
      lastData (config.memory.received 5) ≠ some config.memory.snapshot :=
  Reaches.of_schedule events (fun config label => writeFails label = false ∧
      ∀ payload, (config.point label.thread).aboutToSend = some payload →
        ∀ j, (config.point j).carries payload = true)
    (eventsStart ⟨false, 0⟩ idle oneHandler)
    (notifySteps 0 ++ compareSteps ++ sendSteps 0 ++ changeSteps 0 connected ++ greetSteps 1 5 ++
      registerSteps 1 ++ changeSteps 0 idle ++ compareSteps ++ [go none])
    (fun config => config.memory.journal.covered = some config.memory.journal.version ∧
      config.point (some 1) = .admin .top ∧ config.memory.clients = [5] ∧
      lastData (config.memory.received 5) ≠ some config.memory.snapshot) (by decide)

end ThreadPool.Server
