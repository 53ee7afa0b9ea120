import ThreadPool.Server.Events

namespace ThreadPool.Server

open Foundation

/-! # Descriptors and clients

Who owns a descriptor, and what its client has received. A handler owns its connection until
it is registered; outside the loop that sends a payload, a step leaves the clients with the
data frames they have.
-/

@[simp] theorem lastData_header (older : List Frame) : lastData (.header :: older) = lastData older := rfl

@[simp] theorem lastData_ping (older : List Frame) : lastData (.ping :: older) = lastData older := rfl

@[simp] theorem lastData_data (payload : String) (older : List Frame) :
    lastData (.data payload :: older) = some payload := rfl

def Pc.isBroadcaster : Pc → Bool
  | .broadcaster _ => true
  | _ => false

/-- The descriptor that a handler has not handed over yet. -/
def Pc.fd : Pc → Option Fd
  | .admin (.snapshot fd _) => some fd
  | .admin (.writeHeader fd _) => some fd
  | .admin (.writeFrame fd _) => some fd
  | .admin (.lock fd _) => some fd
  | .admin (.register fd _) => some fd
  | .admin (.unlock fd false) => some fd
  | .admin (.close fd) => some fd
  | _ => none

/-- The descriptor to which a handler has written its snapshot, and the snapshot. -/
def Pc.told : Pc → Option (Fd × String)
  | .admin (.lock fd body) => some (fd, body)
  | .admin (.register fd body) => some (fd, body)
  | _ => none

/-- What a handler has read of its snapshot is what the gauges are. -/
def Pc.Agrees (memory : Memory) : Pc → Prop
  | .admin (.snapshot _ pc) => pc.Agrees memory.context memory.gauges
  | .admin (.writeHeader _ body) => body = memory.snapshot
  | .admin (.writeFrame _ body) => body = memory.snapshot
  | .admin (.lock _ body) => body = memory.snapshot
  | .admin (.register _ body) => body = memory.snapshot
  | _ => True

/-- A handler between its connection and its registration holds this snapshot. -/
def Pc.carries (payload : String) : Pc → Bool
  | .admin (.snapshot ..) => false
  | .admin (.writeHeader _ body) => decide (body = payload)
  | .admin (.writeFrame _ body) => decide (body = payload)
  | .admin (.lock _ body) => decide (body = payload)
  | .admin (.register _ body) => decide (body = payload)
  | _ => true

/-- As long as no write fails, `sse_send_all` keeps every client in its place. -/
def Pc.Aligned : Pc → Prop
  | .broadcaster (.send _ _ _ (.write _ i n)) => n = i
  | _ => True

/-- The broadcaster is in the loop that sends a payload. -/
def Pc.sendsData : Pc → Bool
  | .broadcaster (.send _ _ (some _) (.write ..)) => true
  | _ => false

/-- The mutexes held at a program point. -/
def Pc.mutexes : Pc → List Mutex
  | .notify _ .lock => []
  | .notify _ _ => [.bcastMtx]
  | .broadcaster (.test _) => [.bcastMtx]
  | .broadcaster (.wait _) => [.bcastMtx]
  | .broadcaster (.waited _) => [.bcastMtx]
  | .broadcaster (.grab _) => [.bcastMtx]
  | .broadcaster (.unlock ..) => [.bcastMtx]
  | .broadcaster (.send _ _ _ .lock) => []
  | .broadcaster (.send ..) => [.clientsMutex]
  | .admin (.register ..) => [.clientsMutex]
  | .admin (.unlock ..) => [.clientsMutex]
  | .main .closeAll => [.clientsMutex]
  | .main .closeUnlock => [.clientsMutex]
  | _ => []

def Pc.holds (pc : Pc) (mutex : Mutex) : Bool := decide (mutex ∈ pc.mutexes)

section Mutexes

variable {ι : Type} {memory after : Memory} {pc next : Pc} {input : Input}

theorem access_holds (body : (code pc : EventInstr ι).body memory input = some (after, next)) :
    next.holds = pc.holds := by
  cases code_access body <;> first | rfl | cases body

theorem code_respects (pc : Pc) : (code pc : EventInstr ι).Respects Pc.holds pc := by
  have access : (code pc : EventInstr ι).sync = none →
      (code pc : EventInstr ι).Respects Pc.holds pc := fun nosync =>
    Instr.respects_of_body (fun _ _ _ _ body => access_holds body) nosync (events_flat none pc).2
  cases pc with
  | gauge => exact access rfl
  | broadcaster pc =>
      cases pc with
      | send b since payload pc =>
          cases pc <;> first
            | exact access rfl
            | exact ⟨rfl, by funext other; cases other <;> rfl⟩
      | _ =>
          first
            | exact access rfl
            | exact ⟨rfl, by funext other; cases other <;> rfl⟩
  | notify caller pc =>
      cases pc with
      | unlock => cases caller <;> exact ⟨rfl, by funext other; cases other <;> rfl⟩
      | lock => exact ⟨rfl, by funext other; cases other <;> rfl⟩
      | bump => exact access rfl
      | signal => rfl
  | admin pc =>
      cases pc with
      | unlock fd registered =>
          cases registered <;> exact ⟨rfl, by funext other; cases other <;> rfl⟩
      | lock => exact ⟨rfl, by funext other; cases other <;> rfl⟩
      | _ => exact access rfl
  | main pc =>
      cases pc <;> first
        | exact access rfl
        | exact ⟨rfl, by funext other; cases other <;> rfl⟩
        | rfl

theorem events_disciplined :
    Disciplined (events : Program (Option ι) Mutex Cond Memory Pc Input) Pc.holds :=
  .of_respects (fun _ pc => code_respects pc) nofun

/-- Nobody waits on a condition variable with the mutex of the table. -/
theorem clients_unwaited {cond : Cond} :
    (code pc : EventInstr ι) ≠ .wait cond .clientsMutex next := by
  intro wait
  cases pc with
  | gauge => cases wait
  | broadcaster pc =>
      cases pc with
      | send b since payload pc => cases pc <;> cases wait
      | _ => cases wait
  | notify caller pc | admin pc | main pc => cases pc <;> cases wait

end Mutexes

section Descriptors

variable {κ : Type} [DecidableEq κ] {memory after : Memory} {points : κ → Pc} {k : κ} {pc next : Pc}

theorem told_fd {fd : Fd} {body : String} (told : pc.told = some (fd, body)) : pc.fd = some fd := by
  cases pc with
  | admin pc => cases pc <;> cases told <;> rfl
  | _ => cases told

/-- Who owns which descriptor: the table its clients, a handler its connection. -/
structure Descriptors (memory : Memory) (points : κ → Pc) : Prop where
  clients : ∀ fd ∈ memory.clients, memory.opened fd = true
  owned : ∀ {j fd}, (points j).fd = some fd → memory.opened fd = true ∧ fd ∉ memory.clients
  distinct : ∀ {i j fd}, (points i).fd = some fd → (points j).fd = some fd → i = j
  told : ∀ {j fd body}, (points j).told = some (fd, body) → lastData (memory.received fd) = some body
  aligned : ∀ j, (points j).Aligned

/-- A step that leaves the descriptors of the other threads alone. -/
theorem Descriptors.update (descriptors : Descriptors memory points)
    (clients : ∀ fd ∈ after.clients, after.opened fd = true)
    (mine : ∀ {fd}, next.fd = some fd → after.opened fd = true ∧ fd ∉ after.clients ∧
      ∀ j, j ≠ k → (points j).fd ≠ some fd)
    (others : ∀ {j fd}, j ≠ k → (points j).fd = some fd → after.opened fd = true ∧
      fd ∉ after.clients ∧ after.received fd = memory.received fd)
    (told : ∀ {fd body}, next.told = some (fd, body) → lastData (after.received fd) = some body)
    (aligned : next.Aligned) : Descriptors after (Function.update points k next) where
  clients := clients
  owned {j fd} has := by
    by_cases here : j = k
    · subst here
      rw [Function.update_self] at has
      exact ⟨(mine has).1, (mine has).2.1⟩
    · rw [Function.update_of_ne here] at has
      exact ⟨(others here has).1, (others here has).2.1⟩
  distinct {i j fd} first second := by
    by_cases left : i = k
    · subst left
      rw [Function.update_self] at first
      by_cases right : j = i
      · exact right.symm
      · rw [Function.update_of_ne right] at second
        exact absurd second ((mine first).2.2 j right)
    · rw [Function.update_of_ne left] at first
      by_cases right : j = k
      · subst right
        rw [Function.update_self] at second
        exact absurd first ((mine second).2.2 i left)
      · rw [Function.update_of_ne right] at second
        exact descriptors.distinct first second
  told {j fd body} has := by
    by_cases here : j = k
    · subst here
      rw [Function.update_self] at has
      exact told has
    · rw [Function.update_of_ne here] at has
      rw [(others here (told_fd has)).2.2]
      exact descriptors.told has
  aligned j := by
    by_cases here : j = k
    · subst here
      rw [Function.update_self]
      exact aligned
    · rw [Function.update_of_ne here]
      exact descriptors.aligned j

/-- A thread that keeps or gives up its descriptor, with all descriptors as they were. -/
theorem Descriptors.quiet (descriptors : Descriptors memory points) (here : points k = pc)
    (clients : after.clients = memory.clients) (opened : after.opened = memory.opened)
    (received : after.received = memory.received) (keeps : next.fd = none ∨ next.fd = pc.fd)
    (told : next.told = none ∨ next.told = pc.told) (aligned : next.Aligned) :
    Descriptors after (Function.update points k next) := by
  subst here
  apply descriptors.update
  · rw [clients, opened]
    exact descriptors.clients
  · intro fd has
    have before : (points k).fd = some fd := by
      rcases keeps with none | same
      · rw [none] at has
        cases has
      · rw [← same, has]
    rw [clients, opened]
    refine ⟨(descriptors.owned before).1, (descriptors.owned before).2, ?_⟩
    intro j different theirs
    exact different (descriptors.distinct theirs before)
  · intro j fd _ has
    rw [clients, opened, received]
    exact ⟨(descriptors.owned has).1, (descriptors.owned has).2, rfl⟩
  · intro fd body has
    rw [received]
    rcases told with none | same
    · rw [none] at has
      cases has
    · exact descriptors.told (same.symm.trans has)
  · exact aligned

/-- A handler writes to its own connection. -/
theorem Descriptors.write {fd : Fd} {frame : Frame} (descriptors : Descriptors memory points)
    (here : (points k).fd = some fd) (keeps : next.fd = some fd)
    (told : ∀ {body}, next.told = some (fd, body) → frame = .data body) (aligned : next.Aligned) :
    Descriptors (memory.write fd frame) (Function.update points k next) := by
  obtain ⟨isOpen, outside⟩ := descriptors.owned here
  refine descriptors.update descriptors.clients ?_ ?_ ?_ aligned
  · intro other has
    cases keeps.symm.trans has
    exact ⟨isOpen, outside, fun j different theirs => different (descriptors.distinct theirs here)⟩
  · intro j other different has
    refine ⟨(descriptors.owned has).1, (descriptors.owned has).2, Function.update_of_ne ?_ ..⟩
    rintro rfl
    exact different (descriptors.distinct has here)
  · intro other body has
    cases keeps.symm.trans (told_fd has)
    simp [Memory.write, told has]

theorem set_self {clients : List Fd} {i : Nat} {cfd : Fd} (here : clients[i]? = some cfd) :
    clients.set i cfd = clients := by
  obtain ⟨bound, rfl⟩ := List.getElem?_eq_some_iff.mp here
  exact List.set_getElem_self bound

/-- `accept` returns a descriptor that neither the table nor a handler has. -/
theorem Descriptors.accept {fd : Fd} (descriptors : Descriptors memory points)
    (closed : memory.opened fd = false) (gets : next.fd = some fd) (told : next.told = none)
    (aligned : next.Aligned) :
    Descriptors (memory.accept fd) (Function.update points k next) := by
  have outside : ∀ {other}, memory.opened other = true → other ≠ fd := by
    rintro other isOpen rfl
    rw [isOpen] at closed
    cases closed
  refine descriptors.update ?_ ?_ ?_ (fun has => nomatch told.symm.trans has) aligned
  · intro other member
    have isOpen := descriptors.clients other member
    simpa [Memory.accept, outside isOpen] using isOpen
  · intro other has
    cases gets.symm.trans has
    refine ⟨by simp [Memory.accept], fun member => outside (descriptors.clients fd member) rfl, ?_⟩
    exact fun j _ theirs => outside (descriptors.owned theirs).1 rfl
  · intro j other _ has
    have isOpen := (descriptors.owned has).1
    simpa [Memory.accept, outside isOpen] using descriptors.owned has

/-- A handler hands its connection over to the table. -/
theorem Descriptors.register {fd : Fd} (descriptors : Descriptors memory points)
    (here : (points k).fd = some fd) (gives : next.fd = none) (aligned : next.Aligned) :
    Descriptors { memory with clients := memory.clients ++ [fd] } (Function.update points k next) := by
  refine descriptors.update ?_ (fun has => nomatch gives.symm.trans has) ?_
    (fun has => nomatch gives.symm.trans (told_fd has)) aligned
  · intro other member
    rcases List.mem_append.mp member with old | new
    · exact descriptors.clients other old
    · rw [List.mem_singleton.mp new]
      exact (descriptors.owned here).1
  · intro j other different has
    refine ⟨(descriptors.owned has).1, fun member => ?_, rfl⟩
    rcases List.mem_append.mp member with old | new
    · exact (descriptors.owned has).2 old
    · cases List.mem_singleton.mp new
      exact different (descriptors.distinct has here)

/-- A handler closes its connection. -/
theorem Descriptors.close {fd : Fd} (descriptors : Descriptors memory points)
    (here : (points k).fd = some fd) (gives : next.fd = none) (aligned : next.Aligned) :
    Descriptors (memory.close fd) (Function.update points k next) := by
  refine descriptors.update ?_ (fun has => nomatch gives.symm.trans has) ?_
    (fun has => nomatch gives.symm.trans (told_fd has)) aligned
  · intro other member
    have different : other ≠ fd := by
      rintro rfl
      exact (descriptors.owned here).2 member
    simpa [Memory.close, different] using descriptors.clients other member
  · intro j other different has
    have another : other ≠ fd := by
      rintro rfl
      exact different (descriptors.distinct has here)
    simpa [Memory.close, another] using descriptors.owned has

/-- `sse_send_all` writes to a client and keeps it in its place. -/
theorem Descriptors.keep {i : Nat} {cfd : Fd} {frame : Frame} (descriptors : Descriptors memory points)
    (found : memory.clients[i]? = some cfd) (none : next.fd = none) (aligned : next.Aligned) :
    Descriptors (memory.keep cfd i frame) (Function.update points k next) := by
  have same : (memory.keep cfd i frame).clients = memory.clients := set_self found
  refine descriptors.update ?_ (fun has => nomatch none.symm.trans has) ?_
    (fun has => nomatch none.symm.trans (told_fd has)) aligned
  · rw [same]
    exact descriptors.clients
  · intro j other different has
    refine ⟨(descriptors.owned has).1, by rw [same]; exact (descriptors.owned has).2, ?_⟩
    refine Function.update_of_ne ?_ ..
    rintro rfl
    exact (descriptors.owned has).2 (List.mem_of_getElem? found)

theorem descriptors_step (steps : Steps memory false (points k) after next)
    (descriptors : Descriptors memory points) : Descriptors after (Function.update points k next) := by
  generalize here : points k = pc at steps
  cases steps with
  | accept fd closed => exact descriptors.accept closed rfl rfl trivial
  | writeHeader fd body => exact descriptors.write (by rw [here]; rfl) rfl nofun trivial
  | writeFrame fd body =>
      refine descriptors.write (by rw [here]; rfl) rfl ?_ trivial
      rintro text ⟨⟩
      rfl
  | register fd body room => exact descriptors.register (by rw [here]; rfl) rfl trivial
  | close fd => exact descriptors.close (by rw [here]; rfl) rfl trivial
  | keep b since payload visits i n cfd found =>
      have aligned := descriptors.aligned k
      rw [here] at aligned
      obtain rfl : n = i := aligned
      exact descriptors.keep found rfl rfl
  | sendEnd b since payload visits i n found =>
      refine descriptors.update ?_ nofun ?_ nofun trivial
      · intro other member
        exact descriptors.clients other (List.mem_of_mem_take member)
      · intro j other different has
        refine ⟨(descriptors.owned has).1, ?_, rfl⟩
        intro member
        exact (descriptors.owned has).2 (List.mem_of_mem_take member)
  | closeAll =>
      refine descriptors.update nofun nofun ?_ nofun trivial
      intro j other different has
      obtain ⟨isOpen, outside⟩ := descriptors.owned has
      exact ⟨by simp [isOpen, outside], nofun, rfl⟩
  | drop b since payload visits i n cfd fails => cases fails
  | headerFails fd body fails => cases fails
  | frameFails fd body fails => cases fails
  | sendBegin => exact descriptors.quiet here rfl rfl rfl (.inl rfl) (.inl rfl) rfl
  | registerLock => exact descriptors.quiet here rfl rfl rfl (.inr rfl) (.inr rfl) trivial
  | adminReads | adminPrints | full | unregistered =>
      exact descriptors.quiet here rfl rfl rfl (.inr rfl) (.inl rfl) trivial
  | _ => exact descriptors.quiet here rfl rfl rfl (.inl rfl) (.inl rfl) trivial

end Descriptors

/-- The last data frame of each of these clients. -/
def Shown (memory : Memory) (clients : List Fd) (payload : String) : Prop :=
  ∀ fd ∈ clients, lastData (memory.received fd) = some payload

/-- The payload is up to date, all clients have it, and handlers under way will write it. -/
structure Current {κ : Type} (memory : Memory) (points : κ → Pc) (payload : String) : Prop where
  snapshot : payload = memory.snapshot
  shown : Shown memory memory.clients payload
  agree : ∀ j, (points j).Agrees memory

/-- All clients have the payload, and handlers under way hold it, up to date or not. -/
structure Agreed {κ : Type} (memory : Memory) (points : κ → Pc) (payload : String) : Prop where
  shown : Shown memory memory.clients payload
  carried : ∀ j, (points j).carries payload = true

section Frames

variable {κ : Type} [DecidableEq κ] {memory after : Memory} {points : κ → Pc} {k : κ} {pc next : Pc}
  {payload : String}

theorem steps_gauges (steps : Steps memory false pc after next)
    (same : after.journal.version = memory.journal.version) :
    after.gauges = memory.gauges ∧ after.context = memory.context := by
  cases steps with
  | change gauges => simp [Memory.change] at same
  | _ => exact ⟨rfl, rfl⟩

theorem snapshot_congr (gauges : after.gauges = memory.gauges) (context : after.context = memory.context) :
    after.snapshot = memory.snapshot := by
  rw [Memory.snapshot, gauges, context, Memory.snapshot]

theorem agrees_congr (gauges : after.gauges = memory.gauges) (context : after.context = memory.context)
    (agrees : pc.Agrees memory) : pc.Agrees after := by
  have same := snapshot_congr gauges context
  cases pc with
  | admin pc =>
      cases pc with
      | snapshot fd pc =>
          change pc.Agrees after.context after.gauges
          rw [gauges, context]
          exact agrees
      | writeHeader | writeFrame | lock | register => exact Eq.trans agrees same.symm
      | _ => trivial
  | _ => trivial

theorem steps_agrees (steps : Steps memory false pc after next)
    (same : after.journal.version = memory.journal.version) (agrees : pc.Agrees memory) :
    next.Agrees after := by
  obtain ⟨gauges, context⟩ := steps_gauges steps same
  apply agrees_congr gauges context
  cases steps with
  | accept => exact startSnapshot_agrees
  | adminReads fd pc next read => exact formatStatsJson_agrees agrees read
  | adminPrints fd pc body printed => exact formatStatsJson_snapshot agrees printed
  | writeHeader | writeFrame | registerLock => exact agrees
  | _ => trivial

theorem steps_carries (steps : Steps memory false pc after next)
    (same : after.journal.visits = memory.journal.visits) (carries : pc.carries payload = true) :
    next.carries payload = true := by
  cases steps with
  | accept fd => simp [Memory.accept] at same
  | adminReads | adminPrints => cases carries
  | writeHeader | writeFrame | registerLock => exact carries
  | _ => rfl

omit [DecidableEq κ] in
/-- Outside the loop that sends a payload, the clients keep what they have, and a client
that registers has what its handler has written. -/
theorem steps_shown (steps : Steps memory false (points k) after next)
    (descriptors : Descriptors memory points) (quiet : (points k).sendsData = false)
    (joins : ∀ fd body, points k = .admin (.register fd body) → body = payload)
    (shown : Shown memory memory.clients payload) : Shown after after.clients payload := by
  generalize here : points k = pc at steps quiet joins
  have mine : ∀ {fd other}, pc.fd = some fd → other ∈ memory.clients → other ≠ fd := by
    rintro fd other has member rfl
    exact (descriptors.owned (here ▸ has)).2 member
  cases steps with
  | accept fd closed =>
      intro other member
      have different : other ≠ fd := by
        rintro rfl
        rw [descriptors.clients other member] at closed
        cases closed
      simpa [Memory.accept, different] using shown other member
  | writeHeader fd body =>
      intro other member
      simpa [Memory.write, mine rfl member] using shown other member
  | writeFrame fd body =>
      intro other member
      simpa [Memory.write, mine rfl member] using shown other member
  | register fd body room =>
      intro other member
      rcases List.mem_append.mp member with old | new
      · exact shown other old
      · rw [List.mem_singleton.mp new, ← joins fd body rfl]
        exact descriptors.told (j := k) (by rw [here]; rfl)
  | keep b since sent visits i n cfd found =>
      cases sent with
      | some text => cases quiet
      | none =>
          have aligned := descriptors.aligned k
          rw [here] at aligned
          obtain rfl : n = i := aligned
          intro other member
          have old : other ∈ memory.clients := by
            rwa [show (memory.keep cfd n (sentFrame none)).clients = memory.clients from
              set_self found] at member
          by_cases same : other = cfd
          · subst same
            simpa [Memory.keep, Memory.write, sentFrame] using shown other old
          · simpa [Memory.keep, Memory.write, same] using shown other old
  | drop b since sent visits i n cfd fails => cases fails
  | sendEnd =>
      intro other member
      exact shown other (List.mem_of_mem_take member)
  | closeAll => exact nofun
  | _ => exact shown

/-- The handlers under way keep agreeing with the gauges, or holding a payload, through the
step of any thread. -/
theorem all_agree (steps : Steps memory false (points k) after next)
    (same : after.journal.version = memory.journal.version)
    (agree : ∀ j, (points j).Agrees memory) (j : κ) :
    (Function.update points k next j).Agrees after := by
  by_cases here : j = k
  · subst here
    rw [Function.update_self]
    exact steps_agrees steps same (agree j)
  · obtain ⟨gauges, context⟩ := steps_gauges steps same
    rw [Function.update_of_ne here]
    exact agrees_congr gauges context (agree j)

theorem all_carry (steps : Steps memory false (points k) after next)
    (same : after.journal.visits = memory.journal.visits)
    (carried : ∀ j, (points j).carries payload = true) (j : κ) :
    (Function.update points k next j).carries payload = true := by
  by_cases here : j = k
  · subst here
    rw [Function.update_self]
    exact steps_carries steps same (carried j)
  · rw [Function.update_of_ne here]
    exact carried j

/-- Without a change of the gauges, up-to-date clients stay so. -/
theorem Current.step (current : Current memory points payload)
    (steps : Steps memory false (points k) after next) (descriptors : Descriptors memory points)
    (quiet : (points k).sendsData = false)
    (same : after.journal.version = memory.journal.version) :
    Current after (Function.update points k next) payload where
  snapshot := by
    obtain ⟨gauges, context⟩ := steps_gauges steps same
    rw [current.snapshot, snapshot_congr gauges context]
  shown := by
    refine steps_shown steps descriptors quiet (fun fd body register => ?_) current.shown
    have agrees := current.agree k
    rw [register] at agrees
    exact Eq.trans agrees current.snapshot.symm
  agree := all_agree steps same current.agree

/-- Without a new connection, clients that agree with the handlers stay so. -/
theorem Agreed.step (agreed : Agreed memory points payload)
    (steps : Steps memory false (points k) after next) (descriptors : Descriptors memory points)
    (quiet : (points k).sendsData = false) (same : after.journal.visits = memory.journal.visits) :
    Agreed after (Function.update points k next) payload where
  shown := by
    refine steps_shown steps descriptors quiet (fun fd body register => ?_) agreed.shown
    have carries := agreed.carried k
    rw [register] at carries
    exact of_decide_eq_true carries
  carried := all_carry steps same agreed.carried

end Frames

end ThreadPool.Server
