import ThreadPool.Server.RequestLog
import ThreadPool.Server.Subscribers

namespace ThreadPool.Server

open Foundation Subscribers

/-! # The admin listener

`handle_admin_connection` with all its answers. It scans the request line as
`handle_connection` does, closes the connection or hands it over to the table of
subscribers, and never does both.
-/

def statsJsonMax : Nat := 256

def sendTyped (code : Nat) (reason type body : List Char) : Response :=
  { status := code
    bytes := body.length
    header := cut 512 ("HTTP/1.0 ".toList ++ decimal code ++ [' '] ++ reason ++
      "\r\nContent-Type: ".toList ++ type ++ "\r\nContent-Length: ".toList ++ decimal body.length ++
      headerEnd)
    body := .text body }

/-- What the handler reads of the rest of the server, and the outcomes of its two writes to a
new subscriber. `logs` is its uninitialised buffer for the log. -/
structure AdminInputs where
  stats : String
  ring : LogRing
  logs : Buffer Char
  logs_size : logs.size = adminLogsLen
  headerSent : Bool
  frameSent : Bool

/-- How a connection ends: nothing was received, a response was sent, or the stream of events
was begun and `registered` says whether the table has taken the descriptor over. -/
inductive AdminAnswer where
  | hangUp
  | response (response : Response)
  | events (registered : Bool)

def AdminAnswer.status : AdminAnswer → Option Nat
  | .hangUp => none
  | .response sent => some sent.status
  | .events _ => some 200

inductive AdminRoute where
  | badRequest
  | methodNotAllowed
  | stats
  | events
  | logs
  | notFound
deriving DecidableEq

/-- The comparisons of `method` and `path`. -/
def adminDispatch (method path : List Char) : AdminRoute :=
  if method ≠ "GET".toList then .methodNotAllowed
  else if path = "/admin/stats".toList then .stats
  else if path = "/admin/events".toList then .events
  else if path = "/admin/logs".toList then .logs
  else .notFound

/-- The request line, up to the answer. -/
def adminRoute (received : List Char) : AdminRoute :=
  match requestLine received with
  | none => .badRequest
  | some (method, target) => adminDispatch method (cut pathMax (splitTarget target).1)

def closeWith (answer : AdminAnswer) (clients : SseClients) (fd : Handle) :
    Option (AdminAnswer × SseClients) := do
  let descriptors ← close clients.descriptors fd
  return (answer, { clients with descriptors })

/-- `GET /admin/events`. -/
def subscribe (inputs : AdminInputs) (clients : SseClients) (fd : Handle) :
    Option (AdminAnswer × SseClients) := do
  let body := String.ofList (cut statsJsonMax inputs.stats.toList)
  let descriptors ← writeAll clients.descriptors fd .header inputs.headerSent
  if !inputs.headerSent then closeWith (.events false) { clients with descriptors } fd
  else
    let descriptors ← writeAll descriptors fd (.data body) inputs.frameSent
    if !inputs.frameSent then closeWith (.events false) { clients with descriptors } fd
    else
      let (rc, clients) ← sseRegister { clients with descriptors } fd
      if rc ≠ 0 then closeWith (.events false) clients fd
      else return (.events true, clients)

/-- An empty `received` is a `recv` that returns 0 or fails. -/
def handleAdminConnection (inputs : AdminInputs) (clients : SseClients) (fd : Handle)
    (received : List Char) : Option (AdminAnswer × SseClients) :=
  if received = [] then closeWith .hangUp clients fd
  else match adminRoute received with
  | .badRequest => closeWith
      (.response (sendStatus 400 "Bad Request".toList "bad request\n".toList)) clients fd
  | .methodNotAllowed => closeWith
      (.response (sendStatus 405 "Method Not Allowed".toList "method not allowed\n".toList)) clients fd
  | .stats => closeWith
      (.response (sendTyped 200 "OK".toList "application/json".toList
        (cut statsJsonMax inputs.stats.toList))) clients fd
  | .events => subscribe inputs clients fd
  | .logs => do
      let body ← adminLogs inputs.ring inputs.logs
      closeWith (.response (sendTyped 200 "OK".toList "text/plain".toList body)) clients fd
  | .notFound => closeWith
      (.response (sendStatus 404 "Not Found".toList "not found\n".toList)) clients fd

/-! ## Ownership

A handler makes calls on the table and on its own connection only, so that every run of
handlers and broadcasts is a run of the table.
-/

section Ownership

variable {events : List Subscribers.Event} {clients : SseClients} {fd : Handle} {inputs : AdminInputs}

/-- A caller has an open descriptor that is not in the table. -/
structure Holding (events : List Subscribers.Event) (clients : SseClients) (fd : Handle) : Prop where
  run : Run events clients
  owns : clients.descriptors.Owns fd
  outside : fd ∉ clients.table

/-- What a handler leaves behind: its connection is with the table or closed. -/
def Settles (events : List Subscribers.Event) (fd : Handle) (status : Option Nat)
    (result : Option (AdminAnswer × SseClients)) : Prop :=
  ∃ answer after more, result = some (answer, after) ∧ answer.status = status ∧
    Run (events ++ more) after ∧ (fd ∈ after.table ∨ fd.origin ∈ after.descriptors.released)

/-- The calls before a settled end belong to the run. -/
theorem Settles.prepend {first : List Subscribers.Event} {status : Option Nat}
    {result : Option (AdminAnswer × SseClients)}
    (settles : Settles (events ++ first) fd status result) : Settles events fd status result := by
  obtain ⟨answer, after, more, done, answered, run, place⟩ := settles
  exact ⟨answer, after, first ++ more, done, answered, by rwa [← List.append_assoc], place⟩

/-- A connection that has been accepted is with its handler. -/
theorem holding_accept {slot : Nat} (run : Run events clients)
    (free : clients.descriptors.slots slot = none) :
    ∃ fd descriptors, clients.descriptors.acquire slot [] = some (fd, descriptors) ∧
      Holding (events ++ [(.accept slot, .done)]) { clients with descriptors } fd := by
  obtain ⟨⟨others, owned⟩, _⟩ := run_owned run
  obtain ⟨fd, descriptors, acquired⟩ := Store.acquire_free free []
  have exact := owned.exact.acquire acquired
  refine ⟨fd, descriptors, acquired, run.step free (by rw [exec, acquired]; rfl), ?_, ?_⟩
  · exact exact.owns_iff.mpr (Multiset.mem_cons_self ..)
  · intro member
    obtain ⟨_, rfl, _⟩ := Store.acquire_some acquired
    exact owned.exact.slot_ne free (Multiset.mem_add.mpr (.inl member)) rfl

theorem Holding.write (holding : Holding events clients fd) (frame : Frame) (success : Bool) :
    ∃ descriptors, writeAll clients.descriptors fd frame success = some descriptors ∧
      Holding (events ++ [(.write fd frame success, .done)]) { clients with descriptors } fd := by
  obtain ⟨⟨others, owned⟩, _⟩ := run_owned holding.run
  obtain ⟨descriptors, written, exact, _⟩ := writeAll_spec owned.exact holding.owns frame success
  refine ⟨descriptors, written, ?_, ?_, holding.outside⟩
  · exact holding.run.step ⟨holding.owns, holding.outside⟩ (by rw [exec, written]; rfl)
  · exact exact.owns_iff.mpr (owned.exact.owns_iff.mp holding.owns)

theorem Holding.closeWith (holding : Holding events clients fd) (answer : AdminAnswer) :
    Settles events fd answer.status (closeWith answer clients fd) := by
  have closed : close clients.descriptors fd = some (clients.descriptors.release fd) :=
    if_pos holding.owns
  refine ⟨answer, { clients with descriptors := clients.descriptors.release fd },
    [(.close fd, .done)], by rw [Server.closeWith, closed]; rfl, rfl, ?_, .inr List.mem_cons_self⟩
  exact holding.run.step ⟨holding.owns, holding.outside⟩ (by rw [exec, closed]; rfl)

/-- A registration takes the descriptor over or changes nothing. -/
theorem Holding.register (holding : Holding events clients fd) :
    ∃ rc after, sseRegister clients fd = some (rc, after) ∧
      Run (events ++ [(.register fd, .registered rc)]) after ∧
      ((rc = 0 ∧ fd ∈ after.table) ∨ (rc ≠ 0 ∧ after = clients)) := by
  obtain ⟨⟨others, owned⟩, _⟩ := run_owned holding.run
  obtain ⟨rest, rfl⟩ := owned.caller ⟨holding.owns, holding.outside⟩
  obtain ⟨rc, after, registered, passes⟩ := register_passes owned
  refine ⟨rc, after, registered, ?_, ?_⟩
  · exact holding.run.step ⟨holding.owns, holding.outside⟩ (by rw [exec, registered]; rfl)
  · rw [sseRegister] at registered
    split at registered
    · obtain ⟨fds, _, made⟩ := Option.bind_eq_some_iff.mp registered
      cases made
      exact .inl ⟨rfl, passes.handed fd rfl⟩
    · cases registered
      exact .inr ⟨by decide, rfl⟩

theorem Holding.subscribe (holding : Holding events clients fd) (inputs : AdminInputs) :
    Settles events fd (some 200) (subscribe inputs clients fd) := by
  obtain ⟨_, header, holding⟩ := holding.write .header inputs.headerSent
  rw [Server.subscribe, header, Option.bind_eq_bind, Option.bind_some]
  apply Settles.prepend
  split
  · exact holding.closeWith (.events false)
  · obtain ⟨_, frame, holding⟩ :=
      holding.write (.data (String.ofList (cut statsJsonMax inputs.stats.toList))) inputs.frameSent
    rw [frame, Option.bind_eq_bind, Option.bind_some]
    apply Settles.prepend
    split
    · exact holding.closeWith (.events false)
    · obtain ⟨rc, after, registered, run, ⟨rfl, member⟩ | ⟨full, rfl⟩⟩ := holding.register
      · rw [registered]
        exact ⟨.events true, after, _, rfl, rfl, run, .inl member⟩
      · rw [registered, Option.bind_some]
        simp only [ne_eq, full, not_false_iff, if_true]
        exact Settles.prepend (Holding.closeWith ⟨run, holding.owns, holding.outside⟩ (.events false))

def AdminRoute.status : AdminRoute → Nat
  | .badRequest => 400
  | .methodNotAllowed => 405
  | .notFound => 404
  | _ => 200

/-- The handler answers by its route, whatever its writes do. -/
theorem handler_settles (holding : Holding events clients fd) (inputs : AdminInputs)
    (received : List Char) (nonempty : received ≠ []) :
    Settles events fd (some (adminRoute received).status)
      (handleAdminConnection inputs clients fd received) := by
  rw [handleAdminConnection, if_neg nonempty]
  cases adminRoute received with
  | events => exact holding.subscribe inputs
  | logs =>
      obtain ⟨after, copied, _⟩ := @logRingCopy_spec inputs.ring inputs.logs adminLogsLen
        (Nat.le_add_left ..) inputs.logs_size.ge
      simp only [adminLogs, copied]
      exact holding.closeWith _
  | _ => exact holding.closeWith _

end Ownership

/-! ## Classification -/

section Classification

variable {received : List Char}

def adminPaths : List (List Char) :=
  ["/admin/stats".toList, "/admin/events".toList, "/admin/logs".toList]

theorem adminDispatch_status (method path : List Char) :
    (adminDispatch method path).status ≠ 400 ∧
      ((adminDispatch method path).status = 405 ↔ method ≠ "GET".toList) ∧
      (method = "GET".toList → ((adminDispatch method path).status = 404 ↔ path ∉ adminPaths)) := by
  unfold adminDispatch adminPaths
  split_ifs <;> simp_all [AdminRoute.status]

theorem adminRoute_byLine (received : List Char) :
    ByLine adminPaths received (adminRoute received).status := by
  constructor
  · intro incomplete
    rw [adminRoute, incomplete]
    rfl
  · intro word path complete
    have path : cut pathMax (splitTarget path).1 ∈ adminPaths ↔ (splitTarget path).1 ∈ adminPaths :=
      take_mem_iff (by decide)
    rw [adminRoute, complete, ← path]
    exact adminDispatch_status word _

/-- Both handlers answer 400, 405 and 404 by the tokens of the request, exactly where it has not
one token alone that is longer than the method that the scan reads. -/
theorem requests_classified (received : List Char) (nonempty : received ≠ [])
    (noNul : nul ∉ received) :
    (∀ iterations allocated, ∃ handled,
      handleRequest iterations allocated received = some handled ∧
        (Classified ["/render".toList] received handled.response.status ↔
          LoneTokenShort received)) ∧
    ∀ events clients fd inputs, Holding events clients fd → ∃ answer after status,
      handleAdminConnection inputs clients fd received = some (answer, after) ∧
        answer.status = some status ∧
        (Classified adminPaths received status ↔ LoneTokenShort received) := by
  refine ⟨fun iterations allocated => ?_, fun events clients fd inputs holding => ?_⟩
  · obtain ⟨handled, answered, line⟩ := handleRequest_byLine iterations allocated received
    exact ⟨handled, answered, line.classified_iff noNul (by decide)⟩
  · obtain ⟨answer, after, _, handled, status, _⟩ :=
      handler_settles holding inputs received nonempty
    exact ⟨answer, after, _, handled, status,
      (adminRoute_byLine received).classified_iff noNul (by decide)⟩

theorem requests_classified_render :
    (∀ iterations allocated, ∃ handled,
      handleRequest iterations allocated "GET /render HTTP/1.0\r\n".toList = some handled ∧
        Classified ["/render".toList] "GET /render HTTP/1.0\r\n".toList handled.response.status) ∧
    ∃ events clients fd, Holding events clients fd ∧ ∀ inputs, ∃ answer after status,
      handleAdminConnection inputs clients fd "GET /render HTTP/1.0\r\n".toList =
          some (answer, after) ∧
        answer.status = some status ∧
        Classified adminPaths "GET /render HTTP/1.0\r\n".toList status := by
  have short : LoneTokenShort "GET /render HTTP/1.0\r\n".toList := by
    intro token one
    have three : (tokens "GET /render HTTP/1.0\r\n".toList).length = 3 := by decide +kernel
    rw [one] at three
    cases three
  obtain ⟨render, admin⟩ :=
    requests_classified "GET /render HTTP/1.0\r\n".toList (by decide) (by decide)
  have free : SseClients.start.descriptors.slots 5 = none := rfl
  obtain ⟨fd, _, _, holding⟩ := holding_accept .start free
  refine ⟨fun iterations allocated => ?_, _, _, fd, holding, fun inputs => ?_⟩
  · obtain ⟨handled, answered, classified⟩ := render iterations allocated
    exact ⟨handled, answered, classified.mpr short⟩
  · obtain ⟨answer, after, status, handled, answered, classified⟩ := admin _ _ fd inputs holding
    exact ⟨answer, after, status, handled, answered, classified.mpr short⟩

/-- A request with one token of sixteen characters: its last character is read as the target, and
the answer is 405 instead of 400. -/
theorem long_token_misread :
    (tokens "GET/render?w=640\r\n".toList).length < 2 ∧
    (∀ iterations allocated, ∃ handled,
      handleRequest iterations allocated "GET/render?w=640\r\n".toList = some handled ∧
        handled.response.status = 405) ∧
    ∀ events clients fd inputs, Holding events clients fd → ∃ answer after,
      handleAdminConnection inputs clients fd "GET/render?w=640\r\n".toList =
          some (answer, after) ∧
        answer.status = some 405 := by
  have line : requestLine "GET/render?w=640\r\n".toList = some ("GET/render?w=64".toList, ['0']) := by
    decide +kernel
  refine ⟨by decide +kernel, fun iterations allocated => ?_, fun events clients fd inputs holding => ?_⟩
  · exact ⟨_, (handleRequest_some line iterations allocated).trans (if_pos (by decide)), rfl⟩
  · have route : adminRoute "GET/render?w=640\r\n".toList = .methodNotAllowed := by
      rw [adminRoute, line]
      exact if_pos (by decide)
    obtain ⟨answer, after, _, handled, status, _⟩ :=
      handler_settles holding inputs "GET/render?w=640\r\n".toList (by decide)
    rw [route] at status
    exact ⟨answer, after, handled, status⟩

end Classification

end ThreadPool.Server
