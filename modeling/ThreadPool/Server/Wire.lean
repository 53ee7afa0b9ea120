import ThreadPool.Foundation.Messages
import ThreadPool.Server.Admin
import ThreadPool.Server.Streams

namespace ThreadPool.Server

open Foundation Subscribers

/-! # Responses on the wire

`write_all` sends what the kernel takes at a time. A client that reads a head and the announced
number of bytes behind it gets every response of the two listeners back, and does not take
a response that was broken off for a whole one.
-/

/-- The bytes of a body. A byte of an image is a character, as those of a text are. -/
def Body.octets : Body → List Char
  | .text content => content
  | .image bmp => (List.range bmp.size).map fun i => Char.ofNat (bmp.cell i).toNat

/-- All that is to be sent. -/
def Response.wire (response : Response) : List Char := response.header ++ response.body.octets

namespace Wire

/-! ## Writing -/

/-- A call of `send`: it takes up to a number of bytes, is interrupted, or fails. -/
inductive SendOutcome where
  | takes (room : Nat)
  | interrupted
  | failed
deriving DecidableEq

/-- The outcome ends the loop. -/
def SendOutcome.stops : SendOutcome → Bool
  | .takes 0 => true
  | .failed => true
  | _ => false

/-- `write_all`: the bytes that were sent, whether it returned 0, and the outcomes of the later
calls. Without an outcome for its next call, `send` has not returned. -/
def writeAll : List Char → List SendOutcome → Option (List Char × Bool × List SendOutcome)
  | [], outcomes => some ([], true, outcomes)
  | _ :: _, [] => none
  | byte :: bytes, .interrupted :: later => writeAll (byte :: bytes) later
  | _ :: _, .failed :: later => some ([], false, later)
  | _ :: _, .takes 0 :: later => some ([], false, later)
  | byte :: bytes, .takes (room + 1) :: later => do
      let (sent, success, outcomes) ← writeAll (bytes.drop room) later
      return (byte :: bytes.take room ++ sent, success, outcomes)

/-- The outcomes of the calls that are not repeated. -/
def attempts (outcomes : List SendOutcome) : Nat := outcomes.countP (· ≠ .interrupted)

/-- Once a call has failed, every later one does. -/
def Final (outcomes : List SendOutcome) : Prop :=
  outcomes.Pairwise fun earlier later => earlier.stops = true → later.stops = true

/-- What a call leaves behind. -/
structure Written (bytes : List Char) (outcomes : List SendOutcome) (sent : List Char)
    (success : Bool) (later : List SendOutcome) : Prop where
  front : sent <+: bytes
  complete : success = true ↔ sent = bytes
  behind : later <:+ outcomes
  stopped : success = false → Final outcomes → ∀ outcome ∈ later, outcome.stops = true

theorem writeAll_written {bytes sent : List Char} {outcomes later : List SendOutcome} {success : Bool}
    (written : writeAll bytes outcomes = some (sent, success, later)) :
    Written bytes outcomes sent success later := by
  induction bytes, outcomes using writeAll.induct generalizing sent success later with
  | case1 outcomes =>
      rw [writeAll] at written
      cases written
      exact ⟨List.nil_prefix, by simp, List.suffix_rfl, by simp⟩
  | case2 byte bytes =>
      rw [writeAll] at written
      cases written
  | case3 byte bytes outcomes ih =>
      rw [writeAll] at written
      obtain ⟨front, complete, behind, stopped⟩ := ih written
      exact ⟨front, complete, behind.trans (List.suffix_cons _ _),
        fun fails final => stopped fails (List.pairwise_cons.mp final).2⟩
  | case4 byte bytes outcomes =>
      rw [writeAll] at written
      cases written
      exact ⟨List.nil_prefix, by simp, List.suffix_cons _ _,
        fun _ final outcome member => (List.pairwise_cons.mp final).1 outcome member rfl⟩
  | case5 byte bytes outcomes =>
      rw [writeAll] at written
      cases written
      exact ⟨List.nil_prefix, by simp, List.suffix_cons _ _,
        fun _ final outcome member => (List.pairwise_cons.mp final).1 outcome member rfl⟩
  | case6 byte bytes room outcomes ih =>
      rw [writeAll] at written
      obtain ⟨⟨rest, success, outcomes⟩, further, made⟩ := Option.bind_eq_some_iff.mp written
      cases made
      obtain ⟨front, complete, behind, stopped⟩ := ih further
      have whole : byte :: bytes = (byte :: bytes.take room) ++ bytes.drop room := by simp
      refine ⟨?_, ?_, behind.trans (List.suffix_cons _ _),
        fun fails final => stopped fails (List.pairwise_cons.mp final).2⟩
      · rw [whole]
        exact (List.prefix_append_right_inj _).mpr front
      · rw [complete, whole, List.append_right_inj]

/-- The loop ends: each call that is not interrupted takes a byte or is the last. -/
theorem writeAll_ends {bytes : List Char} {outcomes : List SendOutcome}
    (enough : bytes.length ≤ attempts outcomes) :
    ∃ sent success later, writeAll bytes outcomes = some (sent, success, later) ∧
      attempts outcomes ≤ bytes.length + attempts later := by
  induction bytes, outcomes using writeAll.induct with
  | case1 outcomes => exact ⟨_, _, _, by rw [writeAll], by simp⟩
  | case2 byte bytes => simp [attempts] at enough
  | case3 byte bytes outcomes ih =>
      have same : attempts (.interrupted :: outcomes) = attempts outcomes := by simp [attempts]
      rw [same] at enough ⊢
      rw [writeAll]
      exact ih enough
  | case4 byte bytes outcomes =>
      have counted : attempts (.failed :: outcomes) = attempts outcomes + 1 := by simp [attempts]
      exact ⟨_, _, _, by rw [writeAll], by rw [counted, List.length_cons]; omega⟩
  | case5 byte bytes outcomes =>
      have counted : attempts (.takes 0 :: outcomes) = attempts outcomes + 1 := by simp [attempts]
      exact ⟨_, _, _, by rw [writeAll], by rw [counted, List.length_cons]; omega⟩
  | case6 byte bytes room outcomes ih =>
      have counted : attempts (.takes (room + 1) :: outcomes) = attempts outcomes + 1 := by
        simp [attempts]
      rw [counted] at enough ⊢
      have shorter : (bytes.drop room).length ≤ bytes.length := by simp
      simp only [List.length_cons] at enough ⊢
      obtain ⟨sent, success, later, further, left⟩ := ih (by omega)
      exact ⟨_, _, _, by rw [writeAll, further]; rfl, by omega⟩

/-- Behind a failure nothing is sent any more. -/
theorem writeAll_stopped {bytes sent : List Char} {outcomes later : List SendOutcome} {success : Bool}
    (stopped : ∀ outcome ∈ outcomes, outcome.stops = true)
    (written : writeAll bytes outcomes = some (sent, success, later)) : sent = [] := by
  fun_cases writeAll bytes outcomes with
  | case1 => simp_all [writeAll]
  | case2 => simp_all [writeAll]
  | case3 => simp [SendOutcome.stops] at stopped
  | case4 => simp_all [writeAll]
  | case5 => simp_all [writeAll]
  | case6 => simp [SendOutcome.stops] at stopped

/-! ## Sending a response -/

section Responses

variable {response : Response} {outcomes : List SendOutcome} {delivered : List Char}

/-- The two writes of `send_status`, `send_typed` and `serve_render`. The second one follows
whatever the first returns. -/
def sendResponse (response : Response) (outcomes : List SendOutcome) : Option (List Char) := do
  let (header, _, outcomes) ← writeAll response.header outcomes
  let (body, _, _) ← writeAll response.body.octets outcomes
  return header ++ body

theorem sendResponse_front (final : Final outcomes)
    (sent : sendResponse response outcomes = some delivered) : delivered <+: response.wire := by
  obtain ⟨⟨header, success, later⟩, first, remaining⟩ := Option.bind_eq_some_iff.mp sent
  obtain ⟨⟨body, whole, last⟩, second, made⟩ := Option.bind_eq_some_iff.mp remaining
  cases made
  have head := writeAll_written first
  cases success with
  | true =>
      rw [head.complete.mp rfl]
      exact (List.prefix_append_right_inj _).mpr (writeAll_written second).front
  | false =>
      have nothing := writeAll_stopped (head.stopped rfl final) second
      simp only [nothing, List.append_nil]
      exact head.front.trans (List.prefix_append _ _)

theorem sendResponse_ends (enough : response.wire.length ≤ attempts outcomes) :
    ∃ delivered, sendResponse response outcomes = some delivered := by
  rw [Response.wire, List.length_append] at enough
  obtain ⟨header, success, later, first, left⟩ :=
    @writeAll_ends response.header outcomes (by omega)
  obtain ⟨body, whole, last, second, _⟩ := @writeAll_ends response.body.octets later (by omega)
  exact ⟨header ++ body, by rw [sendResponse, first]; simp [second]⟩

/-! ## Reading a response -/

/-- What a client makes of a response. -/
structure Reply where
  status : Nat
  type : List Char
  body : List Char
deriving DecidableEq

/-- The second word of a status line. -/
def statusCode (line : List Char) : Option Nat :=
  numeral ((line.dropWhile (· ≠ ' ')).tail.takeWhile (· ≠ ' '))

def readReply : Reader Char Reply := do
  let (head, body) ← readMessage
  let status ← liftM (statusCode head.start)
  let type ← liftM (head.value "Content-Type".toList)
  return { status, type, body }

theorem readReply_firm : Firm readReply :=
  readMessage_firm.bind fun _ => (Firm.lift _).bind fun _ => (Firm.lift _).bind fun _ => Firm.pure _

def httpVersion : List Char := "HTTP/1.0".toList

def statusLine (status : Nat) (reason : List Char) : List Char :=
  httpVersion ++ ' ' :: (decimal status ++ ' ' :: reason)

def replyHead (status : Nat) (reason type : List Char) (length : Nat) : Head where
  start := statusLine status reason
  fields := [("Content-Type".toList, type), ("Content-Length".toList, decimal length),
    ("Connection".toList, "close".toList)]

theorem decimal_avoids {value : Nat} {c : Char} (other : c.isDigit = false) : c ∉ decimal value := by
  intro member
  rw [decimal_isDigit member] at other
  contradiction

theorem statusCode_line (status : Nat) (reason : List Char) :
    statusCode (statusLine status reason) = some status := by
  have digits := ne_of_avoids (decimal_avoids (by decide) : ' ' ∉ decimal status)
  have version := ne_of_avoids (by decide : ' ' ∉ httpVersion)
  rw [statusCode, statusLine, List.dropWhile_append_of_pos version, List.dropWhile_cons_of_neg (by simp),
    List.tail_cons, List.takeWhile_append_of_pos digits, List.takeWhile_cons_of_neg (by simp),
    List.append_nil, numeral_decimal]

/-- The header announces the body and nothing else. -/
structure Formed (response : Response) (type : List Char) : Prop where
  header : ∃ reason, '\n' ∉ reason ∧ response.header =
    (replyHead response.status reason type response.body.octets.length).text
  type : '\n' ∉ type
  bytes : response.bytes = response.body.octets.length

theorem replyHead_plain {status length : Nat} {reason type : List Char} (plain : '\n' ∉ reason)
    (named : '\n' ∉ type) : (replyHead status reason type length).Plain where
  start := by
    have version : '\n' ∉ httpVersion := by decide
    have code : '\n' ∉ decimal status := decimal_avoids (by decide)
    simp only [replyHead, statusLine, List.mem_append, List.mem_cons, version, code, plain, or_false,
      false_or]
    decide
  fields := by
    have typeName : ':' ∉ "Content-Type".toList ∧ '\n' ∉ "Content-Type".toList := by decide
    have lengthName : ':' ∉ "Content-Length".toList ∧ '\n' ∉ "Content-Length".toList := by decide
    intro field member
    simp only [replyHead, List.mem_cons, List.not_mem_nil, or_false] at member
    rcases member with rfl | rfl | rfl
    · exact ⟨typeName, named⟩
    · exact ⟨lengthName, decimal_avoids (by decide)⟩
    · exact ⟨by decide, by decide⟩

theorem replyHead_length (status length : Nat) (reason type : List Char) :
    (replyHead status reason type length).contentLength = some length := by
  have other : "Content-Type".toList ≠ "Content-Length".toList := by decide
  have found : (replyHead status reason type length).value "Content-Length".toList =
      some (decimal length) := (Head.value_later other).trans Head.value_here
  rw [Head.contentLength, found]
  exact numeral_decimal length

theorem replyHead_type (status length : Nat) (reason type : List Char) :
    (replyHead status reason type length).value "Content-Type".toList = some type :=
  Head.value_here

theorem Formed.spells {type : List Char} (formed : Formed response type) :
    Spells readReply response.wire
      { status := response.status, type, body := response.body.octets } := by
  obtain ⟨reason, plain, header⟩ := formed.header
  rw [Response.wire, header]
  exact (readMessage_spells (replyHead_plain plain formed.type) (replyHead_length ..)).finish
    ((Spells.lift (statusCode_line ..)).finish
      ((Spells.lift (replyHead_type ..)).finish (Spells.pure _)))

/-! ## The responses of the server -/

/-- What `snprintf` prints for the header of `send_typed`, if there is room for it. -/
theorem replyHead_text (code length : Nat) (reason type : List Char) :
    "HTTP/1.0 ".toList ++ decimal code ++ [' '] ++ reason ++ "\r\nContent-Type: ".toList ++ type ++
      "\r\nContent-Length: ".toList ++ decimal length ++ headerEnd =
      (replyHead code reason type length).text := by
  have version : "HTTP/1.0 ".toList = httpVersion ++ [' '] := by decide
  have typeField : "\r\nContent-Type: ".toList = lineEnd ++ ("Content-Type".toList ++ [':', ' ']) := by
    decide
  have lengthField : "\r\nContent-Length: ".toList =
      lineEnd ++ ("Content-Length".toList ++ [':', ' ']) := by decide
  have ending : headerEnd = lineEnd ++ ("Connection".toList ++ ([':', ' '] ++ ("close".toList ++
      (lineEnd ++ lineEnd)))) := by decide
  rw [version, typeField, lengthField, ending]
  simp only [Head.text, replyHead, statusLine, Field.line, List.flatMap_cons, List.flatMap_nil,
    List.append_assoc, List.cons_append, List.nil_append]

theorem formed_typed {code : Nat} {reason type body : List Char} (status : code < 1000)
    (short : reason.length ≤ 100) (named : type.length ≤ 100) (sized : body.length < 10 ^ 8)
    (plain : '\n' ∉ reason) (line : '\n' ∉ type) : Formed (sendTyped code reason type body) type := by
  have code3 : (decimal code).length ≤ 3 := decimal_length_le (by decide) status
  have digits : (decimal body.length).length ≤ 8 := decimal_length_le (by decide) sized
  have room : ("HTTP/1.0 ".toList ++ decimal code ++ [' '] ++ reason ++
      "\r\nContent-Type: ".toList ++ type ++ "\r\nContent-Length: ".toList ++ decimal body.length ++
      headerEnd).length < 512 := by
    have version : "HTTP/1.0 ".toList.length = 9 := by decide
    have typeField : "\r\nContent-Type: ".toList.length = 16 := by decide
    have lengthField : "\r\nContent-Length: ".toList.length = 18 := by decide
    have ending : headerEnd.length = 23 := by decide
    simp only [List.length_append, version, typeField, lengthField, ending, List.length_cons,
      List.length_nil]
    omega
  exact ⟨⟨reason, plain, by rw [sendTyped, cut_eq_self room, replyHead_text]; rfl⟩, line, rfl⟩

theorem sendStatus_typed (code : Nat) (reason body : List Char) :
    sendStatus code reason body = sendTyped code reason "text/plain".toList body := by
  have field : "\r\nContent-Type: text/plain\r\nContent-Length: ".toList =
      "\r\nContent-Type: ".toList ++ "text/plain".toList ++ "\r\nContent-Length: ".toList := by
    decide
  rw [sendStatus, sendTyped, field]
  simp only [List.append_assoc]

theorem formed_status {code : Nat} {reason body : List Char} (status : code < 1000)
    (short : reason.length ≤ 100) (sized : body.length < 10 ^ 8) (plain : '\n' ∉ reason) :
    Formed (sendStatus code reason body) "text/plain".toList := by
  rw [sendStatus_typed]
  exact formed_typed status short (by decide) sized plain (by decide)

theorem formed_image {bmp : Buffer UInt8} (small : bmp.size < 10 ^ 8) :
    Formed { status := 200, bytes := bmp.size, header := cut 256 (imageHeader bmp.size),
             body := .image bmp } "image/bmp".toList := by
  have length : (Body.image bmp).octets.length = bmp.size := by simp [Body.octets]
  have front : headerFront = "HTTP/1.0 ".toList ++ decimal 200 ++ [' '] ++ "OK".toList ++
      "\r\nContent-Type: ".toList ++ "image/bmp".toList ++ "\r\nContent-Length: ".toList := by decide
  refine ⟨⟨"OK".toList, by decide, ?_⟩, by decide, length.symm⟩
  rw [imageHeader_fits small, imageHeader, front, length, replyHead_text]

/-- The type of a body of `handle_connection`. -/
def bodyType : Body → List Char
  | .text _ => "text/plain".toList
  | .image _ => "image/bmp".toList

section Requests

variable {iterations : Nat → Nat → Int} {allocated : Bool} {received query method target : List Char}
  {handled : Handled}

theorem serveRender_formed (served : serveRender iterations query allocated = some response) :
    Formed response (bodyType response.body) := by
  cases allocated with
  | false =>
      have failed : Mandelbrot.mandelbrotBmp iterations (renderWidth query) (renderHeight query)
          (renderIter query) false = some .failed := by
        simp only [Mandelbrot.mandelbrotBmp, Bool.false_eq_true, if_false, ite_self]
      rw [serveRender, failed] at served
      cases served
      exact formed_status (by decide) (by decide) (by decide) (by decide)
  | true =>
      have columns := renderWidth_bounds query
      have rows := renderHeight_bounds query
      obtain ⟨bmp, rendered, contents⟩ := query_rendered query iterations
      have small : bmp.size < 10 ^ 8 := by
        rw [contents.size, Mandelbrot.totalBytes_eq (by omega) (by omega)]
        exact image_size_lt (by omega) (by omega)
      rw [serveRender, rendered] at served
      cases served
      exact formed_image small

theorem dispatch_formed (answered : dispatch iterations allocated method target = some handled) :
    Formed handled.response (bodyType handled.response.body) := by
  rw [dispatch] at answered
  split at answered
  · cases answered
    exact formed_status (by decide) (by decide) (by decide) (by decide)
  · dsimp only at answered
    split at answered
    · obtain ⟨response, served, made⟩ := Option.bind_eq_some_iff.mp answered
      cases made
      exact serveRender_formed served
    · cases answered
      exact formed_status (by decide) (by decide) (by decide) (by decide)

theorem handleRequest_formed (answered : handleRequest iterations allocated received = some handled) :
    Formed handled.response (bodyType handled.response.body) := by
  have refused : ∀ method, Formed (badRequest method).response
      (bodyType (badRequest method).response.body) := fun _ =>
    formed_status (by decide) (by decide) (by decide) (by decide)
  rw [handleRequest] at answered
  split at answered
  · cases answered
    exact refused _
  · split at answered
    · cases answered
      exact refused _
    · exact dispatch_formed answered

/-- The type of a body of `handle_admin_connection`. -/
def routeType : AdminRoute → List Char
  | .stats => "application/json".toList
  | _ => "text/plain".toList

theorem closeWith_response {answer : AdminAnswer} {clients after : SseClients} {fd : Handle}
    (closed : closeWith answer clients fd = some (.response response, after)) :
    answer = .response response := by
  obtain ⟨descriptors, _, made⟩ := Option.bind_eq_some_iff.mp closed
  cases made
  rfl

theorem adminLogs_length {ring : LogRing} {logs : Buffer Char} {body : List Char}
    (size : logs.size = adminLogsLen) (copied : adminLogs ring logs = some body) :
    body.length < 10 ^ 8 := by
  obtain ⟨after, read, kept, _⟩ := @logRingCopy_spec ring logs adminLogsLen (Nat.le_add_left ..) size.ge
  rw [adminLogs, read] at copied
  cases copied
  have bound : (cString after).length ≤ after.size := by
    refine (List.takeWhile_prefix _).length_le.trans ?_
    simp
  have room : adminLogsLen = 65537 := rfl
  omega

theorem subscribe_events {inputs : AdminInputs} {clients after : SseClients} {fd : Handle} :
    subscribe inputs clients fd ≠ some (.response response, after) := by
  intro answered
  obtain ⟨descriptors, _, remaining⟩ := Option.bind_eq_some_iff.mp answered
  split at remaining
  · cases closeWith_response remaining
  · obtain ⟨written, _, rest⟩ := Option.bind_eq_some_iff.mp remaining
    split at rest
    · cases closeWith_response rest
    · obtain ⟨⟨rc, registered⟩, _, ending⟩ := Option.bind_eq_some_iff.mp rest
      dsimp only at ending
      split at ending
      · cases closeWith_response ending
      · cases ending

theorem handleAdminConnection_formed {inputs : AdminInputs} {clients after : SseClients} {fd : Handle}
    (answered : handleAdminConnection inputs clients fd received = some (.response response, after)) :
    Formed response (routeType (adminRoute received)) := by
  rw [handleAdminConnection] at answered
  split at answered
  · cases closeWith_response answered
  cases route : adminRoute received with
  | badRequest =>
      rw [route] at answered
      cases closeWith_response answered
      exact formed_status (by decide) (by decide) (by decide) (by decide)
  | methodNotAllowed =>
      rw [route] at answered
      cases closeWith_response answered
      exact formed_status (by decide) (by decide) (by decide) (by decide)
  | notFound =>
      rw [route] at answered
      cases closeWith_response answered
      exact formed_status (by decide) (by decide) (by decide) (by decide)
  | events =>
      rw [route] at answered
      exact absurd answered subscribe_events
  | stats =>
      rw [route] at answered
      cases closeWith_response answered
      have short : (cut statsJsonMax inputs.stats.toList).length < 10 ^ 8 := by
        simp [cut, statsJsonMax]
      exact formed_typed (by decide) (by decide) (by decide) short (by decide) (by decide)
  | logs =>
      rw [route] at answered
      obtain ⟨body, copied, closed⟩ := Option.bind_eq_some_iff.mp answered
      cases closeWith_response closed
      exact formed_typed (by decide) (by decide) (by decide) (adminLogs_length inputs.logs_size copied)
        (by decide) (by decide)

end Requests

/-- A response of one of the two listeners, and the type that its header gives. -/
inductive Answered : Response → List Char → Prop where
  | render {iterations : Nat → Nat → Int} {allocated : Bool} {received : List Char} {handled : Handled}
      (answered : handleRequest iterations allocated received = some handled) :
      Answered handled.response (bodyType handled.response.body)
  | admin {inputs : AdminInputs} {clients after : SseClients} {fd : Handle} {received : List Char}
      {response : Response}
      (answered : handleAdminConnection inputs clients fd received = some (.response response, after)) :
      Answered response (routeType (adminRoute received))

theorem Answered.formed {type : List Char} (answered : Answered response type) :
    Formed response type := by
  cases answered with
  | render answered => exact handleRequest_formed answered
  | admin answered => exact handleAdminConnection_formed answered

/-- However the kernel splits and ends the transfer, a client that has the whole response reads
its status, type and body, and one that has less reads nothing. -/
theorem responses_read_back {type : List Char} (answered : Answered response type)
    (final : Final outcomes) :
    (response.wire.length ≤ attempts outcomes → (sendResponse response outcomes).isSome) ∧
      ∀ delivered, sendResponse response outcomes = some delivered →
        delivered <+: response.wire ∧
        readReply delivered = if delivered = response.wire then
          some ({ status := response.status, type, body := response.body.octets }, [])
        else none := by
  have spells := answered.formed.spells
  refine ⟨fun enough => ?_, fun delivered sent => ?_⟩
  · obtain ⟨delivered, sent⟩ := sendResponse_ends enough
    rw [sent]
    rfl
  · have front := sendResponse_front final sent
    refine ⟨front, ?_⟩
    split
    case isTrue whole =>
      rw [whole]
      exact spells.whole
    case isFalse part => exact readReply_firm.truncated spells front part

/-- A connection that breaks after ten bytes of a refusal. -/
theorem responses_read_back_broken :
    ∃ handled, handleRequest (fun _ _ => 0) true "PUT /".toList = some handled ∧
      sendResponse handled.response [.takes 7, .interrupted, .takes 3, .failed, .failed] =
        some "HTTP/1.0 4".toList ∧
      readReply "HTTP/1.0 4".toList = none := by
  obtain ⟨handled, answered⟩ := handleRequest_defined (fun _ _ => 0) true "PUT /".toList
  have refused : handled.response =
      sendStatus 405 "Method Not Allowed".toList "method not allowed\n".toList := by
    have spelled : handleRequest (fun _ _ => 0) true "PUT /".toList = some {
        method := "PUT".toList
        path := "/".toList
        query := []
        response := sendStatus 405 "Method Not Allowed".toList "method not allowed\n".toList
        rendered := false } := rfl
    rw [spelled] at answered
    cases answered
    rfl
  have sent : sendResponse handled.response [.takes 7, .interrupted, .takes 3, .failed, .failed] =
      some "HTTP/1.0 4".toList := by
    rw [refused]
    decide +kernel
  have short : "HTTP/1.0 4".toList ≠ handled.response.wire := by
    rw [refused]
    decide +kernel
  have final : Final [.takes 7, .interrupted, .takes 3, .failed, .failed] := by
    simp [Final, SendOutcome.stops]
  have read := ((responses_read_back (.render answered) final).2 _ sent).2
  rw [if_neg short] at read
  exact ⟨handled, answered, sent, read⟩

/-! ## The stats -/

theorem toString_short {value : Int} (low : -2147483648 ≤ value) (high : value < 2147483648) :
    (toString value).toList.length ≤ 11 := by
  cases value with
  | ofNat value =>
      rw [Int.ofNat_eq_natCast] at high ⊢
      rw [toString_nonneg]
      have digits : (decimal value).length ≤ 10 := decimal_length_le (by decide) (by omega)
      omega
  | negSucc value =>
      rw [toString_negSucc, List.length_cons]
      have digits : (decimal (value + 1)).length ≤ 10 := decimal_length_le (by decide) (by omega)
      omega

theorem toString_digits {value digits : Nat} (positive : 0 < digits) (bound : value < 10 ^ digits) :
    (toString value).toList.length ≤ digits := by
  rw [← toString_cast, toString_nonneg]
  exact decimal_length_le positive bound

/-- The numbers are of the types that `format_stats_json` prints. -/
structure Printable (workers : Int) (busy depth active served : Nat) : Prop where
  workers : -2147483648 ≤ workers ∧ workers < 2147483648
  busy : busy < 65536
  depth : depth < 18446744073709551616
  active : active < 4294967296
  served : served < 18446744073709551616

variable {workers : Int} {busy depth active served : Nat}

/-- What `format_stats_json` prints fits into its buffer. -/
theorem statsJson_fits (printable : Printable workers busy depth active served) :
    cut statsJsonMax (statsJson workers busy depth active served).toList =
      (statsJson workers busy depth active served).toList := by
  obtain ⟨⟨low, high⟩, capacity, queued, connections, total⟩ := printable
  have workersShort := toString_short low high
  have busyShort : (toString busy).toList.length ≤ 5 := toString_digits (by decide) (by omega)
  have depthShort : (toString depth).toList.length ≤ 20 := toString_digits (by decide) (by omega)
  have activeShort : (toString active).toList.length ≤ 10 := toString_digits (by decide) (by omega)
  have servedShort : (toString served).toList.length ≤ 20 := toString_digits (by decide) (by omega)
  have names : "workers".toList.length = 7 ∧ "busy".toList.length = 4 ∧
      "queue_depth".toList.length = 11 ∧ "active_connections".toList.length = 18 ∧
      "total_served".toList.length = 12 := by decide
  obtain ⟨first, second, third, fourth, fifth⟩ := names
  refine cut_eq_self ?_
  rw [statsJson_text, statsJsonMax]
  simp only [recordText, Member.text, toString_cast, List.flatMap_cons, List.flatMap_nil,
    List.length_append, List.length_cons, List.length_nil, first, second, third, fourth, fifth]
  omega

/-- `GET /admin/stats` is answered with the numbers that were read, whatever they are. -/
theorem stats_read_back {events : List Subscribers.Event} {clients : SseClients} {fd : Handle}
    {inputs : AdminInputs} {received : List Char} (holding : Holding events clients fd)
    (nonempty : received ≠ []) (route : adminRoute received = .stats)
    (printable : Printable workers busy depth active served)
    (printed : inputs.stats = statsJson workers busy depth active served) :
    ∃ response after reply,
      handleAdminConnection inputs clients fd received = some (.response response, after) ∧
      readReply response.wire = some (reply, []) ∧ reply.status = 200 ∧
      reply.type = "application/json".toList ∧
      readStats reply.body = some (statsMembers workers busy depth active served) := by
  have closed : close clients.descriptors fd = some (clients.descriptors.release fd) :=
    if_pos holding.owns
  have answered : handleAdminConnection inputs clients fd received = some
      (.response (sendTyped 200 "OK".toList "application/json".toList
        (cut statsJsonMax inputs.stats.toList)),
      { clients with descriptors := clients.descriptors.release fd }) := by
    rw [handleAdminConnection, if_neg nonempty, route]
    simp only [closeWith, closed]
    rfl
  have spells := (handleAdminConnection_formed answered).spells
  rw [route] at spells
  refine ⟨_, _, _, answered, spells.whole, rfl, rfl, ?_⟩
  show readStats (cut statsJsonMax inputs.stats.toList) = _
  rw [printed, statsJson_fits printable, readStats_statsJson]

/-- The largest numbers there are. -/
theorem stats_read_back_full : ∃ events clients fd, Holding events clients fd ∧
    ∀ inputs : AdminInputs, inputs.stats = statsJson (-2147483648) 65535 18446744073709551615 4294967295
        18446744073709551615 →
      ∃ response after reply, handleAdminConnection inputs clients fd "GET /admin/stats ".toList =
          some (.response response, after) ∧
        readReply response.wire = some (reply, []) ∧
        readStats reply.body = some (statsMembers (-2147483648) 65535 18446744073709551615 4294967295
          18446744073709551615) := by
  have free : SseClients.start.descriptors.slots 5 = none := rfl
  obtain ⟨fd, _, _, holding⟩ := holding_accept .start free
  have nonempty : "GET /admin/stats ".toList ≠ [] := by decide
  have route : adminRoute "GET /admin/stats ".toList = .stats := by decide +kernel
  refine ⟨_, _, fd, holding, fun inputs printed => ?_⟩
  obtain ⟨response, after, reply, answered, read, _, _, stats⟩ :=
    stats_read_back holding nonempty route ⟨by decide, by decide, by decide, by decide, by decide⟩ printed
  exact ⟨response, after, reply, answered, read, stats⟩

end Responses

end Wire

end ThreadPool.Server
