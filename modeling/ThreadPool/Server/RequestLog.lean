import ThreadPool.Server.Request

namespace ThreadPool.Server

open Foundation

/-! # One line per request

`log_request` prints an entry with a newline into a line buffer and appends it
to the log. The text of `/admin/logs` has one line per request exactly where
every entry but the newest fits the buffer together with its newline.
-/

/-- `%.3f` of a number of bytes in units of 2²⁰: the quotient is exact in a `double`, and its
thousandths are rounded to the nearest, ties to even. -/
def megabytes (bytes : Nat) : List Char :=
  let whole := bytes * 1000 / 1048576
  let part := bytes * 1000 % 1048576
  let thousandths := if part > 524288 ∨ (part = 524288 ∧ whole % 2 = 1) then whole + 1 else whole
  decimal (thousandths / 1000) ++ ['.'] ++
    [Nat.digitChar (thousandths / 100 % 10), Nat.digitChar (thousandths / 10 % 10),
      Nat.digitChar (thousandths % 10)]

/-- `%-21s`. -/
def padRight (width : Nat) (text : List Char) : List Char :=
  text ++ List.replicate (width - text.length) ' '

/-- The texts of an entry that do not come from the request: the time of day, the address of the
client and the duration. -/
structure Stamps where
  ts : List Char
  peer : List Char
  ms : List Char
  ts_plain : Plain ts
  peer_plain : Plain peer
  ms_plain : Plain ms

/-- The text that `log_request` prints, up to its newline. -/
def logEntry (stamps : Stamps) (handled : Handled) : List Char :=
  ['['] ++ stamps.ts ++ [']', ' '] ++ padRight 21 stamps.peer ++ [' '] ++ handled.method ++ [' '] ++
    handled.path ++ (if handled.query = [] then [] else ['?'] ++ handled.query) ++
    [' ', '-', '>', ' '] ++ decimal handled.response.status ++ [' '] ++
    megabytes handled.response.bytes ++ ['M', 'B', ' '] ++ stamps.ms ++ ['m', 's']

/-- A request whose answer has been logged. -/
structure LoggedRequest where
  received : List Char
  iterations : Nat → Nat → Int
  allocated : Bool
  handled : Handled
  stamps : Stamps
  answered : handleRequest iterations allocated received = some handled

namespace LoggedRequest

/-- Every request that is received is answered and logged. -/
def handle (received : List Char) (iterations : Nat → Nat → Int) (allocated : Bool)
    (stamps : Stamps) : LoggedRequest :=
  { received, iterations, allocated, stamps
    handled := (handleRequest iterations allocated received).get
      (Option.isSome_iff_exists.mpr (handleRequest_defined iterations allocated received))
    answered := (Option.some_get _).symm }

def entry (request : LoggedRequest) : List Char := logEntry request.stamps request.handled

/-- The line that is appended to the log. -/
def line (request : LoggedRequest) : List Char := cut logLineMax (request.entry ++ ['\n'])

/-- What the line shows of the entry. -/
def shown (request : LoggedRequest) : List Char := cut logLineMax request.entry

/-- The newline of the entry is in its line. -/
def Fits (request : LoggedRequest) : Prop := request.entry.length + 1 ≤ 255

instance (request : LoggedRequest) : Decidable request.Fits := Nat.decLe ..

end LoggedRequest

/-- The lines of several requests, one behind the other. -/
def logText (requests : List LoggedRequest) : List Char :=
  (requests.map LoggedRequest.line).flatten

/-- The body of `GET /admin/logs`; `body` is the uninitialised local array. -/
def adminLogs (ring : LogRing) (body : Buffer Char) : Option (List Char) := do
  let (_, body) ← logRingCopy ring body adminLogsLen
  return cString body

theorem plain_of_isDigit {text : List Char} (digits : ∀ c ∈ text, c.isDigit = true) : Plain text := by
  intro c member
  have digit := digits c member
  constructor
  · rintro rfl
    exact absurd digit (by decide)
  · rintro rfl
    exact absurd digit (by decide)

theorem plain_decimal (value : Nat) : Plain (decimal value) :=
  plain_of_isDigit fun _ member => decimal_isDigit member

theorem plain_megabytes (bytes : Nat) : Plain (megabytes bytes) := by
  have digits : ∀ d < 10, Plain [Nat.digitChar d] := by decide
  have digit : ∀ n, Plain [Nat.digitChar (n % 10)] := fun n => digits _ (Nat.mod_lt _ (by decide))
  rw [megabytes]
  refine plain_append.mpr ⟨plain_append.mpr ⟨plain_decimal _, by decide⟩, ?_⟩
  exact plain_append.mpr ⟨digit _, plain_append.mpr ⟨digit _, digit _⟩⟩

theorem plain_padRight {text : List Char} (width : Nat) (plain : Plain text) :
    Plain (padRight width text) := by
  refine plain_append.mpr ⟨plain, fun c member => ?_⟩
  rw [List.eq_of_mem_replicate member]
  decide

/-- Nothing that can enter an entry is a newline. -/
theorem plain_entry (request : LoggedRequest) : Plain request.entry := by
  obtain ⟨method, path, query⟩ := handleRequest_plain request.answered
  have suffix : Plain (if request.handled.query = [] then [] else ['?'] ++ request.handled.query) := by
    split
    · decide
    · exact plain_append.mpr ⟨by decide, query⟩
  rw [LoggedRequest.entry]
  unfold logEntry
  simp only [plain_append, request.stamps.ts_plain, plain_padRight 21 request.stamps.peer_plain,
    method, path, suffix, plain_decimal, plain_megabytes, request.stamps.ms_plain, and_true]
  decide

theorem nul_not_mem_line (request : LoggedRequest) : nul ∉ request.line := by
  intro member
  rcases List.mem_append.mp (List.mem_of_mem_take member) with inEntry | last
  · exact (plain_entry request nul inEntry).2 rfl
  · exact absurd last (by decide)

theorem cut_line (request : LoggedRequest) : cut logLineMax request.line = request.line := by
  rw [LoggedRequest.line, cut, cut, List.take_take, Nat.min_self]

theorem recentText_lines (requests : List LoggedRequest) :
    recentText (requests.map LoggedRequest.line) = logText (requests.rtake logRingSize) := by
  have recent : (requests.map LoggedRequest.line).rtake logRingSize =
      (requests.rtake logRingSize).map LoggedRequest.line := by
    rw [List.rtake, List.rtake, List.length_map, List.map_drop]
  rw [recentText, recent, List.map_map]
  refine congrArg List.flatten (List.map_congr_left fun request _ => ?_)
  rw [Function.comp_apply, cut_line]

/-- The text of `/admin/logs` is the concatenation of the most recent lines. -/
theorem adminLogs_eq (requests : List LoggedRequest) {body : Buffer Char}
    (size : body.size = adminLogsLen) :
    adminLogs (logRing (requests.map LoggedRequest.line)) body =
      some (logText (requests.rtake logRingSize)) := by
  have bound := recentText_length_lt (requests.map LoggedRequest.line)
  have positive : 1 ≤ adminLogsLen := Nat.le_add_left ..
  have noNul : nul ∉ recentText (requests.map LoggedRequest.line) := by
    rw [recentText_lines]
    intro member
    obtain ⟨line, among, inLine⟩ := List.mem_flatten.mp member
    obtain ⟨request, _, rfl⟩ := List.mem_map.mp among
    exact nul_not_mem_line request inLine
  obtain ⟨after, copied, same, holds⟩ :=
    logRing_copied (requests.map LoggedRequest.line) positive size.ge
  rw [List.take_of_length_le (Nat.le_sub_one_of_lt bound)] at holds
  have served := cString_of_holds holds noNul (by rw [same, size]; exact bound)
  rw [adminLogs, copied, ← recentText_lines, ← served]
  rfl

section Framing

variable {request : LoggedRequest}

theorem LoggedRequest.Fits.line_eq (fits : request.Fits) : request.line = request.shown ++ ['\n'] := by
  have room : (request.entry ++ ['\n']).length < logLineMax := by
    rw [List.length_append, List.length_singleton]
    exact Nat.lt_succ_of_le fits
  have whole : request.shown = request.entry :=
    cut_eq_self (Nat.lt_of_le_of_lt (by simp) room)
  rw [whole]
  exact cut_eq_self room

theorem line_eq_shown (long : ¬ request.Fits) : request.line = request.shown := by
  have length : logLineMax - 1 ≤ request.entry.length := Nat.le_of_lt_succ (Nat.lt_of_not_le long)
  exact List.take_append_of_le_length length

theorem newline_not_mem_shown (request : LoggedRequest) : '\n' ∉ request.shown :=
  fun member => (plain_entry request _ (List.mem_of_mem_take member)).1 rfl

/-- Every entry starts with the bracket of its time. -/
theorem entry_start (request : LoggedRequest) : ∃ more, request.entry = '[' :: more := by
  rw [LoggedRequest.entry]
  unfold logEntry
  simp only [List.append_assoc, List.singleton_append]
  exact ⟨_, rfl⟩

theorem line_start (request : LoggedRequest) : ∃ more, request.line = '[' :: more := by
  obtain ⟨more, start⟩ := entry_start request
  refine ⟨cut (logLineMax - 1) (more ++ ['\n']), ?_⟩
  rw [LoggedRequest.line, start, List.cons_append, cut_cons (by decide)]

theorem shown_ne_nil (request : LoggedRequest) : request.shown ≠ [] := by
  obtain ⟨more, start⟩ := entry_start request
  rw [LoggedRequest.shown, start, cut_cons (by decide)]
  exact List.cons_ne_nil _ _

theorem textLines_line (request : LoggedRequest) : textLines request.line = [request.shown] := by
  by_cases fits : request.Fits
  · rw [fits.line_eq, textLines_newline (newline_not_mem_shown request)]
    rfl
  · rw [line_eq_shown fits]
    exact textLines_single (newline_not_mem_shown request) (shown_ne_nil request)

theorem textLines_fits (fits : request.Fits) (behind : List LoggedRequest) :
    textLines (logText (request :: behind)) = request.shown :: textLines (logText behind) := by
  rw [logText, List.map_cons, List.flatten_cons, fits.line_eq, List.append_assoc]
  exact textLines_newline (newline_not_mem_shown request) _

theorem textLines_long (long : ¬ request.Fits) (next : LoggedRequest) (behind : List LoggedRequest) :
    (textLines (logText (request :: next :: behind))).length =
      (textLines (logText (next :: behind))).length := by
  obtain ⟨more, start⟩ := line_start next
  simp only [logText, List.map_cons, List.flatten_cons, line_eq_shown long, start, List.cons_append]
  exact textLines_run_on (newline_not_mem_shown request) (by decide) _

theorem textLines_logText : ∀ {requests : List LoggedRequest},
    (∀ request ∈ requests.dropLast, request.Fits) →
      textLines (logText requests) = requests.map LoggedRequest.shown
  | [] => fun _ => rfl
  | [request] => fun _ => by simpa [logText] using textLines_line request
  | request :: next :: behind => fun fit => by
      rw [List.dropLast_cons_cons, List.forall_mem_cons] at fit
      rw [textLines_fits fit.1, textLines_logText fit.2]
      rfl

/-- Every request that runs on costs a line. -/
theorem textLines_length_le : ∀ requests : List LoggedRequest,
    (textLines (logText requests)).length ≤ requests.length
  | [] => Nat.le_refl _
  | [request] => by simp [logText, textLines_line]
  | request :: next :: behind => by
      have rest := textLines_length_le (next :: behind)
      by_cases fits : request.Fits
      · rw [textLines_fits fits, List.length_cons, List.length_cons]
        omega
      · rw [textLines_long fits, List.length_cons]
        omega

theorem fits_of_textLines : ∀ {requests : List LoggedRequest},
    (textLines (logText requests)).length = requests.length →
      ∀ request ∈ requests.dropLast, request.Fits
  | [] => fun _ => by simp
  | [_] => fun _ => by simp
  | request :: next :: behind => fun same => by
      have bound := textLines_length_le (next :: behind)
      rw [List.length_cons] at same
      by_cases fits : request.Fits
      · rw [textLines_fits fits, List.length_cons, Nat.add_right_cancel_iff] at same
        rw [List.dropLast_cons_cons, List.forall_mem_cons]
        exact ⟨fits, fits_of_textLines same⟩
      · rw [textLines_long fits] at same
        omega

theorem textLines_eq_iff {requests : List LoggedRequest} :
    textLines (logText requests) = requests.map LoggedRequest.shown ↔
      ∀ request ∈ requests.dropLast, request.Fits := by
  refine ⟨fun same => fits_of_textLines ?_, textLines_logText⟩
  rw [same, List.length_map]

theorem textLines_length_iff {requests : List LoggedRequest} :
    (textLines (logText requests)).length = requests.length ↔
      ∀ request ∈ requests.dropLast, request.Fits := by
  refine ⟨fits_of_textLines, fun fit => ?_⟩
  rw [textLines_logText fit, List.length_map]

/-- The log has as many lines as recent requests, and then these are their entries, exactly where
all of them but the newest fit their lines. -/
theorem log_lines_framed (requests : List LoggedRequest) (body : Buffer Char)
    (size : body.size = adminLogsLen) :
    ∃ text, adminLogs (logRing (requests.map LoggedRequest.line)) body = some text ∧
      (textLines text = (requests.rtake logRingSize).map LoggedRequest.shown ↔
        ∀ request ∈ (requests.rtake logRingSize).dropLast, request.Fits) ∧
      ((textLines text).length = (requests.rtake logRingSize).length ↔
        ∀ request ∈ (requests.rtake logRingSize).dropLast, request.Fits) :=
  ⟨_, adminLogs_eq requests size, textLines_eq_iff, textLines_length_iff⟩

end Framing

def noonStamps : Stamps :=
  { ts := "12:00:00".toList
    peer := "127.0.0.1:5000".toList
    ms := "0.1".toList
    ts_plain := by decide
    peer_plain := by decide
    ms_plain := by decide }

def shortRequest : LoggedRequest :=
  .handle "GET /a HTTP/1.0\r\n\r\n".toList (fun _ _ => 0) true noonStamps

/-- A path of 241 characters. -/
def longRequest : LoggedRequest :=
  .handle ("GET /".toList ++ List.replicate 240 'a') (fun _ _ => 0) true noonStamps

theorem log_lines_framed_short : ∃ text,
    adminLogs (logRing ([shortRequest, longRequest].map LoggedRequest.line))
        ⟨adminLogsLen, fun _ => nul⟩ = some text ∧
      textLines text = [shortRequest.entry, longRequest.shown] ∧ (textLines text).length = 2 := by
  obtain ⟨text, served, lines, count⟩ :=
    log_lines_framed [shortRequest, longRequest] ⟨adminLogsLen, fun _ => nul⟩ rfl
  have fit : ∀ request ∈ ([shortRequest, longRequest].rtake logRingSize).dropLast, request.Fits := by
    have older : ([shortRequest, longRequest].rtake logRingSize).dropLast = [shortRequest] := rfl
    rw [older, List.forall_mem_singleton]
    decide +kernel
  exact ⟨text, served, (lines.mpr fit).trans (by decide +kernel), count.mpr fit⟩

/-- The entry of the long request is cut and loses its newline, so that the next one continues its
line: two requests, one line. -/
theorem long_entry_runs_on : ∃ text,
    adminLogs (logRing ([longRequest, shortRequest].map LoggedRequest.line))
        ⟨adminLogsLen, fun _ => nul⟩ = some text ∧
      (textLines text).length = 1 := by
  refine ⟨_, adminLogs_eq _ rfl, ?_⟩
  decide +kernel

end ThreadPool.Server
