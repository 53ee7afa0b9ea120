import ThreadPool.Server.LogRing
import ThreadPool.Server.Render

namespace ThreadPool.Server

open Foundation

/-! # Answering a request

The part of `handle_connection` between `recv` and `close`: the request line is
scanned, and the answer depends on its first two words.
-/

variable {iterations : Nat → Nat → Int} {allocated : Bool} {received : List Char}

def pathMax : Nat := 4096

/-- The request as a C string: the bytes received, up to the first NUL among them. -/
def requestText (received : List Char) : List Char := received.takeWhile (· ≠ nul)

/-- The local variables of `handle_connection` when the connection is closed. -/
structure Handled where
  method : List Char
  path : List Char
  query : List Char
  response : Response
  rendered : Bool

def badRequest (method : List Char) : Handled :=
  { method
    path := ['-']
    query := []
    response := sendStatus 400 "Bad Request".toList "bad request\n".toList
    rendered := false }

/-- `strchr(target, '?')`: the path in front of the question mark and the query behind it. -/
def splitTarget (target : List Char) : List Char × List Char :=
  (target.takeWhile (· ≠ '?'), (target.dropWhile (· ≠ '?')).tail)

/-- The answer to a scanned request line. -/
def dispatch (iterations : Nat → Nat → Int) (allocated : Bool) (method target : List Char) :
    Option Handled :=
  if method ≠ "GET".toList then
    some {
      method
      path := cut pathMax target
      query := []
      response := sendStatus 405 "Method Not Allowed".toList "method not allowed\n".toList
      rendered := false }
  else
    let (path, query) := splitTarget target
    if path = "/render".toList then do
      let response ← serveRender iterations query allocated
      return { method, path := cut pathMax path, query, response, rendered := true }
    else
      some {
        method
        path := cut pathMax path
        query
        response := sendStatus 404 "Not Found".toList "not found\n".toList
        rendered := false }

/-- `sscanf(req, "%15s %1023s", ..)` and what follows. A scan that fails leaves the initial values
of the words it has not reached. -/
def handleRequest (iterations : Nat → Nat → Int) (allocated : Bool) (received : List Char) :
    Option Handled :=
  match scanString 15 (requestText received) with
  | none => some (badRequest ['?'])
  | some (method, rest) =>
      match scanString 1023 (rest.dropWhile isSpace) with
      | none => some (badRequest method)
      | some (target, _) => dispatch iterations allocated method target

/-- `sscanf(req, "%15s %1023s", ..)`, where both words are found. -/
def requestLine (received : List Char) : Option (List Char × List Char) := do
  let (method, rest) ← scanString 15 (requestText received)
  let (target, _) ← scanString 1023 (rest.dropWhile isSpace)
  return (method, target)

theorem handleRequest_none (incomplete : requestLine received = none) (iterations : Nat → Nat → Int)
    (allocated : Bool) :
    ∃ method, handleRequest iterations allocated received = some (badRequest method) := by
  rw [handleRequest]
  split
  · exact ⟨_, rfl⟩
  · rename_i method rest first
    split
    · exact ⟨_, rfl⟩
    · rename_i target behind second
      simp [requestLine, first, second] at incomplete

theorem handleRequest_some {method target : List Char}
    (complete : requestLine received = some (method, target)) (iterations : Nat → Nat → Int)
    (allocated : Bool) :
    handleRequest iterations allocated received = dispatch iterations allocated method target := by
  obtain ⟨⟨word, rest⟩, first, remaining⟩ := Option.bind_eq_some_iff.mp complete
  obtain ⟨⟨path, behind⟩, second, made⟩ := Option.bind_eq_some_iff.mp remaining
  cases made
  rw [handleRequest, first]
  simp only
  rw [second]

theorem dispatch_defined (iterations : Nat → Nat → Int) (allocated : Bool)
    (method target : List Char) :
    ∃ handled, dispatch iterations allocated method target = some handled := by
  obtain ⟨response, served, _⟩ := serveRender_status iterations (splitTarget target).2 allocated
  rw [dispatch]
  split
  · exact ⟨_, rfl⟩
  · dsimp only
    split
    · exact ⟨_, by rw [served]; rfl⟩
    · exact ⟨_, rfl⟩

/-- Every request is answered. -/
theorem handleRequest_defined (iterations : Nat → Nat → Int) (allocated : Bool)
    (received : List Char) : ∃ handled, handleRequest iterations allocated received = some handled := by
  rw [handleRequest]
  split
  · exact ⟨_, rfl⟩
  · split
    · exact ⟨_, rfl⟩
    · exact dispatch_defined ..

/-- What the status of an answer can be: `rendered` says that the path is `/render`, not that the
image was sent. -/
def Handled.Fitting (allocated : Bool) (handled : Handled) : Prop :=
  if handled.rendered then handled.response.status = if allocated then 200 else 500
  else handled.response.status ∈ [400, 404, 405]

theorem dispatch_fitting {method target : List Char} {handled : Handled}
    (answered : dispatch iterations allocated method target = some handled) :
    handled.Fitting allocated := by
  rw [dispatch] at answered
  split at answered
  · cases answered
    change 405 ∈ [400, 404, 405]
    decide
  · dsimp only at answered
    split at answered
    · obtain ⟨response, served, status⟩ := serveRender_status iterations (splitTarget target).2 allocated
      rw [served] at answered
      cases answered
      exact status
    · cases answered
      change 404 ∈ [400, 404, 405]
      decide

theorem handleRequest_fitting {handled : Handled}
    (answered : handleRequest iterations allocated received = some handled) :
    handled.Fitting allocated := by
  rw [handleRequest] at answered
  split at answered
  · cases answered
    change 400 ∈ [400, 404, 405]
    decide
  · split at answered
    · cases answered
      change 400 ∈ [400, 404, 405]
      decide
    · exact dispatch_fitting answered

/-- With the image allocated, the answers on the path `/render` are those with status 200. -/
theorem Handled.Fitting.rendered_iff {handled : Handled} (fitting : handled.Fitting true) :
    handled.rendered = true ↔ handled.response.status = 200 := by
  rw [Handled.Fitting] at fitting
  split at fitting
  case isTrue rendered => exact iff_of_true rendered fitting
  case isFalse other =>
    refine iff_of_false other fun success => ?_
    rw [success] at fitting
    exact absurd fitting (by decide)

/-- A C string of one line. -/
def Plain (text : List Char) : Prop := ∀ c ∈ text, c ≠ '\n' ∧ c ≠ nul

instance (text : List Char) : Decidable (Plain text) :=
  List.decidableBAll (fun c => c ≠ '\n' ∧ c ≠ nul) text

theorem Plain.subset {text part : List Char} (plain : Plain text) (inside : part ⊆ text) :
    Plain part :=
  fun c member => plain c (inside member)

@[simp] theorem plain_append {left right : List Char} :
    Plain (left ++ right) ↔ Plain left ∧ Plain right :=
  List.forall_mem_append

/-- The words of a request line have no white space, and no NUL as they are read from a C string. -/
theorem plain_of_scan {limit : Nat} {input token rest : List Char}
    (scanned : scanString limit input = some (token, rest)) (noNul : nul ∉ input) : Plain token := by
  intro c member
  obtain ⟨word, inInput⟩ := (scanString_some scanned).1 c member
  constructor
  · rintro rfl
    exact absurd word (by decide)
  · rintro rfl
    exact noNul inInput

theorem dispatch_plain {method target : List Char} {handled : Handled} (plainMethod : Plain method)
    (plainTarget : Plain target)
    (answered : dispatch iterations allocated method target = some handled) :
    Plain handled.method ∧ Plain handled.path ∧ Plain handled.query := by
  have cutPlain : ∀ {text : List Char}, Plain text → Plain (cut pathMax text) :=
    fun plain => plain.subset (List.take_subset ..)
  have path : Plain (splitTarget target).1 :=
    plainTarget.subset (List.takeWhile_sublist _).subset
  have query : Plain (splitTarget target).2 :=
    plainTarget.subset ((List.tail_sublist _).trans (List.dropWhile_sublist _)).subset
  have empty : Plain [] := by decide
  rw [dispatch] at answered
  split at answered
  · cases answered
    exact ⟨plainMethod, cutPlain plainTarget, empty⟩
  · dsimp only at answered
    split at answered
    · obtain ⟨response, _, made⟩ := Option.bind_eq_some_iff.mp answered
      cases made
      exact ⟨plainMethod, cutPlain path, query⟩
    · cases answered
      exact ⟨plainMethod, cutPlain path, query⟩

theorem handleRequest_plain {handled : Handled}
    (answered : handleRequest iterations allocated received = some handled) :
    Plain handled.method ∧ Plain handled.path ∧ Plain handled.query := by
  have noNul : nul ∉ requestText received := by
    intro member
    simpa using List.mem_takeWhile_imp member
  have mark : Plain ['?'] := by decide
  have dash : Plain ['-'] := by decide
  have empty : Plain [] := by decide
  rw [handleRequest] at answered
  split at answered
  · cases answered
    exact ⟨mark, dash, empty⟩
  · rename_i method rest first
    have plainMethod := plain_of_scan first noNul
    split at answered
    · cases answered
      exact ⟨plainMethod, dash, empty⟩
    · rename_i target _ second
      refine dispatch_plain plainMethod (plain_of_scan second fun member => noNul ?_) answered
      exact (scanString_some first).2 ((List.dropWhile_sublist _).subset member)

/-! ## Tokens

The scan of a request line, compared with the tokens of the request. It differs from them
where a token is longer than fifteen characters and no other one follows.
-/

theorem requestText_eq (noNul : nul ∉ received) : requestText received = received := by
  refine List.takeWhile_eq_self_iff.mpr fun c member => ?_
  simpa using ne_of_mem_of_not_mem member noNul

/-- The only token of the request, if there is just one, is short. -/
def LoneTokenShort (received : List Char) : Prop :=
  ∀ token, tokens received = [token] → token.length ≤ 15

/-- Of a longer first token the remainder is read as the target. -/
theorem requestLine_of_long {word rest : List Char} (noNul : nul ∉ received)
    (first : FirstToken received word rest) (longer : 15 < word.length) :
    requestLine received = some (word.take 15, (word.drop 15).take 1023) := by
  have scanned : scanString 15 received = some (word.take 15, word.drop 15 ++ rest) :=
    first.scan (by decide)
  have second : scanString 1023 (word.drop 15 ++ rest) = some _ :=
    (first.remainder longer).scan (by decide)
  simp [requestLine, requestText_eq noNul, scanned, scanString_dropWhile, second]

/-- Either there is no complete request line and fewer than two tokens, or the line tells whether
the first token is `GET`, and then gives the second one up to its 1023rd character. -/
theorem requestLine_tokens (noNul : nul ∉ received) (short : LoneTokenShort received) :
    (requestLine received = none ∧ (tokens received).length < 2) ∨
      ∃ method target rest word path, tokens received = method :: target :: rest ∧
        requestLine received = some (word, path) ∧ (word = "GET".toList ↔ method = "GET".toList) ∧
        (method = "GET".toList → path = target.take 1023) := by
  have text := requestText_eq noNul
  rcases firstToken_or_blank received with blank | ⟨word, rest, first⟩
  · left
    simp [requestLine, text, scanString_blank blank, tokens_blank blank]
  · rcases Nat.lt_or_ge 15 word.length with longer | fits
    · -- the method is not `GET`
      have more : tokens rest ≠ [] := by
        intro none
        have bound := short word (by rw [first.tokens_eq, none])
        omega
      obtain ⟨target, behind, others⟩ := List.exists_cons_of_ne_nil more
      refine .inr ⟨word, target, behind, _, _, ?_, requestLine_of_long noNul first longer, ?_, ?_⟩
      · rw [first.tokens_eq, others]
      · exact take_eq_iff (by decide)
      · rintro rfl
        exact absurd longer (by decide)
    · have scanned : scanString 15 received = some (word.take 15, word.drop 15 ++ rest) :=
        first.scan (by decide)
      rw [List.take_of_length_le fits, List.drop_of_length_le fits, List.nil_append] at scanned
      rcases firstToken_or_blank rest with blank | ⟨target, behind, next⟩
      · left
        simp [requestLine, text, scanned, scanString_dropWhile, scanString_blank blank,
          first.tokens_eq, tokens_blank blank]
      · have second : scanString 1023 rest = some _ := next.scan (by decide)
        refine .inr ⟨word, target, tokens behind, word, target.take 1023, ?_, ?_, Iff.rfl, fun _ => rfl⟩
        · rw [first.tokens_eq, next.tokens_eq]
        · simp [requestLine, text, scanned, scanString_dropWhile, second]

/-- The law of the status codes, by the tokens of the request and the paths that are served. -/
def Classified (served : List (List Char)) (received : List Char) (status : Nat) : Prop :=
  (status = 400 ↔ (tokens received).length < 2) ∧
    ∀ method target rest, tokens received = method :: target :: rest →
      (status = 405 ↔ method ≠ "GET".toList) ∧
      (method = "GET".toList → (status = 404 ↔ target.takeWhile (· ≠ '?') ∉ served))

/-- A path that is shorter than the limit of the scan is not changed by it. -/
theorem splitTarget_take {served : List (List Char)} (names : ∀ name ∈ served, name.length < 1023)
    (target : List Char) :
    (splitTarget (target.take 1023)).1 ∈ served ↔ target.takeWhile (· ≠ '?') ∈ served := by
  have same : (splitTarget (target.take 1023)).1 = (target.takeWhile (· ≠ '?')).take 1023 :=
    List.take_takeWhile.symm
  rw [same, take_mem_iff names]

/-- The answer of a handler that goes by the request line. -/
structure ByLine (served : List (List Char)) (received : List Char) (status : Nat) : Prop where
  incomplete : requestLine received = none → status = 400
  complete : ∀ word path, requestLine received = some (word, path) →
    status ≠ 400 ∧ (status = 405 ↔ word ≠ "GET".toList) ∧
    (word = "GET".toList → (status = 404 ↔ (splitTarget path).1 ∉ served))

namespace ByLine

variable {served : List (List Char)} {status : Nat}

theorem classified (line : ByLine served received status) (noNul : nul ∉ received)
    (short : LoneTokenShort received) (names : ∀ name ∈ served, name.length < 1023) :
    Classified served received status := by
  rcases requestLine_tokens noNul short with
    ⟨none, few⟩ | ⟨method, target, rest, word, path, all, scanned, get, cut⟩
  · refine ⟨iff_of_true (line.incomplete none) few, fun method target rest all => ?_⟩
    rw [all, List.length_cons, List.length_cons] at few
    omega
  · obtain ⟨answered, allowed, found⟩ := line.complete word path scanned
    refine ⟨iff_of_false answered (by simp [all]), fun method' target' rest' same => ?_⟩
    cases all.symm.trans same
    refine ⟨by rw [allowed, ne_eq, get], fun isGet => ?_⟩
    rw [found (get.mpr isGet), cut isGet, splitTarget_take names]

/-- The answer to a lone token that is longer is not 400. -/
theorem loneTokenShort (line : ByLine served received status) (noNul : nul ∉ received)
    (classified : Classified served received status) : LoneTokenShort received := by
  intro token lone
  by_contra long
  rcases firstToken_or_blank received with blank | ⟨word, rest, first⟩
  · cases (tokens_blank blank).symm.trans lone
  · obtain ⟨rfl, _⟩ := List.cons.inj (first.tokens_eq.symm.trans lone)
    have scanned := requestLine_of_long noNul first (Nat.lt_of_not_le long)
    exact (line.complete _ _ scanned).1 (classified.1.mpr (by simp [lone]))

/-- Such a handler answers by the tokens exactly where a lone token is short. -/
theorem classified_iff (line : ByLine served received status) (noNul : nul ∉ received)
    (names : ∀ name ∈ served, name.length < 1023) :
    Classified served received status ↔ LoneTokenShort received :=
  ⟨line.loneTokenShort noNul, fun short => line.classified noNul short names⟩

end ByLine

theorem dispatch_status (iterations : Nat → Nat → Int) (allocated : Bool) (method target : List Char) :
    ∃ handled, dispatch iterations allocated method target = some handled ∧
      handled.response.status ≠ 400 ∧ (handled.response.status = 405 ↔ method ≠ "GET".toList) ∧
      (method = "GET".toList →
        (handled.response.status = 404 ↔ (splitTarget target).1 ∉ ["/render".toList])) := by
  by_cases get : method = "GET".toList
  · by_cases render : (splitTarget target).1 = "/render".toList
    · obtain ⟨response, served, status⟩ :=
        serveRender_status iterations (splitTarget target).2 allocated
      refine ⟨_, by simp only [dispatch, get, ne_eq, not_true, if_false, render, if_true, served]; rfl,
        ?_⟩
      cases allocated <;> simp [status, get, render]
    · refine ⟨_, by simp only [dispatch, get, ne_eq, not_true, if_false, render]; rfl, ?_⟩
      simpa [sendStatus, get] using render
  · exact ⟨_, if_pos get, by simp [sendStatus], iff_of_true rfl get, fun same => absurd same get⟩

theorem handleRequest_byLine (iterations : Nat → Nat → Int) (allocated : Bool)
    (received : List Char) :
    ∃ handled, handleRequest iterations allocated received = some handled ∧
      ByLine ["/render".toList] received handled.response.status := by
  cases line : requestLine received with
  | none =>
      obtain ⟨method, answered⟩ := handleRequest_none line iterations allocated
      refine ⟨_, answered, fun _ => rfl, fun word path complete => ?_⟩
      cases line.symm.trans complete
  | some words =>
      obtain ⟨handled, dispatched, status⟩ := dispatch_status iterations allocated words.1 words.2
      refine ⟨handled, (handleRequest_some line iterations allocated).trans dispatched, ?_, ?_⟩
      · intro incomplete
        cases line.symm.trans incomplete
      · intro word path complete
        cases line.symm.trans complete
        exact status

end ThreadPool.Server
