import Mathlib.Data.List.Basic
import Mathlib.Data.List.DropRight
import Mathlib.Data.List.TakeWhile
import Mathlib.Data.Nat.Digits.Defs
import Mathlib.Data.Nat.Find

namespace ThreadPool.Foundation

/-! # C strings

A C string is the list of its characters, without the terminating NUL. A byte
is the character of its code, so that results about all lists of characters
hold of all byte strings.
-/

/-- `isspace` in the C locale. -/
def isSpace (c : Char) : Bool :=
  c == ' ' || c == '\t' || c == '\n' || c == '\x0b' || c == '\x0c' || c == '\r'

/-- What `snprintf` leaves of a text in a buffer of `size` characters. -/
def cut (size : Nat) (text : List Char) : List Char := text.take (size - 1)

theorem cut_eq_self {size : Nat} {text : List Char} (fits : text.length < size) :
    cut size text = text :=
  List.take_of_length_le (by omega)

theorem cut_cons {size : Nat} (room : 1 < size) (c : Char) (text : List Char) :
    cut size (c :: text) = c :: cut (size - 1) text := by
  rw [cut, cut, List.take_cons (Nat.sub_pos_of_lt room)]

theorem take_eq_iff {α : Type*} {values word : List α} {n : Nat} (short : word.length < n) :
    values.take n = word ↔ values = word := by
  constructor
  · rintro rfl
    rw [List.length_take] at short
    exact (List.take_of_length_le (by omega)).symm
  · rintro rfl
    exact List.take_of_length_le (Nat.le_of_lt short)

/-- A cut does not make a text one of several shorter ones, nor stop it from being one. -/
theorem take_mem_iff {α : Type*} {values : List α} {words : List (List α)} {n : Nat}
    (short : ∀ word ∈ words, word.length < n) : values.take n ∈ words ↔ values ∈ words := by
  constructor
  · intro member
    have whole := (take_eq_iff (short _ member)).mp rfl
    rwa [← whole] at member
  · intro member
    rwa [(take_eq_iff (short _ member)).mpr rfl]

/-- A conversion `%limit s` of `sscanf`: the white space in front is skipped, and at the end of the
input there is no token. -/
def scanString (limit : Nat) (input : List Char) : Option (List Char × List Char) :=
  let input := input.dropWhile isSpace
  let token := (input.takeWhile fun c => !isSpace c).take limit
  if token = [] then none else some (token, input.drop token.length)

theorem scanString_some {limit : Nat} {input token rest : List Char}
    (scanned : scanString limit input = some (token, rest)) :
    (∀ c ∈ token, isSpace c = false ∧ c ∈ input) ∧ rest ⊆ input := by
  simp only [scanString, Option.ite_none_left_eq_some, Option.some.injEq, Prod.mk.injEq] at scanned
  obtain ⟨_, rfl, rfl⟩ := scanned
  constructor
  · intro c member
    have inWord := List.mem_of_mem_take member
    exact ⟨by simpa using List.mem_takeWhile_imp inWord,
      (List.dropWhile_sublist _).subset ((List.takeWhile_sublist _).subset inWord)⟩
  · intro c member
    exact (List.dropWhile_sublist _).subset ((List.drop_sublist ..).subset member)

section Tokens

variable {text word rest : List Char} {limit : Nat}

/-- The maximal runs of characters that are not white space. -/
def tokens (text : List Char) : List (List Char) := (text.splitOnP isSpace).filter (· ≠ [])

theorem tokens_space {c : Char} (space : isSpace c = true) (text : List Char) :
    tokens (c :: text) = tokens text := by
  simp [tokens, List.splitOnP_cons_eq_if_modifyHead, space]

theorem tokens_dropWhile (text : List Char) : tokens (text.dropWhile isSpace) = tokens text := by
  induction text with
  | nil => rfl
  | cons c text ih =>
      cases space : isSpace c with
      | true => rw [List.dropWhile_cons_of_pos space, ih, tokens_space space]
      | false => rw [List.dropWhile_cons_of_neg (by simp [space])]

theorem scanString_dropWhile (limit : Nat) (text : List Char) :
    scanString limit (text.dropWhile isSpace) = scanString limit text := by
  rw [scanString, scanString, List.dropWhile_idempotent]

/-- The first token of a text, and what is behind it. -/
structure FirstToken (text word rest : List Char) : Prop where
  front : text.dropWhile isSpace = word ++ rest
  nonempty : word ≠ []
  plain : ∀ c ∈ word, isSpace c = false
  ends : rest = [] ∨ ∃ c more, rest = c :: more ∧ isSpace c = true

theorem firstToken_or_blank (text : List Char) :
    text.dropWhile isSpace = [] ∨ ∃ word rest, FirstToken text word rest := by
  cases front : text.dropWhile isSpace with
  | nil => exact .inl rfl
  | cons c more =>
      right
      have start : isSpace c = false := by
        have head := List.head_dropWhile_not isSpace (l := text) (by simp [front])
        simpa [front] using head
      refine ⟨(c :: more).takeWhile (!isSpace ·), (c :: more).dropWhile (!isSpace ·), ?_, ?_, ?_, ?_⟩
      · rw [List.takeWhile_append_dropWhile, front]
      · simp [start]
      · intro d member
        simpa using List.mem_takeWhile_imp member
      · cases behind : (c :: more).dropWhile (!isSpace ·) with
        | nil => exact .inl rfl
        | cons d tail =>
            have head := List.head_dropWhile_not (!isSpace ·) (l := c :: more) (by simp [behind])
            exact .inr ⟨d, tail, rfl, by simpa [behind] using head⟩

theorem tokens_blank (blank : text.dropWhile isSpace = []) : tokens text = [] := by
  rw [← tokens_dropWhile, blank]
  rfl

theorem scanString_blank (blank : text.dropWhile isSpace = []) : scanString limit text = none := by
  simp [scanString, blank]

namespace FirstToken

theorem tokens_eq (first : FirstToken text word rest) : tokens text = word :: tokens rest := by
  rw [← tokens_dropWhile, first.front]
  rcases first.ends with rfl | ⟨c, more, rfl, space⟩
  · rw [List.append_nil, tokens, List.splitOnP_eq_singleton first.plain]
    simp [tokens, first.nonempty]
  · rw [tokens_space space, tokens, List.splitOnP_append_cons_of_forall_mem first.plain c space]
    simp [tokens, first.nonempty]

/-- The scan cuts the token at its limit; what is cut off is left in the input. -/
theorem scan (first : FirstToken text word rest) (positive : 0 < limit) :
    scanString limit text = some (word.take limit, word.drop limit ++ rest) := by
  have plain : ∀ c ∈ word, (!isSpace c) = true := by
    intro c member
    simp [first.plain c member]
  have run : (word ++ rest).takeWhile (fun c => !isSpace c) = word := by
    rw [List.takeWhile_append_of_pos plain]
    rcases first.ends with rfl | ⟨c, more, rfl, space⟩ <;> simp [*]
  have token : word.take limit ≠ [] := by
    simp [first.nonempty, Nat.ne_of_gt positive]
  have behind : (word ++ rest).drop (word.take limit).length = word.drop limit ++ rest := by
    rw [List.drop_append_of_le_length (by simp), List.length_take]
    congr 1
    rcases Nat.le_total limit word.length with shorter | longer
    · rw [Nat.min_eq_left shorter]
    · rw [Nat.min_eq_right longer, List.drop_length, List.drop_of_length_le longer]
  simp only [scanString, first.front, run, token, if_false, behind]

/-- What the scan leaves of a longer token is a token for the next one. -/
theorem remainder (first : FirstToken text word rest) (longer : limit < word.length) :
    FirstToken (word.drop limit ++ rest) (word.drop limit) rest := by
  have plain : ∀ c ∈ word.drop limit, isSpace c = false := fun c member =>
    first.plain c (List.mem_of_mem_drop member)
  have nonempty : word.drop limit ≠ [] := by simpa using longer
  refine ⟨?_, nonempty, plain, first.ends⟩
  obtain ⟨c, more, cons⟩ := List.exists_cons_of_ne_nil nonempty
  rw [cons, List.cons_append, List.dropWhile_cons_of_neg]
  simp [plain c (by simp [cons])]

end FirstToken

end Tokens

section Prefixes

variable {α : Type*} (P : List α → Prop) [DecidablePred P] {part text rest : List α} {stop : α}

/-- The length of the longest prefix with a property; 0 if no prefix has it. -/
def longestPrefix (text : List α) : Nat := Nat.findGreatest (fun k => P (text.take k)) text.length

theorem longestPrefix_le (text : List α) : longestPrefix P text ≤ text.length :=
  Nat.findGreatest_le _

variable {P}

theorem longestPrefix_eq_zero (lacks : ∀ part rest, text = part ++ rest → ¬ P part) :
    longestPrefix P text = 0 := by
  rw [longestPrefix, Nat.findGreatest_eq_zero_iff]
  intro k _ _ holds
  exact lacks (text.take k) (text.drop k) (List.take_append_drop k text).symm holds

theorem longestPrefix_append (holds : P part)
    (most : ∀ longer tail, part ++ rest = longer ++ tail → P longer → longer.length ≤ part.length) :
    longestPrefix P (part ++ rest) = part.length := by
  rw [longestPrefix, Nat.findGreatest_eq_iff]
  refine ⟨by simp, fun _ => by rwa [List.take_left], ?_⟩
  intro k above within long
  have bound := most _ _ (List.take_append_drop k (part ++ rest)).symm long
  rw [List.length_take] at bound
  omega

/-- What no such prefix contains ends the search. -/
theorem longestPrefix_stop (avoids : ∀ part, P part → stop ∉ part) (text rest : List α) :
    longestPrefix P (text ++ stop :: rest) = longestPrefix P text := by
  have inside : ∀ {k}, k ≤ text.length → (text ++ stop :: rest).take k = text.take k :=
    fun short => List.take_append_of_le_length short
  have found := longestPrefix_le P text
  rw [longestPrefix, Nat.findGreatest_eq_iff]
  refine ⟨by simp; omega, fun positive => ?_, fun k above _ holds => ?_⟩
  · rw [inside found]
    exact Nat.findGreatest_of_ne_zero rfl positive
  · by_cases short : k ≤ text.length
    · rw [inside short] at holds
      exact Nat.findGreatest_is_greatest above short holds
    · apply avoids _ holds
      obtain ⟨d, rfl⟩ := Nat.exists_eq_add_of_lt (Nat.lt_of_not_le short)
      rw [Nat.add_assoc, List.take_length_add_append]
      simp

end Prefixes

section Lines

/-- What is left of a list of pieces without an empty one at its end. -/
def dropEmptyEnd : List (List Char) → List (List Char)
  | [] => []
  | [[]] => []
  | piece :: rest => piece :: dropEmptyEnd rest

/-- The lines of a text. Behind a newline at its end there is no other line. -/
def textLines (text : List Char) : List (List Char) := dropEmptyEnd (text.splitOn '\n')

theorem dropEmptyEnd_cons {piece : List Char} {rest : List (List Char)}
    (kept : piece ≠ [] ∨ rest ≠ []) :
    dropEmptyEnd (piece :: rest) = piece :: dropEmptyEnd rest := by
  rw [dropEmptyEnd]
  rintro rfl rfl
  simp at kept

variable {line : List Char}

theorem textLines_newline (plain : '\n' ∉ line) (text : List Char) :
    textLines (line ++ '\n' :: text) = line :: textLines text := by
  rw [textLines, List.splitOn_append_cons_self_of_not_mem plain, textLines]
  exact dropEmptyEnd_cons (.inr (List.splitOnP_ne_nil _ _))

theorem textLines_single (plain : '\n' ∉ line) (nonempty : line ≠ []) : textLines line = [line] := by
  rw [textLines, List.splitOn_eq_singleton plain, dropEmptyEnd_cons (.inl nonempty)]
  rfl

/-- Without a newline behind it, a line runs on into the next one. -/
theorem textLines_run_on (plain : '\n' ∉ line) {c : Char} (other : c ≠ '\n') (text : List Char) :
    (textLines (line ++ c :: text)).length = (textLines (c :: text)).length := by
  obtain ⟨first, rest, pieces⟩ := List.exists_cons_of_ne_nil (List.splitOnP_ne_nil (· == '\n') text)
  have joined : ∀ front, '\n' ∉ front →
      (front ++ c :: text).splitOn '\n' = (front ++ c :: first) :: rest := by
    intro front
    induction front with
    | nil => simp [List.splitOn, List.splitOnP_cons_eq_if_modifyHead, pieces, other]
    | cons d front ih =>
        intro plain
        rw [List.mem_cons, not_or] at plain
        have behind := ih plain.2
        rw [List.splitOn] at behind
        simp [List.splitOn, List.splitOnP_cons_eq_if_modifyHead, behind, Ne.symm plain.1]
  have start := joined [] List.not_mem_nil
  rw [List.nil_append, List.nil_append] at start
  rw [textLines, textLines, joined line plain, start, dropEmptyEnd_cons (.inl (by simp)),
    dropEmptyEnd_cons (.inl (by simp)), List.length_cons, List.length_cons]

end Lines

/-- The text of `%d`, `%u` and `%zu` for a number that is not negative. -/
def decimal (value : Nat) : List Char := Nat.toDigits 10 value

theorem decimal_length_le {value digits : Nat} (positive : 0 < digits) (bound : value < 10 ^ digits) :
    (decimal value).length ≤ digits :=
  (Nat.length_toDigits_le_iff (by decide) positive).mpr bound

theorem decimal_isDigit {value : Nat} {c : Char} (member : c ∈ decimal value) : c.isDigit = true :=
  Nat.isDigit_of_mem_toDigits (by decide) (by decide) member

end ThreadPool.Foundation
