import ThreadPool.Foundation.Text

namespace ThreadPool.Server

open Foundation

/-! # Query parameters

`query_int` walks over a query string segment by segment. The pointer of the
walk is the rest of the string behind it.
-/

variable {query key : List Char} {fallback min max : Int}

def longMin : Int := -9223372036854775808

def longMax : Int := 9223372036854775807

/-- The optional sign of a number: whether it is a minus, and what follows it. -/
def splitSign : List Char → Bool × List Char
  | '-' :: rest => (true, rest)
  | '+' :: rest => (false, rest)
  | rest => (false, rest)

/-- `strtol` in base ten: the value, and how many characters it consumed. The
value saturates, and without a digit nothing is consumed. -/
def strtol (text : List Char) : Int × Nat :=
  let unsigned := splitSign (text.dropWhile isSpace)
  let digits := unsigned.2.takeWhile Char.isDigit
  if digits = [] then (0, 0)
  else
    let magnitude : Int := Nat.ofDigitChars 10 digits 0
    let value := if unsigned.1 then -magnitude else magnitude
    (Max.max longMin (Min.min longMax value),
      text.length - unsigned.2.length + digits.length)

/-- The part of the loop body that has found the key. -/
def parseValue (text : List Char) (fallback min max : Int) : Int :=
  let (value, consumed) := strtol text
  if consumed = 0 then fallback
  else if value < min then min
  else if value > max then max
  else value

/-- `strchr(p, '&')`, then `p++`; without an ampersand the pointer is null. -/
def nextSegment (p : List Char) : Option (List Char) :=
  match p.dropWhile (· ≠ '&') with
  | [] => none
  | _ :: rest => some rest

theorem nextSegment_length {p rest : List Char} (next : nextSegment p = some rest) :
    rest.length < p.length := by
  have shorter := (List.dropWhile_sublist (fun c : Char => decide (c ≠ '&')) (l := p)).length_le
  rw [nextSegment] at next
  split at next
  · cases next
  · rename_i found
    cases next
    rw [found, List.length_cons] at shorter
    exact shorter

def queryInt (query key : List Char) (fallback min max : Int) : Int :=
  if query = [] then fallback
  else if key.isPrefixOf query ∧ query[key.length]? = some '=' then
    parseValue (query.drop (key.length + 1)) fallback min max
  else
    match _next : nextSegment query with
    | none => fallback
    | some rest => queryInt rest key fallback min max
termination_by query.length
decreasing_by exact nextSegment_length _next

theorem parseValue_bounds (text : List Char) (lower : min ≤ fallback) (upper : fallback ≤ max) :
    min ≤ parseValue text fallback min max ∧ parseValue text fallback min max ≤ max := by
  simp only [parseValue]
  split
  · exact ⟨lower, upper⟩
  · split
    · exact ⟨Int.le_refl _, Int.le_trans lower upper⟩
    · split
      · exact ⟨Int.le_trans lower upper, Int.le_refl _⟩
      · omega

/-- Whatever the query, the parameter is within its bounds. -/
theorem queryInt_bounds (query key : List Char) (lower : min ≤ fallback) (upper : fallback ≤ max) :
    min ≤ queryInt query key fallback min max ∧ queryInt query key fallback min max ≤ max := by
  fun_induction queryInt query key fallback min max with
  | case1 => exact ⟨lower, upper⟩
  | case2 => exact parseValue_bounds _ lower upper
  | case3 => exact ⟨lower, upper⟩
  | case4 query _ _ rest _ ih => exact ih

/-! ## The reference

The query is split at its ampersands, and the value of the first segment for the key is the
longest numeral in front of it.
-/

/-- Optional white space, an optional sign and at least one digit. -/
def IsNumeral (text : List Char) : Prop :=
  (splitSign (text.dropWhile isSpace)).2 ≠ [] ∧
    ∀ c ∈ (splitSign (text.dropWhile isSpace)).2, c.isDigit = true

instance : DecidablePred IsNumeral := fun _ =>
  @instDecidableAnd _ _ inferInstance (List.decidableBAll (Char.isDigit · = true) _)

def numeralValue (text : List Char) : Int :=
  let (negative, digits) := splitSign (text.dropWhile isSpace)
  if negative then -(Nat.ofDigitChars 10 digits 0) else Nat.ofDigitChars 10 digits 0

def saturate (value : Int) : Int := Max.max longMin (Min.min longMax value)

def referenceValue (text : List Char) (fallback min max : Int) : Int :=
  let length := longestPrefix IsNumeral text
  if length = 0 then fallback
  else Max.max min (Min.min max (saturate (numeralValue (text.take length))))

/-- What `query_int` is for: the number in the first segment for the key, clamped. -/
def queryReference (query key : List Char) (fallback min max : Int) : Int :=
  match (query.splitOn '&').find? (key ++ ['=']).isPrefixOf with
  | none => fallback
  | some segment => referenceValue (segment.drop (key.length + 1)) fallback min max

theorem splitSign_append {body : List Char} (nonempty : body ≠ []) (rest : List Char) :
    splitSign (body ++ rest) = ((splitSign body).1, (splitSign body).2 ++ rest) := by
  cases body with
  | nil => exact absurd rfl nonempty
  | cons c body =>
      simp only [List.cons_append, splitSign]
      split <;> simp_all

theorem splitSign_suffix (body : List Char) : (splitSign body).2 <:+ body := by
  unfold splitSign
  split <;> simp

/-- What follows a numeral is read with its digits. -/
theorem IsNumeral.split_append {text : List Char} (numeral : IsNumeral text) (rest : List Char) :
    splitSign ((text ++ rest).dropWhile isSpace) =
      ((splitSign (text.dropWhile isSpace)).1, (splitSign (text.dropWhile isSpace)).2 ++ rest) := by
  have nonempty : text.dropWhile isSpace ≠ [] := by
    intro empty
    have digits := numeral.1
    simp [empty, splitSign] at digits
  rw [List.dropWhile_append, if_neg (by simpa using nonempty), splitSign_append nonempty]

theorem digit_not_space {c : Char} (digit : c.isDigit = true) : isSpace c = false := by
  simp only [isSpace, Bool.or_eq_false_iff, beq_eq_false_iff_ne]
  refine ⟨⟨⟨⟨⟨?_, ?_⟩, ?_⟩, ?_⟩, ?_⟩, ?_⟩ <;> (rintro rfl; revert digit; decide)

/-- The sign in front of a number: other digits may follow it. -/
theorem splitSign_front (body : List Char) {c : Char} (digit : c.isDigit = true) (digits : List Char) :
    ∃ sign, body = sign ++ (splitSign body).2 ∧
      splitSign (sign ++ c :: digits) = ((splitSign body).1, c :: digits) ∧
      (sign ++ c :: digits).dropWhile isSpace = sign ++ c :: digits := by
  fun_cases splitSign body with
  | case1 rest => exact ⟨['-'], rfl, rfl, rfl⟩
  | case2 rest => exact ⟨['+'], rfl, rfl, rfl⟩
  | case3 =>
      refine ⟨[], rfl, ?_, by simp [digit_not_space digit]⟩
      rw [List.nil_append, splitSign]
      · rintro rest ⟨⟩
        exact absurd digit (by decide)
      · rintro rest ⟨⟩
        exact absurd digit (by decide)

/-- With a digit behind its sign, a text begins with a numeral. -/
theorem numeral_front {text : List Char}
    (found : (splitSign (text.dropWhile isSpace)).2.takeWhile Char.isDigit ≠ []) :
    ∃ part rest negative digits, text = part ++ rest ∧ IsNumeral part ∧
      splitSign (part.dropWhile isSpace) = (negative, digits) ∧
      splitSign (text.dropWhile isSpace) = (negative, digits ++ rest) ∧
      (digits ++ rest).takeWhile Char.isDigit = digits := by
  rcases read : splitSign (text.dropWhile isSpace) with ⟨negative, unsigned⟩
  rw [read] at found
  obtain ⟨c, more, first⟩ := List.exists_cons_of_ne_nil found
  have digits : ∀ d ∈ c :: more, d.isDigit = true := by
    rw [← first]
    exact fun _ => List.mem_takeWhile_imp
  obtain ⟨sign, body, split, front⟩ :=
    splitSign_front (text.dropWhile isSpace) (digits c List.mem_cons_self) more
  rw [read] at body split
  have partSplit : splitSign ((text.takeWhile isSpace ++ (sign ++ c :: more)).dropWhile isSpace) =
      (negative, c :: more) := by
    rw [List.dropWhile_append_of_pos (fun _ => List.mem_takeWhile_imp), front, split]
  have whole : (c :: more) ++ unsigned.dropWhile Char.isDigit = unsigned := by
    rw [← first, List.takeWhile_append_dropWhile]
  refine ⟨text.takeWhile isSpace ++ (sign ++ c :: more), unsigned.dropWhile Char.isDigit, negative,
    c :: more, ?_, ?_, partSplit, ?_, ?_⟩
  · rw [List.append_assoc, List.append_assoc, whole, ← body, List.takeWhile_append_dropWhile]
  · rw [IsNumeral, partSplit]
    exact ⟨List.cons_ne_nil c more, digits⟩
  · rw [whole]
  · rw [whole, first]

/-- No numeral in front of a text has more digits than can be read there. -/
theorem IsNumeral.length_le {text longer tail digits rest : List Char} {negative : Bool}
    (numeral : IsNumeral longer) (same : text = longer ++ tail)
    (read : splitSign (text.dropWhile isSpace) = (negative, digits ++ rest))
    (maximal : (digits ++ rest).takeWhile Char.isDigit = digits) :
    longer.length + rest.length ≤ text.length := by
  subst same
  rw [numeral.split_append, Prod.mk.injEq] at read
  rw [← read.2, List.takeWhile_append_of_pos numeral.2] at maximal
  have lengths := congrArg List.length read.2
  have fewer := congrArg List.length maximal
  simp only [List.length_append] at lengths fewer ⊢
  omega

/-- `strtol` reads the longest numeral in front of a text. -/
theorem strtol_eq (text : List Char) :
    strtol text =
      if longestPrefix IsNumeral text = 0 then (0, 0)
      else (saturate (numeralValue (text.take (longestPrefix IsNumeral text))),
        longestPrefix IsNumeral text) := by
  by_cases found : (splitSign (text.dropWhile isSpace)).2.takeWhile Char.isDigit = []
  · have none : longestPrefix IsNumeral text = 0 := by
      apply longestPrefix_eq_zero
      rintro part rest rfl numeral
      rw [numeral.split_append, List.takeWhile_append_of_pos numeral.2] at found
      exact numeral.1 (List.append_eq_nil_iff.mp found).1
    simp [strtol, found, none]
  · obtain ⟨part, rest, negative, digits, rfl, numeral, partRead, read, maximal⟩ :=
      numeral_front found
    have longest : longestPrefix IsNumeral (part ++ rest) = part.length := by
      refine longestPrefix_append numeral fun longer tail same long => ?_
      have bound := long.length_le same read maximal
      simpa using bound
    have inside : digits.length ≤ part.length := by
      have suffix := (splitSign_suffix (part.dropWhile isSpace)).trans (List.dropWhile_suffix _)
      rw [partRead] at suffix
      exact suffix.length_le
    have nonempty : digits ≠ [] := by
      have := numeral.1
      rwa [partRead] at this
    have positive : part.length ≠ 0 := by
      have := List.length_pos_of_ne_nil nonempty
      omega
    have consumed :
        (part ++ rest).length - (digits ++ rest).length + digits.length = part.length := by
      simp only [List.length_append]
      omega
    rw [longest, if_neg positive, List.take_left]
    simp only [strtol, read, maximal, nonempty, consumed, numeralValue, partRead, saturate, if_false]

theorem IsNumeral.no_ampersand {text : List Char} (numeral : IsNumeral text) : '&' ∉ text := by
  intro member
  rw [← List.takeWhile_append_dropWhile (p := isSpace) (l := text), List.mem_append] at member
  rcases member with space | body
  · exact absurd (List.mem_takeWhile_imp space) (by decide)
  · have digit : '&' ∈ (splitSign (text.dropWhile isSpace)).2 := by
      generalize text.dropWhile isSpace = rest at body
      fun_cases splitSign rest with
      | case1 | case2 => simpa using body
      | case3 => exact body
    exact absurd (numeral.2 _ digit) (by decide)

theorem parseValue_eq (text : List Char) (ordered : min ≤ max) :
    parseValue text fallback min max = referenceValue text fallback min max := by
  rw [parseValue, strtol_eq, referenceValue]
  by_cases none : longestPrefix IsNumeral text = 0
  · simp [none]
  · simp only [none, if_false]
    generalize saturate _ = value
    split
    · omega
    · split <;> omega

/-- The value of a segment ends with the segment. -/
theorem referenceValue_stop (value rest : List Char) :
    referenceValue (value ++ '&' :: rest) fallback min max = referenceValue value fallback min max := by
  have length := longestPrefix_stop (fun _ => IsNumeral.no_ampersand) value rest
  have inside := longestPrefix_le IsNumeral value
  rw [referenceValue, referenceValue, length, List.take_append_of_le_length inside]

theorem nextSegment_append {segment : List Char} (plain : '&' ∉ segment) (rest : List Char) :
    nextSegment (segment ++ '&' :: rest) = some rest := by
  have inside : ∀ c ∈ segment, decide (c ≠ '&') = true := by
    intro c member
    simpa using ne_of_mem_of_not_mem member plain
  rw [nextSegment, List.dropWhile_append_of_pos inside, List.dropWhile_cons_of_neg (by decide)]

theorem nextSegment_plain {p : List Char} (plain : '&' ∉ p) : nextSegment p = none := by
  have inside : ∀ c ∈ p, decide (c ≠ '&') = true := by
    intro c member
    simpa using ne_of_mem_of_not_mem member plain
  have none : p.dropWhile (· ≠ '&') = [] := List.dropWhile_eq_nil_iff.mpr inside
  rw [nextSegment, none]

/-- The two ways in which the walk goes on: this is the last segment, or another one follows. -/
theorem segments_cases (query : List Char) :
    (nextSegment query = none ∧ query.splitOn '&' = [query]) ∨
      ∃ segment rest, query = segment ++ '&' :: rest ∧ nextSegment query = some rest ∧
        query.splitOn '&' = segment :: rest.splitOn '&' := by
  by_cases found : '&' ∈ query
  · obtain ⟨segment, rest, rfl, plain⟩ := List.eq_append_cons_of_mem found
    exact .inr ⟨segment, rest, rfl, nextSegment_append plain rest,
      List.splitOn_append_cons_self_of_not_mem plain _⟩
  · exact .inl ⟨nextSegment_plain found, List.splitOn_eq_singleton found⟩

theorem matches_iff (p : List Char) :
    key.isPrefixOf p ∧ p[key.length]? = some '=' ↔ (key ++ ['=']).isPrefixOf p := by
  rw [List.isPrefixOf_iff_prefix, List.isPrefixOf_iff_prefix]
  constructor
  · rintro ⟨⟨rest, rfl⟩, equals⟩
    rw [List.getElem?_append_right le_rfl, Nat.sub_self] at equals
    cases rest with
    | nil => cases equals
    | cons c rest =>
        cases equals
        exact ⟨rest, by simp⟩
  · rintro ⟨rest, rfl⟩
    simp

/-- A key without an ampersand is found inside a segment or not at all. -/
theorem key_in_segment (plain : '&' ∉ key) (segment rest : List Char) :
    (key ++ ['=']).isPrefixOf (segment ++ '&' :: rest) = (key ++ ['=']).isPrefixOf segment := by
  rw [Bool.eq_iff_iff, List.isPrefixOf_iff_prefix, List.isPrefixOf_iff_prefix]
  refine ⟨fun found => ?_, fun found => found.trans (List.prefix_append ..)⟩
  rcases List.prefix_or_prefix_of_prefix found (List.prefix_append ..) with inside | ⟨more, same⟩
  · exact inside
  · rw [← same, List.prefix_append_right_inj] at found
    cases more with
    | nil => exact ⟨[], by simpa using same.symm⟩
    | cons c more =>
        obtain ⟨rfl, _⟩ := List.cons_prefix_cons.mp found
        have member : '&' ∈ key ++ ['='] := by simp [← same]
        simp [plain] at member

theorem queryInt_eq (plain : '&' ∉ key) (ordered : min ≤ max) :
    queryInt query key fallback min max = queryReference query key fallback min max := by
  fun_induction queryInt query key fallback min max with
  | case1 => simp [queryReference]
  | case2 query _ found =>
      rw [matches_iff] at found
      rw [parseValue_eq _ ordered]
      rcases segments_cases query with ⟨_, only⟩ | ⟨segment, rest, rfl, _, first⟩
      · simp [queryReference, only, found]
      · have inSegment := found
        rw [key_in_segment plain] at inSegment
        simp only [queryReference, first, List.find?_cons, inSegment]
        have short := (List.isPrefixOf_iff_prefix.mp inSegment).length_le
        rw [List.length_append, List.length_singleton] at short
        rw [List.drop_append_of_le_length short, referenceValue_stop]
  | case3 query _ other last =>
      rw [matches_iff] at other
      rcases segments_cases query with ⟨_, only⟩ | ⟨segment, rest, rfl, next, _⟩
      · simp [queryReference, only, other]
      · cases last.symm.trans next
  | case4 query _ other rest next ih =>
      rw [matches_iff] at other
      rcases segments_cases query with ⟨last, _⟩ | ⟨segment, others, rfl, step, first⟩
      · cases last.symm.trans next
      · cases step.symm.trans next
        rw [key_in_segment plain, Bool.not_eq_true] at other
        rw [ih, queryReference, queryReference, first, List.find?_cons, other]

/-- `query_int` meets its reference and stays within its bounds. -/
theorem queryInt_meets_reference (query key : List Char) (fallback min max : Int)
    (plain : '&' ∉ key) (lower : min ≤ fallback) (upper : fallback ≤ max) :
    queryInt query key fallback min max = queryReference query key fallback min max ∧
      min ≤ queryInt query key fallback min max ∧ queryInt query key fallback min max ≤ max :=
  ⟨queryInt_eq plain (Int.le_trans lower upper), queryInt_bounds query key lower upper⟩

theorem queryInt_meets_reference_secondSegment :
    queryInt "ww=7&w= +99999999999999999999&w=3".toList ['w'] 640 16 2048 =
        queryReference "ww=7&w= +99999999999999999999&w=3".toList ['w'] 640 16 2048 ∧
      16 ≤ queryInt "ww=7&w= +99999999999999999999&w=3".toList ['w'] 640 16 2048 ∧
      queryInt "ww=7&w= +99999999999999999999&w=3".toList ['w'] 640 16 2048 ≤ 2048 :=
  queryInt_meets_reference _ ['w'] 640 16 2048 (by decide) (by decide) (by decide)

example : queryReference "ww=7&w= +99&w=3".toList ['w'] 640 16 2048 = 99 := by decide +kernel

end ThreadPool.Server
