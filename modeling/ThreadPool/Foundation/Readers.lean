import ThreadPool.Foundation.Text

namespace ThreadPool.Foundation

/-! # Readers

A reader takes a value off the front of a stream and leaves the rest, so that readers compose.
A firm reader does not change its answer when more of the stream arrives; what was cut
short is then never taken for the whole.
-/

abbrev Reader (σ α : Type) := StateT (List σ) Option α

section Readers

variable {σ α β : Type} {reader : Reader σ α} {text part rest : List σ} {value : α}

/-- The text spells the value, whatever comes behind it. -/
def Spells (reader : Reader σ α) (text : List σ) (value : α) : Prop :=
  ∀ rest, reader (text ++ rest) = some (value, rest)

def Firm (reader : Reader σ α) : Prop :=
  ∀ ⦃text value rest⦄, reader text = some (value, rest) →
    ∀ more, reader (text ++ more) = some (value, rest ++ more)

theorem Spells.whole (spells : Spells reader text value) : reader text = some (value, []) := by
  simpa using spells []

theorem Spells.pure (value : α) : Spells (Pure.pure value : Reader σ α) [] value := fun _ => rfl

theorem Spells.lift {found : Option α} (here : found = some value) :
    Spells (liftM found : Reader σ α) [] value := by
  subst here
  exact fun _ => rfl

theorem Spells.bind {next : α → Reader σ β} {result : β} (first : Spells reader text value)
    (second : Spells (next value) part result) : Spells (reader >>= next) (text ++ part) result := by
  intro rest
  show (reader (text ++ part ++ rest)).bind (fun found => next found.1 found.2) = _
  rw [List.append_assoc, first (part ++ rest)]
  exact second rest

/-- As `Spells.bind`, where the second reader takes nothing. -/
theorem Spells.finish {next : α → Reader σ β} {result : β} (first : Spells reader text value)
    (second : Spells (next value) [] result) : Spells (reader >>= next) text result := by
  simpa using first.bind second

theorem Firm.pure (value : α) : Firm (Pure.pure value : Reader σ α) := by
  intro text _ rest read more
  cases read
  rfl

theorem Firm.lift (found : Option α) : Firm (liftM found : Reader σ α) := by
  intro text value rest read more
  cases found with
  | none => cases read
  | some inner =>
      cases read
      rfl

theorem Firm.bind {next : α → Reader σ β} (first : Firm reader)
    (second : ∀ value, Firm (next value)) : Firm (reader >>= next) := by
  intro text result rest read more
  obtain ⟨⟨value, middle⟩, taken, left⟩ := Option.bind_eq_some_iff.mp read
  show (reader (text ++ more)).bind (fun found => next found.1 found.2) = _
  rw [first taken more]
  exact second value left more

/-- A firm reader waits for the rest of what it has seen only a part of. -/
theorem Firm.truncated (firm : Firm reader) (spells : Spells reader text value)
    (front : part <+: text) (short : part ≠ text) : reader part = none := by
  obtain ⟨more, rfl⟩ := front
  cases read : reader part with
  | none => rfl
  | some result =>
      obtain ⟨found, rest⟩ := result
      have extended := firm read more
      rw [spells.whole] at extended
      have ended : rest ++ more = [] := by simpa using (congrArg Prod.snd (Option.some.inj extended)).symm
      exact absurd (by simp [(List.append_eq_nil_iff.mp ended).2]) short

/-! ## Pieces -/

theorem ne_of_avoids [DecidableEq σ] {run : List σ} {stop : σ} (plain : stop ∉ run) :
    ∀ c ∈ run, decide (c ≠ stop) = true := by
  intro c member
  have different : c ≠ stop := by
    rintro rfl
    exact plain member
  simp [different]

/-- The longest run of symbols with a property, and the symbol that ends it. -/
def readSpan (p : σ → Bool) : Reader σ (List σ × σ) := fun text =>
  match text.dropWhile p with
  | [] => none
  | stop :: rest => some ((text.takeWhile p, stop), rest)

theorem readSpan_spells {p : σ → Bool} {run : List σ} {stop : σ} (inside : ∀ c ∈ run, p c = true)
    (ends : p stop = false) : Spells (readSpan p) (run ++ [stop]) (run, stop) := by
  intro rest
  have spelled : run ++ [stop] ++ rest = run ++ stop :: rest := by simp
  rw [readSpan, spelled, List.dropWhile_append_of_pos inside, List.takeWhile_append_of_pos inside,
    List.dropWhile_cons_of_neg (by simp [ends]), List.takeWhile_cons_of_neg (by simp [ends]),
    List.append_nil]

/-- A run up to a symbol that it does not contain. -/
theorem readUntil_spells [DecidableEq σ] {run : List σ} {stop : σ} (plain : stop ∉ run) :
    Spells (readSpan (· ≠ stop)) (run ++ [stop]) (run, stop) :=
  readSpan_spells (ne_of_avoids plain) (by simp)

theorem readSpan_firm (p : σ → Bool) : Firm (readSpan p) := by
  intro text value rest read more
  rw [readSpan] at read ⊢
  cases behind : text.dropWhile p with
  | nil => simp [behind] at read
  | cons stop after =>
      have split := List.takeWhile_append_dropWhile (p := p) (l := text)
      have shorter : (text.takeWhile p).length ≠ text.length := by
        rw [behind] at split
        have counted := congrArg List.length split
        simp at counted
        omega
      rw [behind] at read
      cases read
      simp [List.dropWhile_append, List.takeWhile_append, behind, shorter]

def readSymbol [DecidableEq σ] (symbol : σ) : Reader σ Unit
  | [] => none
  | c :: rest => if c = symbol then some ((), rest) else none

theorem readSymbol_spells [DecidableEq σ] (symbol : σ) : Spells (readSymbol symbol) [symbol] () := by
  intro rest
  simp [readSymbol]

def readExactly (count : Nat) : Reader σ (List σ) := fun text =>
  if text.length < count then none else some (text.take count, text.drop count)

theorem readExactly_spells (text : List σ) : Spells (readExactly text.length) text text := by
  intro rest
  rw [readExactly, if_neg (by simp), List.take_left, List.drop_left]

theorem readExactly_firm (count : Nat) : Firm (readExactly count : Reader σ (List σ)) := by
  intro text value rest read more
  rw [readExactly] at read ⊢
  split at read
  · cases read
  · rename_i enough
    cases read
    rw [if_neg (by simp; omega), List.take_append_of_le_length (by omega),
      List.drop_append_of_le_length (by omega)]

/-! ## Sequences

An item that is not the last comes as `inl`.
-/

def readLoop (item : Reader σ (α ⊕ β)) : Nat → Reader σ (List α × β)
  | 0 => liftM (none : Option (List α × β))
  | fuel + 1 => item >>= fun found =>
      match found with
      | .inl value => readLoop item fuel >>= fun (values, last) => Pure.pure (value :: values, last)
      | .inr last => Pure.pure ([], last)

/-- The items up to the last one; each takes at least one symbol. -/
def readMany (item : Reader σ (α ⊕ β)) : Reader σ (List α × β) := fun text =>
  readLoop item (text.length + 1) text

variable {item : Reader σ (α ⊕ β)} {values : List α} {spell : α → List σ} {last : β}

theorem readLoop_spells (each : ∀ value ∈ values, Spells item (spell value) (.inl value))
    (ends : Spells item text (.inr last)) :
    ∀ {fuel}, values.length < fuel →
      Spells (readLoop item fuel) (values.flatMap spell ++ text) (values, last) := by
  induction values with
  | nil =>
      intro fuel enough
      obtain ⟨fuel, rfl⟩ := Nat.exists_eq_add_one_of_ne_zero (Nat.ne_of_gt enough)
      exact ends.finish (Spells.pure _)
  | cons value values ih =>
      intro fuel enough
      obtain ⟨fuel, rfl⟩ := Nat.exists_eq_add_one_of_ne_zero (Nat.ne_of_gt (Nat.zero_lt_of_lt enough))
      have later : Spells (readLoop item fuel) (values.flatMap spell ++ text) (values, last) :=
        ih (fun other member => each other (by simp [member])) (Nat.lt_of_succ_lt_succ enough)
      rw [List.flatMap_cons, List.append_assoc]
      exact (each value (by simp)).bind (later.finish (Spells.pure _))

theorem length_le_flatMap (nonempty : ∀ value ∈ values, spell value ≠ []) :
    values.length ≤ (values.flatMap spell).length := by
  induction values with
  | nil => simp
  | cons value values ih =>
      have here := List.length_pos_iff.mpr (nonempty value (by simp))
      have later := ih fun other member => nonempty other (by simp [member])
      simp only [List.flatMap_cons, List.length_append, List.length_cons]
      omega

theorem readMany_spells (each : ∀ value ∈ values, Spells item (spell value) (.inl value))
    (nonempty : ∀ value ∈ values, spell value ≠ []) (ends : Spells item text (.inr last)) :
    Spells (readMany item) (values.flatMap spell ++ text) (values, last) := by
  intro rest
  have bound := length_le_flatMap nonempty
  exact readLoop_spells each ends (by simp only [List.length_append]; omega) rest

theorem readLoop_more (firm : Firm item) :
    ∀ {fuel more : Nat} {text rest : List σ} {result : List α × β}, fuel ≤ more →
      readLoop item fuel text = some (result, rest) →
      ∀ behind, readLoop item more (text ++ behind) = some (result, rest ++ behind) := by
  intro fuel
  induction fuel with
  | zero =>
      intro more text rest result _ read
      cases read
  | succ fuel ih =>
      intro more text rest result enough read behind
      obtain ⟨more, rfl⟩ := Nat.exists_eq_add_one_of_ne_zero (by omega : more ≠ 0)
      obtain ⟨⟨found, middle⟩, taken, left⟩ := Option.bind_eq_some_iff.mp read
      show (item (text ++ behind)).bind _ = _
      rw [firm taken behind]
      cases found with
      | inr final =>
          cases left
          rfl
      | inl value =>
          obtain ⟨⟨⟨values, final⟩, after⟩, looped, made⟩ := Option.bind_eq_some_iff.mp left
          cases made
          show (readLoop item more (middle ++ behind)).bind _ = _
          rw [ih (Nat.le_of_succ_le_succ enough) looped behind]
          rfl

theorem readMany_firm (firm : Firm item) : Firm (readMany item) := by
  intro text result rest read more
  exact readLoop_more firm (by simp) read more

end Readers

/-! ## Numbers -/

/-- The number that a text spells in base ten. -/
def numeral (text : List Char) : Option Nat :=
  if text ≠ [] ∧ text.all Char.isDigit then some (Nat.ofDigitChars 10 text 0) else none

theorem numeral_decimal (value : Nat) : numeral (decimal value) = some value := by
  have digits : (decimal value).all Char.isDigit = true :=
    List.all_eq_true.mpr fun _ member => decimal_isDigit member
  rw [numeral, if_pos ⟨Nat.toDigits_ne_nil, digits⟩, decimal,
    Nat.ofDigitChars_toDigits (by decide) (by decide)]

/-- As `numeral`, with a minus in front of a negative number. -/
def integer : List Char → Option Int
  | '-' :: digits => (numeral digits).map fun value => -(value : Int)
  | digits => (numeral digits).map Int.ofNat

theorem integer_decimal (value : Nat) : integer (decimal value) = some (value : Int) := by
  rw [integer, numeral_decimal]
  · rfl
  · intro digits front
    have minus : '-' ∈ decimal value := by simp [front]
    exact absurd (decimal_isDigit minus) (by decide)

theorem toString_nonneg (value : Nat) : (toString (value : Int)).toList = decimal value :=
  Nat.toList_repr

theorem toString_negSucc (value : Nat) :
    (toString (Int.negSucc value)).toList = '-' :: decimal (value + 1) := by
  show ("-" ++ (value + 1).repr).toList = _
  rw [String.toList_append, Nat.toList_repr]
  rfl

theorem integer_toString (value : Int) : integer (toString value).toList = some value := by
  cases value with
  | ofNat value =>
      rw [Int.ofNat_eq_natCast, toString_nonneg]
      exact integer_decimal value
  | negSucc value =>
      rw [toString_negSucc, integer, numeral_decimal]
      rfl

theorem toString_digit {value : Int} {c : Char} (member : c ∈ (toString value).toList) :
    (c.isDigit || c = '-') = true := by
  cases value with
  | ofNat value =>
      rw [Int.ofNat_eq_natCast, toString_nonneg] at member
      simp [decimal_isDigit member]
  | negSucc value =>
      rw [toString_negSucc, List.mem_cons] at member
      rcases member with rfl | inside
      · decide
      · simp [decimal_isDigit inside]

end ThreadPool.Foundation
