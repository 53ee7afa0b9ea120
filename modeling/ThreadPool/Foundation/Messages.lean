import ThreadPool.Foundation.Readers

namespace ThreadPool.Foundation

/-! # Messages with a head

A message is a start line and fields, each ended by a carriage return and a newline, then an
empty line and the body. The field `Content-Length` gives the length of the body.
-/

def lineEnd : List Char := ['\r', '\n']

def readLine : Reader Char (List Char) := do
  let (line, _) ← readSpan (· ≠ '\n')
  liftM (if line.getLast? = some '\r' then some line.dropLast else none)

theorem readLine_spells {line : List Char} (plain : '\n' ∉ line) :
    Spells readLine (line ++ lineEnd) line := by
  have span : Spells (readSpan (· ≠ '\n')) (line ++ ['\r'] ++ ['\n']) (line ++ ['\r'], '\n') :=
    readUntil_spells (by simp [plain])
  rw [List.append_assoc] at span
  exact span.finish (Spells.lift (by simp))

theorem readLine_firm : Firm readLine :=
  (readSpan_firm _).bind fun _ => Firm.lift _

/-- A name and a value, with a colon and a space between them. -/
abbrev Field := List Char × List Char

def Field.line (field : Field) : List Char := field.1 ++ ':' :: ' ' :: field.2

def splitField (line : List Char) : Option Field :=
  match line.dropWhile (· ≠ ':') with
  | ':' :: ' ' :: value => some (line.takeWhile (· ≠ ':'), value)
  | _ => none

structure Field.Plain (field : Field) : Prop where
  name : ':' ∉ field.1 ∧ '\n' ∉ field.1
  value : '\n' ∉ field.2

theorem splitField_line {field : Field} (plain : field.Plain) : splitField field.line = some field := by
  have inside := ne_of_avoids plain.name.1
  rw [splitField, Field.line, List.dropWhile_append_of_pos inside, List.takeWhile_append_of_pos inside]
  simp

/-- A field, or the empty line behind the last one. -/
def readField : Reader Char (Field ⊕ Unit) := do
  let line ← readLine
  liftM (if line = [] then some (.inr ()) else (splitField line).map .inl)

theorem readField_firm : Firm readField :=
  readLine_firm.bind fun _ => Firm.lift _

theorem readField_field {field : Field} (plain : field.Plain) :
    Spells readField (field.line ++ lineEnd) (.inl field) := by
  have newline : '\n' ∉ field.line := by
    simp [Field.line, plain.name.2, plain.value]
  have nonempty : field.line ≠ [] := by simp [Field.line]
  exact (readLine_spells newline).finish (Spells.lift (by simp [nonempty, splitField_line plain]))

theorem readField_end : Spells readField lineEnd (.inr ()) := by
  have empty : Spells readLine lineEnd [] := @readLine_spells [] List.not_mem_nil
  exact empty.finish (Spells.lift rfl)

structure Head where
  start : List Char
  fields : List Field

namespace Head

variable {head : Head} {body : List Char}

def text (head : Head) : List Char :=
  head.start ++ lineEnd ++ (head.fields.flatMap (fun field => field.line ++ lineEnd) ++ lineEnd)

structure Plain (head : Head) : Prop where
  start : '\n' ∉ head.start
  fields : ∀ field ∈ head.fields, field.Plain

def value (head : Head) (name : List Char) : Option (List Char) :=
  (head.fields.find? (·.1 = name)).map Prod.snd

theorem value_here {start name content : List Char} {fields : List Field} :
    value ⟨start, (name, content) :: fields⟩ name = some content := by
  simp [value]

theorem value_later {start name : List Char} {field : Field} {fields : List Field}
    (other : field.1 ≠ name) : value ⟨start, field :: fields⟩ name = value ⟨start, fields⟩ name := by
  simp [value, other]

def contentLength (head : Head) : Option Nat := do
  let digits ← head.value "Content-Length".toList
  numeral digits

end Head

def readHead : Reader Char Head := do
  let start ← readLine
  let (fields, _) ← readMany readField
  return { start, fields }

theorem readHead_spells {head : Head} (plain : head.Plain) : Spells readHead head.text head := by
  have fields := readMany_spells (fun field member => readField_field (plain.fields field member))
    (by simp [lineEnd]) readField_end
  exact (readLine_spells plain.start).bind (fields.finish (Spells.pure _))

theorem readHead_firm : Firm readHead :=
  readLine_firm.bind fun _ => (readMany_firm readField_firm).bind fun _ => Firm.pure _

/-- A head, and as many characters behind it as it announces. -/
def readMessage : Reader Char (Head × List Char) := do
  let head ← readHead
  let length ← liftM head.contentLength
  let body ← readExactly length
  return (head, body)

theorem readMessage_spells {head : Head} {body : List Char} (plain : head.Plain)
    (announced : head.contentLength = some body.length) :
    Spells readMessage (head.text ++ body) (head, body) := by
  have taken : Spells (readExactly body.length >>= fun body => Pure.pure (head, body)) body
      (head, body) := (readExactly_spells body).finish (Spells.pure _)
  exact (readHead_spells plain).bind ((Spells.lift announced).bind taken)

theorem readMessage_firm : Firm readMessage :=
  readHead_firm.bind fun _ => (Firm.lift _).bind fun _ =>
    (readExactly_firm _).bind fun _ => Firm.pure _

end ThreadPool.Foundation
