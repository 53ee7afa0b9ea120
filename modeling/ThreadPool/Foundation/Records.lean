import ThreadPool.Foundation.Readers

namespace ThreadPool.Foundation

/-! # Records of numbers

The text of a record is the one of a JSON object whose members are integers, without white space.
-/

abbrev Member := List Char × Int

def Member.text (member : Member) : List Char :=
  ['"'] ++ (member.1 ++ ['"'] ++ ([':'] ++ (toString member.2).toList))

/-- A comma says that another member follows, a brace that this is the last. -/
def memberEnd (stop : Char) (member : Member) : Option (Member ⊕ Member) :=
  if stop = ',' then some (.inl member) else if stop = '\x7d' then some (.inr member) else none

def readMember : Reader Char (Member ⊕ Member) := do
  readSymbol '"'
  let (name, _) ← readSpan (· ≠ '"')
  readSymbol ':'
  let (digits, stop) ← readSpan fun c => c.isDigit || c = '-'
  let value ← liftM (integer digits)
  liftM (memberEnd stop (name, value))

def readRecord : Reader Char (List Member) := do
  readSymbol '\x7b'
  let (members, last) ← readMany readMember
  return members ++ [last]

def recordText (members : List Member) (last : Member) : List Char :=
  ['\x7b'] ++ (members.flatMap (fun member => member.text ++ [',']) ++ (last.text ++ ['\x7d']))

theorem readMember_spells {member : Member} {stop : Char} {result : Member ⊕ Member}
    (plain : '"' ∉ member.1) (outside : (stop.isDigit || stop = '-') = false)
    (ends : memberEnd stop member = some result) : Spells readMember (member.text ++ [stop]) result := by
  have name : Spells (readSpan (· ≠ '"')) (member.1 ++ ['"']) (member.1, '"') := readUntil_spells plain
  have digits : Spells (readSpan fun c => c.isDigit || c = '-') ((toString member.2).toList ++ [stop])
      ((toString member.2).toList, stop) :=
    readSpan_spells (fun c inside => toString_digit inside) outside
  have spelled : member.text ++ [stop] = ['"'] ++ (member.1 ++ ['"'] ++ ([':'] ++
      ((toString member.2).toList ++ [stop]))) := by simp [Member.text]
  rw [spelled]
  exact (readSymbol_spells '"').bind (name.bind ((readSymbol_spells ':').bind
    (digits.finish ((Spells.lift (integer_toString member.2)).finish (Spells.lift ends)))))

/-- A record is read back, whatever its numbers are. -/
theorem readRecord_spells {members : List Member} {last : Member}
    (plain : ∀ member ∈ members, '"' ∉ member.1) (final : '"' ∉ last.1) :
    Spells readRecord (recordText members last) (members ++ [last]) := by
  have each : ∀ member ∈ members, Spells readMember (member.text ++ [',']) (.inl member) :=
    fun member inside => readMember_spells (plain member inside) (by decide) rfl
  have ending : Spells readMember (last.text ++ ['\x7d']) (.inr last) :=
    readMember_spells final (by decide) rfl
  have many := readMany_spells each (by simp) ending
  exact (readSymbol_spells '\x7b').bind (many.finish (Spells.pure _))

/-- A symbol that is in no name and no part of the notation is nowhere in a record. -/
theorem recordText_avoids {members : List Member} {last : Member} {c : Char}
    (digits : (c.isDigit || c = '-') = false) (marks : c ∉ ['"', ':', ',', '\x7b', '\x7d'])
    (names : ∀ member ∈ members, c ∉ member.1) (final : c ∉ last.1) : c ∉ recordText members last := by
  have member : ∀ member : Member, c ∉ member.1 → c ∉ member.text := by
    intro member name inside
    have number : c ∉ (toString member.2).toList := fun found => by
      rw [toString_digit found] at digits
      cases digits
    simp only [List.mem_cons, not_or] at marks
    simp only [Member.text, List.mem_append, List.mem_singleton, name, number, marks.1, marks.2.1,
      or_self] at inside
  simp only [List.mem_cons, not_or] at marks
  simp only [recordText, List.mem_append, List.mem_flatMap, List.mem_singleton, not_or, not_exists,
    not_and]
  exact ⟨marks.2.2.2.1, fun other inside => ⟨member other (names other inside), marks.2.2.1⟩,
    member last final, marks.2.2.2.2.1⟩

end ThreadPool.Foundation
