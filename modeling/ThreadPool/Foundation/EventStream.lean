import ThreadPool.Foundation.Text

namespace ThreadPool.Foundation

/-! # Event streams

A stream of events consists of lines. A line of the field `data` adds to the event that is
being read, an empty line ends it, and every other line is passed over; one that starts with
a colon is a comment. What comes behind the last empty line is not an event.
-/

/-- The lines that are ended by a newline; `line` is what the first of them begins with. -/
def completeLines (line : List Char) : List Char → List (List Char)
  | [] => []
  | c :: rest => if c = '\n' then line :: completeLines [] rest else completeLines (line ++ [c]) rest

/-- The value of a line of the field `data`, without the space behind the colon. -/
def dataValue (line : List Char) : Option (List Char) :=
  if line.takeWhile (· ≠ ':') = ['d', 'a', 't', 'a'] then
    match (line.dropWhile (· ≠ ':')).tail with
    | ' ' :: value => some value
    | value => some value
  else none

/-- The events of a list of lines, where the event being read has some values already. -/
def eventsOf (values : List (List Char)) : List (List Char) → List (List Char)
  | [] => []
  | [] :: lines =>
      if values = [] then eventsOf [] lines else ['\n'].intercalate values :: eventsOf [] lines
  | line :: lines => eventsOf (values ++ (dataValue line).toList) lines

def readEvents (text : List Char) : List (List Char) := eventsOf [] (completeLines [] text)

theorem eventsOf_cons {line : List Char} (nonempty : line ≠ []) (values lines : List (List Char)) :
    eventsOf values (line :: lines) = eventsOf (values ++ (dataValue line).toList) lines := by
  cases line with
  | nil => contradiction
  | cons c line => rfl

theorem completeLines_line {line : List Char} (plain : '\n' ∉ line) (front rest : List Char) :
    completeLines front (line ++ '\n' :: rest) = (front ++ line) :: completeLines [] rest := by
  induction line generalizing front with
  | nil => simp [completeLines]
  | cons c line ih =>
      have here : c ≠ '\n' := fun same => plain (by simp [same])
      rw [List.cons_append, completeLines, if_neg here, ih (fun member => plain (by simp [member]))]
      simp

theorem completeLines_open {line : List Char} (plain : '\n' ∉ line) (front : List Char) :
    completeLines front line = [] := by
  induction line generalizing front with
  | nil => rfl
  | cons c line ih =>
      have here : c ≠ '\n' := fun same => plain (by simp [same])
      rw [completeLines, if_neg here]
      exact ih (fun member => plain (by simp [member])) _

/-! ## Entries -/

/-- An event of one line, or a comment. -/
inductive Entry where
  | data (payload : List Char)
  | comment (text : List Char)

namespace Entry

variable {entry : Entry} {entries : List Entry}

def line : Entry → List Char
  | data payload => ['d', 'a', 't', 'a', ':', ' '] ++ payload
  | comment text => ':' :: text

def text (entry : Entry) : List Char := entry.line ++ ['\n', '\n']

def payload : Entry → Option (List Char)
  | data payload => some payload
  | comment _ => none

theorem line_ne_nil : entry.line ≠ [] := by
  cases entry <;> simp [line]

theorem dataValue_line : dataValue entry.line = entry.payload := by
  cases entry with
  | data payload => simp [dataValue, line, Entry.payload]
  | comment text => simp [dataValue, line, Entry.payload]

theorem eventsOf_line (lines : List (List Char)) :
    eventsOf [] (entry.line :: [] :: lines) = entry.payload.toList ++ eventsOf [] lines := by
  rw [eventsOf_cons line_ne_nil, dataValue_line, List.nil_append, eventsOf]
  cases entry.payload with
  | none => rfl
  | some payload => simp [List.intercalate]

theorem readEvents_text (plain : '\n' ∉ entry.line) (rest : List Char) :
    readEvents (entry.text ++ rest) = entry.payload.toList ++ readEvents rest := by
  have split : entry.text ++ rest = entry.line ++ '\n' :: ([] ++ '\n' :: rest) := by simp [text]
  rw [readEvents, split, completeLines_line plain, completeLines_line List.not_mem_nil,
    List.nil_append, List.nil_append, eventsOf_line, readEvents]

/-- An entry that was broken off is no event. -/
theorem readEvents_part {part : List Char} (plain : '\n' ∉ entry.line) (front : part <+: entry.text)
    (short : part ≠ entry.text) : readEvents part = [] := by
  have ending : entry.text = entry.line ++ ['\n'] ++ ['\n'] := by simp [text]
  rw [ending, List.prefix_concat_iff] at front
  rcases front with whole | front
  · exact absurd (whole.trans ending.symm) short
  rcases List.prefix_concat_iff.mp front with line | inside
  · rw [readEvents, line, completeLines_line plain, completeLines, List.nil_append,
      eventsOf_cons line_ne_nil, eventsOf]
  · rw [readEvents, completeLines_open fun member => plain (inside.subset member), eventsOf]

/-- A reader gets the payloads in the order in which the entries were sent. -/
theorem readEvents_entries (plain : ∀ entry ∈ entries, '\n' ∉ entry.line) (rest : List Char) :
    readEvents (entries.flatMap text ++ rest) = entries.filterMap payload ++ readEvents rest := by
  induction entries with
  | nil => rfl
  | cons entry entries ih =>
      rw [List.flatMap_cons, List.append_assoc, readEvents_text (plain entry (by simp)),
        ih fun other member => plain other (by simp [member])]
      cases found : entry.payload <;> simp [found]

end Entry

end ThreadPool.Foundation
