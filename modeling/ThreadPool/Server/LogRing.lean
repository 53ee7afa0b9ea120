import ThreadPool.Foundation.Buffers
import ThreadPool.Foundation.Ring
import ThreadPool.Foundation.Text
import Mathlib.Algebra.Group.Action.Defs
import Mathlib.Algebra.Order.BigOperators.Group.List

namespace ThreadPool.Server

open Foundation

/-! # The request log

The last lines of the log are kept in a ring of fixed-size slots, each of which
holds a C string. `log_ring_copy` concatenates them into a buffer.
-/

def logRingSize : Nat := 256

def logLineMax : Nat := 256

/-- `log_ring_t`; a slot is the C string it holds. -/
abbrev LogRing := Ring (List Char) logRingSize

def logRingInit : LogRing := .empty (fun _ => []) (by decide)

/-- `snprintf` cuts the line to its slot. -/
def logRingAppend (ring : LogRing) (line : List Char) : LogRing := ring.push (cut logLineMax line)

def nul : Char := '\x00'

/-- `snprintf(buf + used, size, "%s", line)`: what is stored, with its NUL. -/
def printLine (buf : Buffer Char) (used size : Nat) (line : List Char) : Option (Buffer Char) :=
  buf.storeAll (Buffer.entries used (cut size line ++ [nul]))

/-- The loop of `log_ring_copy` from slot number `i` on, with the final value of `used`. The
result of `snprintf` is the length of the line, so that its test for an error never holds. -/
def copyLines (ring : LogRing) (len : Nat) :
    (remaining i used : Nat) → Buffer Char → Option (Nat × Buffer Char)
  | 0, _, used, buf => some (used, buf)
  | remaining + 1, i, used, buf =>
      if used < len then do
        let line := ring.slots (ring.place i)
        let buf ← printLine buf used (len - used) line
        if line.length ≥ len - used then return (len - 1, buf)
        copyLines ring len remaining (i + 1) (used + line.length) buf
      else some (used, buf)

def logRingCopy (ring : LogRing) (buf : Buffer Char) (len : Nat) : Option (Nat × Buffer Char) := do
  let (used, buf) ← copyLines ring len ring.count 0 0 buf
  let buf ← buf.store used nul
  return (used, buf)

/-- The C string that starts at the first character of a buffer. -/
def cString (buf : Buffer Char) : List Char :=
  ((List.range buf.size).map buf.cell).takeWhile (· ≠ nul)

variable {ring : LogRing} {buf : Buffer Char} {copied text : List Char} {len : Nat}

theorem cString_of_holds (held : buf.Holds 0 (text ++ [nul])) (plain : nul ∉ text)
    (room : text.length < buf.size) : cString buf = text := by
  have front : (List.range text.length).map buf.cell = text := by
    refine List.ext_getElem (by simp) fun i short inside => ?_
    rw [List.getElem_map, List.getElem_range]
    have stored := (Buffer.holds_append.mp held).1 i text[i] (by simp)
    rwa [Nat.zero_add] at stored
  have terminator : buf.cell text.length = nul := by
    have stored := held text.length nul (by simp)
    rwa [Nat.zero_add] at stored
  obtain ⟨rest, size⟩ : ∃ rest, buf.size = text.length + (rest + 1) :=
    ⟨buf.size - text.length - 1, by omega⟩
  rw [cString, size, List.range_add, List.map_append, front, List.range_succ_eq_map]
  simp only [List.map_cons, Nat.add_zero, terminator]
  rw [List.takeWhile_append_of_pos]
  · simp
  · intro c member
    rw [decide_eq_true_eq]
    rintro rfl
    exact plain member

theorem printLine_spec {size : Nat} (line : List Char) (positive : 0 < size)
    (fits : copied.length + size ≤ buf.size) (held : buf.Holds 0 copied) :
    ∃ after, printLine buf copied.length size line = some after ∧ after.size = buf.size ∧
      after.Holds 0 (copied ++ cut size line) := by
  have width : (cut size line).length ≤ size - 1 := List.length_take_le ..
  obtain ⟨after, stored, same, written, frame⟩ := Buffer.storeAll_entries
    (show copied.length + (cut size line ++ [nul]).length ≤ buf.size by
      rw [List.length_append, List.length_singleton]
      omega)
  refine ⟨after, stored, same, Buffer.holds_append.mpr ⟨?_, ?_⟩⟩
  · exact held.congr fun i inside => frame i (.inl (by omega))
  · rw [Nat.zero_add]
    exact (Buffer.holds_append.mp written).1

/-- Between two lines the buffer holds what was copied, and there is room for a
NUL behind it. -/
theorem copyLines_spec (remaining i : Nat) (held : buf.Holds 0 copied)
    (room : copied.length < len) (fits : len ≤ buf.size) :
    ∃ after, copyLines ring len remaining i copied.length buf =
        some (((copied ++ ((List.range' i remaining).map fun k =>
          ring.slots (ring.place k)).flatten).take (len - 1)).length, after) ∧
      after.size = buf.size ∧
      after.Holds 0 ((copied ++ ((List.range' i remaining).map fun k =>
        ring.slots (ring.place k)).flatten).take (len - 1)) := by
  induction remaining generalizing i copied buf with
  | zero =>
      have whole : copied.take (len - 1) = copied := List.take_of_length_le (by omega)
      refine ⟨buf, ?_, rfl, ?_⟩ <;> simp [copyLines, whole, held]
  | succ remaining ih =>
      obtain ⟨middle, printed, size, holds⟩ := printLine_spec (ring.slots (ring.place i))
        (show 0 < len - copied.length by omega) (by omega) held
      rw [List.range'_succ, List.map_cons, List.flatten_cons, ← List.append_assoc]
      by_cases overflow : (ring.slots (ring.place i)).length ≥ len - copied.length
      · -- the line does not fit: the rest of the buffer is filled and the loop ends
        have filled : ((copied ++ ring.slots (ring.place i)) ++ ((List.range' (i + 1) remaining).map
            fun k => ring.slots (ring.place k)).flatten).take (len - 1) =
            copied ++ cut (len - copied.length) (ring.slots (ring.place i)) := by
          rw [List.take_append_of_le_length (by rw [List.length_append]; omega), List.take_append,
            List.take_of_length_le (by omega), cut]
          congr 2
          omega
        have length : (copied ++ cut (len - copied.length) (ring.slots (ring.place i))).length =
            len - 1 := by
          rw [List.length_append, cut, List.length_take]
          omega
        refine ⟨middle, ?_, size, ?_⟩
        · simp only [copyLines, if_pos room, printed, Option.bind_eq_bind, Option.bind_some,
            if_pos overflow, filled, length, Option.pure_def]
        · rw [filled]
          exact holds
      · rw [cut_eq_self (Nat.lt_of_not_le overflow)] at holds
        obtain ⟨after, copying, size', holds'⟩ := @ih middle (copied ++ ring.slots (ring.place i))
          (i + 1) holds (by rw [List.length_append]; omega) (by omega)
        refine ⟨after, ?_, size'.trans size, holds'⟩
        rw [← copying, List.length_append]
        simp only [copyLines, if_pos room, printed, Option.bind_eq_bind, Option.bind_some,
          if_neg overflow]

theorem logRingCopy_spec (positive : 1 ≤ len) (fits : len ≤ buf.size) :
    ∃ after, logRingCopy ring buf len =
        some ((ring.contents.flatten.take (len - 1)).length, after) ∧
      after.size = buf.size ∧
      after.Holds 0 (ring.contents.flatten.take (len - 1) ++ [nul]) := by
  obtain ⟨middle, copying, size, holds⟩ := @copyLines_spec ring buf [] len ring.count 0
    (by intro i value found; simp at found) positive fits
  rw [List.nil_append, ← List.range_eq_range'] at copying holds
  change copyLines ring len ring.count 0 0 buf =
    some ((ring.contents.flatten.take (len - 1)).length, middle) at copying
  change middle.Holds 0 (ring.contents.flatten.take (len - 1)) at holds
  have bound : (ring.contents.flatten.take (len - 1)).length ≤ len - 1 := List.length_take_le ..
  refine ⟨middle.put (ring.contents.flatten.take (len - 1)).length nul, ?_, size, ?_⟩
  · rw [logRingCopy, copying]
    have inside : (ring.contents.flatten.take (len - 1)).length < middle.size := by omega
    simp only [Option.bind_eq_bind, Option.bind_some, Buffer.store, if_pos inside]
    rfl
  · refine Buffer.holds_append.mpr ⟨?_, ?_⟩
    · refine holds.congr fun i inside => Buffer.put_cell_of_ne ?_
      omega
    · intro i value found
      cases i with
      | zero =>
          rw [Nat.zero_add, Nat.add_zero, Buffer.put_cell_self]
          exact Option.some.inj found
      | succ i => simp at found

/-- The ring after a sequence of calls. -/
def logRing (appended : List (List Char)) : LogRing := appended.foldl logRingAppend logRingInit

theorem logRing_contents (appended : List (List Char)) :
    (logRing appended).contents = (appended.rtake logRingSize).map (cut logLineMax) := by
  have pushes : logRing appended = (appended.map (cut logLineMax)).foldl Ring.push logRingInit := by
    rw [List.foldl_map]
    rfl
  rw [pushes, Ring.contents_pushAll, logRingInit, Ring.contents_empty, List.nil_append, List.rtake,
    List.rtake, List.length_map, List.map_drop]

/-- The concatenation of the most recent lines, as they are cut. -/
def recentText (appended : List (List Char)) : List Char :=
  ((appended.rtake logRingSize).map (cut logLineMax)).flatten

def adminLogsLen : Nat := logRingSize * logLineMax + 1

theorem recentText_length_lt (appended : List (List Char)) :
    (recentText appended).length < adminLogsLen := by
  have each : ∀ width ∈ ((appended.rtake logRingSize).map (cut logLineMax)).map List.length,
      width ≤ 255 := by
    intro width member
    obtain ⟨line, among, rfl⟩ := List.mem_map.mp member
    obtain ⟨_, _, rfl⟩ := List.mem_map.mp among
    exact List.length_take_le ..
  have total := List.sum_le_card_nsmul _ 255 each
  have lines : (appended.rtake logRingSize).length ≤ 256 := by
    rw [List.rtake, List.length_drop, logRingSize]
    omega
  have room : adminLogsLen = 65537 := rfl
  rw [recentText, List.length_flatten, room]
  simp only [List.length_map, smul_eq_mul] at total
  omega

theorem logRing_copied (appended : List (List Char)) (positive : 1 ≤ len) (fits : len ≤ buf.size) :
    ∃ after, logRingCopy (logRing appended) buf len =
        some (((recentText appended).take (len - 1)).length, after) ∧
      after.size = buf.size ∧
      after.Holds 0 ((recentText appended).take (len - 1) ++ [nul]) := by
  rw [recentText, ← logRing_contents]
  exact logRingCopy_spec positive fits

/-- The log holds the most recent lines, and the buffer of `/admin/logs` has room for all of them. -/
theorem log_keeps_most_recent (appended : List (List Char)) (buf : Buffer Char) (len : Nat)
    (positive : 1 ≤ len) (fits : len ≤ buf.size) :
    (∃ after, logRingCopy (logRing appended) buf len =
        some (((recentText appended).take (len - 1)).length, after) ∧
      after.Holds 0 ((recentText appended).take (len - 1) ++ [nul])) ∧
    (recentText appended).take (adminLogsLen - 1) = recentText appended := by
  obtain ⟨after, copied, _, holds⟩ := logRing_copied appended positive fits
  exact ⟨⟨after, copied, holds⟩,
    List.take_of_length_le (Nat.le_sub_one_of_lt (recentText_length_lt appended))⟩

theorem log_keeps_most_recent_two :
    (∃ after, logRingCopy (logRing [['a', 'b'], ['c']]) ⟨3, fun _ => 'x'⟩ 3 =
        some (((recentText [['a', 'b'], ['c']]).take 2).length, after) ∧
      after.Holds 0 ((recentText [['a', 'b'], ['c']]).take 2 ++ [nul])) ∧
    (recentText [['a', 'b'], ['c']]).take (adminLogsLen - 1) = recentText [['a', 'b'], ['c']] :=
  log_keeps_most_recent [['a', 'b'], ['c']] ⟨3, fun _ => 'x'⟩ 3 (by decide) (by decide)

end ThreadPool.Server
