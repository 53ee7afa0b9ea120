import Mathlib.Data.Fintype.Basic
import Mathlib.Order.Cover
import Mathlib.Order.Basic
import ThreadPool.Foundation.Word

namespace ThreadPool

open Foundation

/-! # Tasks

The records of `task.h` and the deadline test that the aging scan applies to
them. A task lives in one heap block; blocks are never reused, so the address
of a block also identifies the task that was created in it.
-/

/-- `enum task_priority`, without the counting constant `PRIORITY_COUNT`. -/
inductive Priority where
  | low
  | medium
  | high
deriving DecidableEq, Repr

namespace Priority

/-- The enumeration constant, which is also the lane index and the bit index. -/
def index : Priority → Nat
  | .low => 0
  | .medium => 1
  | .high => 2

def ofIndex? : Nat → Option Priority
  | 0 => some .low
  | 1 => some .medium
  | 2 => some .high
  | _ => none

theorem index_injective : Function.Injective index := by
  intro left right same
  cases left <;> cases right <;> simp_all [index]

theorem ofIndex?_index (p : Priority) : ofIndex? p.index = some p := by
  cases p <;> rfl

theorem index_lt (p : Priority) : p.index < 3 := by
  cases p <;> decide

instance : Fintype Priority := ⟨{.low, .medium, .high}, fun p => by cases p <;> decide⟩

instance : LinearOrder Priority := LinearOrder.lift' index index_injective

theorem low_covBy_medium : low ⋖ medium := by
  refine ⟨by decide, ?_⟩
  intro p
  cases p <;> decide

theorem medium_covBy_high : medium ⋖ high := by
  refine ⟨by decide, ?_⟩
  intro p
  cases p <;> decide

end Priority

/-- `struct timespec`; both fields are 64-bit `long`. -/
structure Timespec where
  tvSec : Int
  tvNsec : Int
deriving DecidableEq, Repr

namespace Timespec

def zero : Timespec := ⟨0, 0⟩

/-- The instant in nanoseconds. -/
def nanoseconds (time : Timespec) : Int := time.tvSec * 1000000000 + time.tvNsec

/-- What `clock_gettime(CLOCK_MONOTONIC)` stores: a normalised non-negative
instant whose nanosecond count fits the kernel's signed 64-bit clock. -/
structure Reading (time : Timespec) : Prop where
  sec : 0 ≤ time.tvSec
  nsec : 0 ≤ time.tvNsec
  normalised : time.tvNsec < 1000000000
  fits : time.nanoseconds < 9223372036854775808

instance (time : Timespec) : Decidable time.Reading :=
  decidable_of_iff (0 ≤ time.tvSec ∧ 0 ≤ time.tvNsec ∧ time.tvNsec < 1000000000 ∧
      time.nanoseconds < 9223372036854775808)
    ⟨fun ⟨a, b, c, d⟩ => ⟨a, b, c, d⟩, fun ⟨a, b, c, d⟩ => ⟨a, b, c, d⟩⟩

end Timespec

/-- A value returned by the monotonic clock. -/
abbrev ClockReading := { time : Timespec // time.Reading }

/-- `has_passed_ms`, with the wrapping arithmetic of a 64-bit `long`. -/
def hasPassedMs (start finish : Timespec) (targetMs : Int) : Bool :=
  if start.tvSec = 0 ∧ start.tvNsec = 0 then
    false
  else
    let secDiff := wrap 64 (finish.tvSec - start.tvSec)
    let nsecDiff := wrap 64 (finish.tvNsec - start.tvNsec)
    let borrow := nsecDiff < 0
    let secDiff := if borrow then wrap 64 (secDiff - 1) else secDiff
    let nsecDiff := if borrow then wrap 64 (nsecDiff + 1000000000) else nsecDiff
    let totalNs := wrap 64 (wrap 64 (secDiff * 1000000000) + nsecDiff)
    decide (totalNs ≥ wrap 64 (targetMs * 1000000))

/-- The task was stamped and has waited `targetMs` milliseconds at `now`. -/
def Waited (start now : Timespec) (targetMs : Int) : Prop :=
  start ≠ .zero ∧ targetMs * 1000000 ≤ now.nanoseconds - start.nanoseconds

instance (start now : Timespec) (targetMs : Int) : Decidable (Waited start now targetMs) :=
  inferInstanceAs (Decidable (_ ∧ _))

/-- On clock readings the elapsed time is computed without overflow; only the
threshold can wrap. -/
theorem hasPassedMs_iff {start now : Timespec} {targetMs : Int}
    (stamped : start.Reading) (reading : now.Reading) :
    hasPassedMs start now targetMs = true ↔
      start ≠ .zero ∧ wrap 64 (targetMs * 1000000) ≤ now.nanoseconds - start.nanoseconds := by
  obtain ⟨startSec, startNsec, startNorm, startFits⟩ := stamped
  obtain ⟨nowSec, nowNsec, nowNorm, nowFits⟩ := reading
  have zero : start = .zero ↔ start.tvSec = 0 ∧ start.tvNsec = 0 := by
    cases start
    simp [Timespec.zero]
  simp only [Timespec.nanoseconds] at *
  have secDiff : wrap 64 (now.tvSec - start.tvSec) = now.tvSec - start.tvSec :=
    wrap_of_range_64 (by omega) (by omega)
  have nsecDiff : wrap 64 (now.tvNsec - start.tvNsec) = now.tvNsec - start.tvNsec :=
    wrap_of_range_64 (by omega) (by omega)
  have total : wrap 64 ((now.tvSec * 1000000000 + now.tvNsec) -
      (start.tvSec * 1000000000 + start.tvNsec)) = (now.tvSec * 1000000000 + now.tvNsec) -
      (start.tvSec * 1000000000 + start.tvNsec) :=
    wrap_of_range_64 (by omega) (by omega)
  unfold hasPassedMs
  by_cases unstamped : start.tvSec = 0 ∧ start.tvNsec = 0
  · simp [unstamped, zero]
  · rw [if_neg unstamped]
    simp only [secDiff, nsecDiff, decide_eq_true_eq, ne_eq, zero, unstamped, not_false_eq_true,
      true_and, ge_iff_le]
    split
    · have sec : wrap 64 (now.tvSec - start.tvSec - 1) = now.tvSec - start.tvSec - 1 :=
        wrap_of_range_64 (by omega) (by omega)
      have nsec : wrap 64 (now.tvNsec - start.tvNsec + 1000000000) =
          now.tvNsec - start.tvNsec + 1000000000 :=
        wrap_of_range_64 (by omega) (by omega)
      rw [sec, nsec, wrap_add_left, show (now.tvSec - start.tvSec - 1) * 1000000000 +
          (now.tvNsec - start.tvNsec + 1000000000) = (now.tvSec * 1000000000 + now.tvNsec) -
          (start.tvSec * 1000000000 + start.tvNsec) by omega, total]
    · rw [wrap_add_left, show (now.tvSec - start.tvSec) * 1000000000 +
          (now.tvNsec - start.tvNsec) = (now.tvSec * 1000000000 + now.tvNsec) -
          (start.tvSec * 1000000000 + start.tvNsec) by omega, total]

/-- The test never misses a task that has waited long enough. -/
theorem Waited.hasPassedMs {start now : Timespec} {targetMs : Int}
    (stamped : start.Reading) (reading : now.Reading) (nonneg : 0 ≤ targetMs)
    (waited : Waited start now targetMs) : hasPassedMs start now targetMs = true := by
  refine (hasPassedMs_iff stamped reading).mpr ⟨waited.1, ?_⟩
  have elapsed := waited.2
  have bound := reading.fits
  have past : 0 ≤ start.nanoseconds := by
    have sec := stamped.sec
    have nsec := stamped.nsec
    simp only [Timespec.nanoseconds]
    omega
  rwa [wrap_of_range_64 (by omega) (by omega)]

/-- An address of a task block. -/
abbrev Addr := Nat

/-- `struct task_t`. The function and its argument are opaque code and data
addresses; `next` is the link of the lane the task is queued in. -/
structure Task where
  taskId : Nat
  func : Nat
  arg : Nat
  priority : Priority
  submitTime : Timespec
  next : Option Addr
deriving DecidableEq, Repr

/-- The record that `task_create` initialises; `newId` is the value fetched
from `g_task_id_count`. -/
def taskCreate (newId func arg : Nat) (priority : Priority) : Task :=
  { taskId := newId, func, arg, priority, submitTime := .zero, next := none }

end ThreadPool
