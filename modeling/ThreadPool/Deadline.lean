import ThreadPool.Task

namespace ThreadPool

open Foundation

/-! # Deadlines

`thread_pool.c` computes a deadline by adding milliseconds to a clock value,
and `priority_queue.c` decides by a subtraction whether one has passed. The two
are compared here on every pair of normalised instants.
-/

namespace Timespec

structure Normalised (time : Timespec) : Prop where
  nonneg : 0 ≤ time.tvNsec
  below : time.tvNsec < 1000000000

/-- A normalised instant whose seconds fit an unsigned 32-bit word. -/
structure Instant (time : Timespec) : Prop extends Normalised time where
  sec : 0 ≤ time.tvSec
  secBelow : time.tvSec < 4294967296

/-- The order of instants: seconds first, then nanoseconds. -/
def AtOrAfter (time deadline : Timespec) : Prop :=
  deadline.tvSec < time.tvSec ∨ (deadline.tvSec = time.tvSec ∧ deadline.tvNsec ≤ time.tvNsec)

instance (time deadline : Timespec) : Decidable (time.AtOrAfter deadline) :=
  inferInstanceAs (Decidable (_ ∨ _))

theorem atOrAfter_iff {time deadline : Timespec} (first : time.Normalised)
    (second : deadline.Normalised) :
    time.AtOrAfter deadline ↔ deadline.nanoseconds ≤ time.nanoseconds := by
  obtain ⟨nonneg, below⟩ := first
  obtain ⟨nonneg', below'⟩ := second
  simp only [AtOrAfter, nanoseconds]
  omega

theorem Instant.reading {time : Timespec} (instant : time.Instant) : time.Reading := by
  obtain ⟨⟨nonneg, below⟩, sec, secBelow⟩ := instant
  refine ⟨sec, nonneg, below, ?_⟩
  simp only [nanoseconds]
  omega

end Timespec

/-- `timespec_add_ms`: C division truncates, and every sum and product is one of
a 64-bit `long`. -/
def timespecAddMs (ts : Timespec) (ms : Int) : Timespec :=
  if ms ≤ 0 then ts
  else
    let sec := wrap 64 (ts.tvSec + ms.tdiv 1000)
    let nsec := wrap 64 (ts.tvNsec + wrap 64 (ms.tmod 1000 * 1000000))
    if nsec ≥ 1000000000 then
      ⟨wrap 64 (sec + nsec.tdiv 1000000000), nsec.tmod 1000000000⟩
    else ⟨sec, nsec⟩

section

variable {start finish : Timespec} {ms : Int}

/-- One carry is enough: the nanoseconds added are fewer than a second's. -/
theorem timespecAddMs_eq (instant : start.Instant) (positive : 0 < ms)
    (long : ms ≤ 9223372036854775807) :
    timespecAddMs start ms =
      if start.tvNsec + ms % 1000 * 1000000 ≥ 1000000000 then
        ⟨start.tvSec + ms / 1000 + 1, start.tvNsec + ms % 1000 * 1000000 - 1000000000⟩
      else ⟨start.tvSec + ms / 1000, start.tvNsec + ms % 1000 * 1000000⟩ := by
  obtain ⟨⟨nonneg, below⟩, sec, secBelow⟩ := instant
  have quotient : ms.tdiv 1000 = ms / 1000 := Int.tdiv_eq_ediv_of_nonneg (by omega)
  have remainder : ms.tmod 1000 = ms % 1000 := Int.tmod_eq_emod_of_nonneg (by omega)
  have seconds : wrap 64 (start.tvSec + ms / 1000) = start.tvSec + ms / 1000 :=
    wrap_of_range_64 (by omega) (by omega)
  have product : wrap 64 (ms % 1000 * 1000000) = ms % 1000 * 1000000 :=
    wrap_of_range_64 (by omega) (by omega)
  have nanoseconds : wrap 64 (start.tvNsec + ms % 1000 * 1000000) =
      start.tvNsec + ms % 1000 * 1000000 :=
    wrap_of_range_64 (by omega) (by omega)
  simp only [timespecAddMs, if_neg (not_le.mpr positive), quotient, remainder, seconds, product,
    nanoseconds]
  split
  · have carry : (start.tvNsec + ms % 1000 * 1000000).tdiv 1000000000 = 1 := by
      rw [Int.tdiv_eq_ediv_of_nonneg (by omega)]
      omega
    have rest : (start.tvNsec + ms % 1000 * 1000000).tmod 1000000000 =
        start.tvNsec + ms % 1000 * 1000000 - 1000000000 := by
      rw [Int.tmod_eq_emod_of_nonneg (by omega)]
      omega
    rw [carry, rest, wrap_of_range_64 (by omega) (by omega)]
  · rfl

theorem timespecAddMs_normalised (instant : start.Instant) (positive : 0 < ms)
    (long : ms ≤ 9223372036854775807) : (timespecAddMs start ms).Normalised := by
  have nonneg := instant.nonneg
  have below := instant.below
  rw [timespecAddMs_eq instant positive long]
  split <;> constructor <;> dsimp only <;> omega

theorem timespecAddMs_nanoseconds (instant : start.Instant) (positive : 0 < ms)
    (long : ms ≤ 9223372036854775807) :
    (timespecAddMs start ms).nanoseconds = start.nanoseconds + ms * 1000000 := by
  rw [timespecAddMs_eq instant positive long]
  split <;> simp only [Timespec.nanoseconds] <;> omega

/-- The deadline is exact for every positive `long`. The test for it agrees with the deadline
if and only if the threshold in nanoseconds is a `long` too, or its wrapped value is not
reached yet. -/
theorem deadline_exact (startInstant : start.Instant) (stamped : start ≠ .zero)
    (finishInstant : finish.Instant) (positive : 0 < ms) (long : ms ≤ 9223372036854775807) :
    ((hasPassedMs start finish ms = true ↔ finish.AtOrAfter (timespecAddMs start ms)) ↔
      ms * 1000000 ≤ 9223372036854775807 ∨
        finish.nanoseconds - start.nanoseconds < wrap 64 (ms * 1000000)) ∧
    (timespecAddMs start ms).Normalised ∧
    (timespecAddMs start ms).nanoseconds = start.nanoseconds + ms * 1000000 := by
  have normalised := timespecAddMs_normalised startInstant positive long
  have sum := timespecAddMs_nanoseconds startInstant positive long
  refine ⟨?_, normalised, sum⟩
  rw [hasPassedMs_iff startInstant.reading finishInstant.reading,
    Timespec.atOrAfter_iff finishInstant.toNormalised normalised, sum]
  by_cases fits : ms * 1000000 ≤ 9223372036854775807
  · rw [wrap_of_range_64 (by omega) (by omega)]
    refine ⟨fun _ => .inl fits, fun _ => ⟨fun passed => by omega, fun reached => ⟨stamped, by omega⟩⟩⟩
  · -- no two instants are that far apart
    have early : ¬ start.nanoseconds + ms * 1000000 ≤ finish.nanoseconds := by
      obtain ⟨⟨nonneg, below⟩, sec, secBelow⟩ := startInstant
      obtain ⟨⟨nonneg', below'⟩, sec', secBelow'⟩ := finishInstant
      simp only [Timespec.nanoseconds]
      omega
    simp only [early, fits, iff_false, false_or, not_and]
    exact ⟨fun unpassed => not_le.mp (unpassed stamped), fun short _ => not_le.mpr short⟩

end

theorem deadline_exact_carry :
    (hasPassedMs ⟨1, 600000000⟩ ⟨3, 100000000⟩ 1500 = true ↔
      (⟨3, 100000000⟩ : Timespec).AtOrAfter (timespecAddMs ⟨1, 600000000⟩ 1500)) ∧
    (timespecAddMs ⟨1, 600000000⟩ 1500).Normalised ∧
    (timespecAddMs ⟨1, 600000000⟩ 1500).nanoseconds =
      (⟨1, 600000000⟩ : Timespec).nanoseconds + 1500 * 1000000 := by
  have first : (⟨1, 600000000⟩ : Timespec).Instant := ⟨⟨by decide, by decide⟩, by decide, by decide⟩
  have second : (⟨3, 100000000⟩ : Timespec).Instant := ⟨⟨by decide, by decide⟩, by decide, by decide⟩
  have exactly := deadline_exact first (by decide) second (show (0 : Int) < 1500 by decide) (by decide)
  exact ⟨exactly.1.mpr (.inl (by decide)), exactly.2⟩

/-- With the largest threshold the product wraps to minus one millisecond, so
the test passes at once. -/
theorem largest_deadline_passed :
    (⟨1, 0⟩ : Timespec).Instant ∧ (⟨1, 0⟩ : Timespec) ≠ .zero ∧
      hasPassedMs ⟨1, 0⟩ ⟨1, 0⟩ 9223372036854775807 = true ∧
      ¬ (⟨1, 0⟩ : Timespec).AtOrAfter (timespecAddMs ⟨1, 0⟩ 9223372036854775807) :=
  ⟨⟨⟨by decide, by decide⟩, by decide, by decide⟩, by decide, by decide, by decide⟩

end ThreadPool
