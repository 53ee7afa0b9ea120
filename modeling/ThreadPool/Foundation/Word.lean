import Mathlib.Algebra.Group.Nat.Defs
import Mathlib.Data.Int.Basic

namespace ThreadPool.Foundation

/-! # Two's-complement words

A signed machine word is an integer kept in range by `wrap`, the value that
the low bits of a mathematical integer denote.
-/

/-- The signed `bits`-bit word congruent to `value`. -/
def wrap (bits : Nat) (value : Int) : Int := value.bmod (2 ^ bits)

theorem wrap_of_range_32 {value : Int} (lower : -2147483648 ≤ value) (upper : value < 2147483648) :
    wrap 32 value = value := by
  simp only [wrap, Int.bmod, Nat.reducePow]
  omega

theorem wrap_of_range_64 {value : Int}
    (lower : -9223372036854775808 ≤ value) (upper : value < 9223372036854775808) :
    wrap 64 value = value := by
  simp only [wrap, Int.bmod, Nat.reducePow]
  omega

/-- Wrapping an operand first does not change a wrapped sum. -/
theorem wrap_add_left (bits : Nat) (left right : Int) :
    wrap bits (wrap bits left + right) = wrap bits (left + right) := by
  simp [wrap]

end ThreadPool.Foundation
