/-
The names that every class of the library uses: its integer types, and what
`SUCCESS`, `FAILURE` and `ERROR` are defined as.

A `uint64` that only counts bytes or lines is a natural number; where the code
subtracts two of them the difference wraps.
-/
import Mathlib.Algebra.Group.Nat.Defs
import Mathlib.Algebra.Group.Int.Defs

namespace Gdf

/-- `typedef int int32`. -/
abbrev int32 := Int32

/-- `#define SUCCESS true`. -/
abbrev SUCCESS : Bool := true

/-- `#define FAILURE false`. -/
abbrev FAILURE : Bool := false

/-- `#define ERROR -1`. -/
abbrev ERROR : int32 := -1

/-- What an `int` keeps of a wider integer: the low 32 bits, as a signed number. -/
def toInt (n : ℤ) : ℤ := Int.bmod n (2 ^ 32)

/-- An `int` keeps what fits in it. -/
theorem toInt_natCast {n : ℕ} (h : n < 2 ^ 31) : toInt n = n := by
  rw [toInt, Int.bmod_eq_of_le] <;> omega

/-- The difference of two `uint64`. -/
def subUInt64 (a b : ℕ) : ℕ := if b ≤ a then a - b else a + 2 ^ 64 - b

theorem subUInt64_of_le {a b : ℕ} (h : b ≤ a) : subUInt64 a b = a - b := if_pos h

end Gdf
