import Mathlib.Data.UInt
import Mathlib.Tactic.Positivity
import Mathlib.Tactic.Ring

/-!
# Binary64

IEEE 754 double precision numbers, as far as comparing them with integers needs them: a number is
its 64 bits, its value is scaled by `2 ^ 1074` to be an integer, and an integer is rounded to the
nearest number, ties to even.
-/

namespace Diamond.Binary64

/-- The factor that makes every finite number an integer. -/
def scale : ℤ := 2 ^ 1074

def exponentField (bits : UInt64) : ℕ := bits.toNat / 2 ^ 52 % 2 ^ 11

def fractionField (bits : UInt64) : ℕ := bits.toNat % 2 ^ 52

def isNan (bits : UInt64) : Bool := exponentField bits == 2047 && fractionField bits != 0

def isFinite (bits : UInt64) : Bool := exponentField bits != 2047

/-- The magnitude of a finite number, scaled; a number with exponent field zero is subnormal. -/
def magnitude (bits : UInt64) : ℕ :=
  if exponentField bits = 0 then fractionField bits
  else (2 ^ 52 + fractionField bits) * 2 ^ (exponentField bits - 1)

/-- The value of a finite number, scaled. -/
def scaled (bits : UInt64) : ℤ :=
  if 2 ^ 63 ≤ bits.toNat then -(magnitude bits : ℤ) else magnitude bits

/-- The comparison `==`: the two zeros are equal and nothing is equal to a NaN. -/
def eq (a b : UInt64) : Bool :=
  !isNan a && !isNan b && (a == b || (isFinite a && isFinite b && scaled a == scaled b))

/-- The nearest number with 53 significant bits. -/
def roundMagnitude (n : ℕ) : ℕ :=
  let shift := n.log2 - 52
  let quotient := n / 2 ^ shift
  let remainder := n % 2 ^ shift
  if 2 ^ shift < 2 * remainder ∨ (2 ^ shift = 2 * remainder ∧ quotient % 2 = 1) then
    (quotient + 1) * 2 ^ shift
  else
    quotient * 2 ^ shift

/-- The value of an integer converted to a double, which is an integer again. -/
def ofInt (n : ℤ) : ℤ := if n < 0 then -(roundMagnitude n.natAbs : ℤ) else roundMagnitude n.natAbs

/-- The value of a finite number rounded towards zero. -/
def truncate (bits : UInt64) : ℤ := (scaled bits).tdiv scale

/-! ## A value and its bits -/

variable {a b : UInt64}

end Diamond.Binary64
