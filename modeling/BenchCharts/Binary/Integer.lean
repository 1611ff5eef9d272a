import BenchCharts.Binary.Basic

/-!
# Whole numbers among floating-point values

Rounding a value to a whole one in four directions, and reading a value as an
integer between two bounds.  Every rounding keeps the sign, so a value in
`(-1, 0)` goes to the negative zero or to `-1`.
-/

namespace BenchCharts.Binary

variable {f : Format}

/-- Replaces the magnitude of a finite value by a whole number, which `whole`
computes from the sign and the number of units. -/
def mapWhole (whole : Bool → Nat → Nat) : Binary f → Binary f
  | .finite negative magnitude _ => ofUnits negative (whole negative magnitude * f.one) 1
  | x => x

/-- The number of whole ones in a count of units, and one more if units remain. -/
def ceilUnits (f : Format) (magnitude : Nat) : Nat :=
  (magnitude + f.one - 1) / f.one

/-- The largest whole value that is not above. -/
def floor : Binary f → Binary f :=
  mapWhole fun negative m => if negative then ceilUnits f m else m / f.one

/-- The smallest whole value that is not below. -/
def ceil : Binary f → Binary f :=
  mapWhole fun negative m => if negative then m / f.one else ceilUnits f m

/-- The nearest whole value; a half goes away from zero. -/
def round : Binary f → Binary f :=
  mapWhole fun _ m => (2 * m + f.one) / (2 * f.one)

/-- The nearest whole value towards zero. -/
def trunc : Binary f → Binary f :=
  mapWhole fun _ m => m / f.one

/-- Brings an integer into the range from `low` to `high`. -/
def clampInt (low high n : Int) : Int :=
  max low (min high n)

/-- The integer part of a value, brought into the range from `low` to `high`;
a NaN reads as zero. -/
def toInt (low high : Int) : Binary f → Int
  | .nan => 0
  | .infinite negative => if negative then low else high
  | .finite negative magnitude _ => clampInt low high (signed negative (magnitude / f.one))

/-- The integer part of a value as a pixel coordinate of 32 bits. -/
def toInt32 (x : Binary f) : Int :=
  x.toInt (-2 ^ 31) (2 ^ 31 - 1)

/-- The integer part of a value as an unsigned number of 32 bits. -/
def toUnsigned32 (x : Binary f) : Int :=
  x.toInt 0 (2 ^ 32 - 1)

/-- The integer part of a value as a number of 64 bits. -/
def toInt64 (x : Binary f) : Int :=
  x.toInt (-2 ^ 63) (2 ^ 63 - 1)

/-- The integer part of a value as an unsigned number of 64 bits. -/
def toUnsigned64 (x : Binary f) : Nat :=
  (x.toInt 0 (2 ^ 64 - 1)).toNat

end BenchCharts.Binary
