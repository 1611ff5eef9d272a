import BenchCharts.Binary.Basic

/-!
# Interchange encoding

The bits of a value as one natural number: the fraction in the low
`digits - 1` bits, above it the exponent field, and the sign on top.
-/

namespace BenchCharts.Binary

variable {f : Format}

/-- The exponent field of the infinities and of a NaN. -/
def topField (f : Format) : Nat :=
  f.limit - f.digits + 2

/-- The weight of the sign bit. -/
def signWeight (f : Format) : Nat :=
  2 ^ (f.digits - 1 + (topField f).log2 + 1)

/-- The encoding; every NaN has the same one. -/
def toBits : Binary f → Nat
  | .nan => topField f * 2 ^ (f.digits - 1) + 2 ^ (f.digits - 2)
  | .infinite negative =>
      (if negative then signWeight f else 0) + topField f * 2 ^ (f.digits - 1)
  | .finite negative magnitude _ =>
      let shift := excess f.digits magnitude
      (if negative then signWeight f else 0) + shift * 2 ^ (f.digits - 1) + magnitude / 2 ^ shift

end BenchCharts.Binary
