import BenchCharts.Binary.Integer

/-!
# Logarithms

The natural logarithm is computed in fixed point with `precision` fractional
bits and then rounded once.  A value is written as `y · 2 ^ e` with `1 ≤ y < 2`;
the logarithm of `y` is twice the inverse hyperbolic tangent of
`(y - 1) / (y + 1)`, which is below one third, so a hundred terms of the series
are exact to more bits than any format keeps.
-/

namespace BenchCharts.Binary

variable {f : Format}

/-- Fractional bits of the fixed-point numbers here. -/
def precision : Nat := 256

/-- The number of terms of the series that are added. -/
def seriesTerms : Nat := 100

/-- The fixed-point inverse hyperbolic tangent of `num / den`, for a quotient
between zero and one third. -/
def artanh (num den : Nat) : Nat :=
  let unit := 2 ^ precision
  let t := num * unit / den
  let square := t * t / unit
  let add := fun (sum, power) j => (sum + power / (2 * j + 1), power * square / unit)
  ((List.range seriesTerms).foldl add (0, t)).1

/-- The fixed-point natural logarithm of `num / den · 2 ^ exponent`, for a
quotient between one and two. -/
def lnFixed (num den : Nat) (exponent : Int) : Int :=
  exponent * (2 * artanh 1 3 : Nat) + (2 * artanh (num - den) (num + den) : Nat)

/-- The natural logarithm: minus infinity at zero, a NaN below. -/
def ln : Binary f → Binary f
  | .nan => .nan
  | .infinite negative => if negative then .nan else .infinite false
  | .finite negative magnitude _ =>
      if magnitude = 0 then .infinite true
      else if negative then .nan
      else
        let e := magnitude.log2
        let fixed := lnFixed magnitude (2 ^ e) ((e : Int) - f.scale)
        ofUnits (decide (fixed < 0)) (fixed.natAbs * f.one) (2 ^ precision)

/-- The largest power of ten below a positive value, as the quotient of rounded
logarithms gives it; a NaN has none. -/
def decade (x : Binary f) : Binary f :=
  if x.isNaN then .nan else powTen (x.ln / (10 : Binary f).ln).floor.toInt32

end BenchCharts.Binary
