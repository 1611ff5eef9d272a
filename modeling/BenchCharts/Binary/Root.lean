import BenchCharts.Binary.Basic

/-!
# Square roots

The integer square root of a natural number, digit by digit in base four, and
the correctly rounded square root and hypotenuse of floating-point values.
-/

namespace BenchCharts

/-- The largest natural whose square is at most `n`. -/
def isqrt (n : Nat) : Nat :=
  if n = 0 then 0
  else
    let root := 2 * isqrt (n / 4)
    if (root + 1) * (root + 1) ≤ n then root + 1 else root
termination_by n
decreasing_by omega

namespace Binary

variable {f : Format}

/-- Twice the square root of `n` on a grid of `2 ^ shift`, with the last bit set
when the root lies strictly between two grid points.  Rounding this number to
fewer bits rounds the exact root. -/
def stickyRoot (n shift : Nat) : Nat :=
  let root := isqrt (n / 4 ^ shift)
  (2 * root + if root * root * 4 ^ shift = n then 0 else 1) * 2 ^ shift

/-- The correctly rounded square root; a NaN below zero. -/
def sqrt : Binary f → Binary f
  | .nan => .nan
  | .infinite negative => if negative then .nan else .infinite false
  | .finite negative magnitude fits =>
      if magnitude = 0 then .finite negative magnitude fits
      else if negative then .nan
      else
        let square := magnitude * f.one
        ofUnits false (stickyRoot square (square.log2 / 2 - (f.digits + 2))) 2

/-- The length of the hypotenuse of a right triangle, computed in eight bytes and
rounded to four. -/
def hypotenuse (x y : Single) : Single :=
  let a : Double := x.convert
  let b : Double := y.convert
  (sqrt (a * a + b * b)).convert

end Binary

end BenchCharts
