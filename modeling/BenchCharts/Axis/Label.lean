import BenchCharts.Binary.Integer
import BenchCharts.Decimal.Shortest

/-!
# Tick labels

The label of a category, and the text of a number with as many decimals as it
needs, but at least one and at most five.
-/

namespace BenchCharts.Axis

/-! ## Categories -/

/-- How far a tick may lie beside a category whose label it still shows. -/
def categoryTolerance : Double := 1e-6

/-- The label of the category at `x`, and nothing between two categories. -/
def categoryLabel (labels : List String) (x : Double) : String :=
  if x < 0 ∨ categoryTolerance < (x - x.round).abs then ""
  else labels[x.round.toUnsigned64]?.getD ""

/-! ## Numbers -/

/-- The largest number of decimals. -/
def maxDecimals : Nat := 5

/-- A value and the number of decimals that tell it. -/
structure Rounded where
  value : Double
  decimals : Nat

/-- The nearest value with few decimals, up to `tolerance`: a whole number if one
is that near, otherwise the same for ten times the fractional part. -/
def fewestDecimals : Nat → Double → Double → Rounded
  | 0, _, x => { value := x, decimals := 0 }
  | fuel + 1, tolerance, x =>
      if 1 ≤ tolerance then { value := x, decimals := 0 }
      else if x - x.floor < tolerance then { value := x.floor, decimals := 0 }
      else if x.ceil - x < tolerance then { value := x.ceil, decimals := 0 }
      else
        let inner := fewestDecimals fuel (tolerance * 10) ((x - x.floor) * 10)
        { value := x.floor + inner.value / 10, decimals := inner.decimals + 1 }

/-- A number with its decimals but without zeros at their end; one decimal is
always written. -/
def writeDecimals (x : Rounded) : String :=
  let negative := decide (x.value < 0)
  let magnitude := if negative then -x.value else x.value
  let whole := magnitude.floor
  let scaled := (magnitude.abs - whole.abs) * .powTen x.decimals
  let part := scaled.round.toUnsigned64
  let sign := String.ofList (Binary.signChars negative)
  if part = 0 ∨ x.decimals = 0 then sign ++ whole.fixed 1
  else
    let digits := Scientific.dropTrailingZeros (Scientific.paddedDigits x.decimals part)
    sign ++ whole.fixed 0 ++ "." ++ String.ofList digits

/-- The label of a number. -/
def numberLabel (x : Double) : String :=
  writeDecimals (fewestDecimals (2 * maxDecimals) (.powTen (-maxDecimals)) x)

/-- The label of a number without decimals. -/
def wholeLabel (x : Double) : String :=
  x.fixed 0

end BenchCharts.Axis
