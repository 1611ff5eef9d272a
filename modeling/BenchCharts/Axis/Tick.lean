import BenchCharts.Axis.Range
import BenchCharts.Binary.Logarithm

/-!
# Ticks

The values at which an axis carries a label.  Their distance is a power of ten
divided by 1, 2, 5 or 10, and it is made as small as the allowed number of
ticks permits.  The first tick is the first multiple of the distance inside the
range.

The search for the distance ends when a distance would make too many ticks.  In a
range whose span is not finite no distance does, and the search goes on for ever:
`ticks?` answers nothing.  In a range with a finite span it is taken to end.
-/

namespace BenchCharts.Axis

/-- The distance between one and the next larger value. -/
def epsilon : Double :=
  1 / .ofNat (2 ^ 52)

/-- The rest of `x` over a multiple of `step`; a rest that is `step` up to
rounding counts as none. -/
def remainder (x step : Double) : Double :=
  let rest := x - (x / step).floor * step
  if (rest - step).abs < epsilon then 0 else rest

/-- The first multiple of `step` that is not below `x`. -/
def firstMultiple (x step : Double) : Double :=
  let below := x - remainder x step
  if below < x then below + step else below

/-- The last multiple of `step` that is not above `x`. -/
def lastMultiple (x step : Double) : Double :=
  x - remainder x step

/-- A candidate for the distance of ticks, and the distance of a ten times finer
grid that positions are rounded to. -/
structure Step where
  width : Double
  grain : Double

/-- The ticks would be more than allowed with the distance `old / divisor`. -/
def tooMany (range : Range) (limit : Nat) (old divisor : Double) : Bool :=
  let width := old / divisor
  let left := firstMultiple range.start width
  let right := lastMultiple range.stop width
  decide (Binary.ofNat limit < (1 + (right - left) / old * divisor).round)

/-- Divides a distance by 2, 5 and 10 as long as the ticks remain few enough;
the second component says that the last division was refused. -/
def divide (range : Range) (limit : Nat) (old width : Double) : List Double → Double × Bool
  | [] => (width, false)
  | divisor :: rest =>
      if tooMany range limit old divisor then (width, true)
      else divide range limit old (old / divisor) rest

/-- Refines a distance decade by decade until a division is refused, for a number of rounds.
A search that ends at all ends within `decades` of them: behind these every finite distance
has become zero, for which no division is refused. -/
def refine (range : Range) (limit : Nat) : Nat → Step → Step
  | 0, step => step
  | fuel + 1, step =>
      let divided := divide range limit step.width step.width [2, 5, 10]
      if divided.2 then { step with width := divided.1 }
      else refine range limit fuel { width := step.width / 10, grain := step.grain / 10 }

/-- The number of decades that the values of the format span. -/
def decades : Nat := 700

/-- The distance at which the search begins in an ordered range: the decade of the span,
or the next one if that makes too many ticks. -/
def firstStep (range : Range) (limit : Nat) : Step :=
  let spread := range.stop - range.start
  let width := spread.decade
  let coarse : Step := { width, grain := width / 10 }
  if Binary.ofNat limit < 1 + (spread / width).floor then
    { width := coarse.width * 10, grain := coarse.grain * 10 }
  else coarse

/-- The distance of the ticks in an ordered range with a finite span. -/
def tickStep (range : Range) (limit : Nat) : Step :=
  refine range limit decades (firstStep range limit)

/-- The ticks from an offset onwards.  Offsets are relative to `base`, so that
small distances survive beside large values. -/
def ticksFrom (base right : Double) (step : Step) : Nat → Double → List Double
  | 0, _ => []
  | fuel + 1, offset =>
      if -epsilon ≤ right - offset - base then
        let aligned := (offset / step.grain).round * step.grain
        let offset := if aligned < 0 then offset + step.grain else offset
        (offset + base) :: ticksFrom base right step fuel (offset + step.width)
      else
        []

/-- More ticks than fit in any memory. -/
def tickFuel : Nat := 2 ^ 64

/-- The ticks in an ordered range with a finite span. -/
def listTicks (range : Range) (limit : Nat) : List Double :=
  if (range.start - range.stop).abs < epsilon then [range.start]
  else
    let step := tickStep range limit
    let left := firstMultiple range.start step.width
    let right := lastMultiple range.stop step.width
    let base := (left / step.grain).floor * step.grain
    ticksFrom base right step tickFuel (left - base)

/-- The ticks of an axis with at most `limit` of them.  Nothing is answered where the
search for their distance never ends. -/
def ticks? (range : Range) (limit : Nat) : Option (List Double) :=
  if limit = 0 then some []
  else if range.FiniteSpan then some (listTicks range.ordered limit)
  else none

/-- The ticks of an axis as far as there is an answer. -/
def ticks (range : Range) (limit : Nat) : List Double :=
  (ticks? range limit).getD []

end BenchCharts.Axis
