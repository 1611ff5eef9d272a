import BenchCharts.Binary.Basic

/-!
# Axis ranges

The interval of values that an axis covers: a slot for every scenario
(`categories`), zero up to some room above the largest value (`headroom`), or
all values with a margin on both sides (`padded`).  A NaN never counts.
-/

namespace BenchCharts.Axis

/-- The values from `start` to `stop`. -/
structure Range where
  start : Double
  stop : Double
  deriving DecidableEq

namespace Range

/-- The range with its lesser end first; an end that is a NaN gives way to the other. -/
def ordered (r : Range) : Range :=
  ⟨Binary.minimum r.start r.stop, Binary.maximum r.start r.stop⟩

/-- The distance between the ends.  It can overflow where both ends are finite. -/
def span (r : Range) : Double :=
  r.ordered.stop - r.ordered.start

/-- The distance between the ends is finite. -/
def FiniteSpan (r : Range) : Prop :=
  r.span.isFinite = true

instance (r : Range) : Decidable r.FiniteSpan :=
  inferInstanceAs (Decidable (_ = true))

end Range

/-- The axis of `n` categories: category `i` stands at `i` in the middle of a slot
of width one. -/
def categories (n : Nat) : Range :=
  ⟨-0.5, Binary.ofNat n - 0.5⟩

/-- The upper end of an axis that starts at zero: a tenth above the largest
value, and one if no value is above zero. -/
def headroom (values : List Double) : Double :=
  let top := values.foldl Binary.maximum 0
  if 0 < top then top * 1.1 else 1

/-- The smallest and the largest of some values; without values, plus and minus
infinity. -/
def extremes (values : List Double) : Double × Double :=
  (values.foldl Binary.minimum (.infinite false), values.foldl Binary.maximum (.infinite true))

/-- All values with a twentieth of their spread on both sides.  A single value
gets one on both sides, and the range without values is the unit interval. -/
def padded (values : List Double) : Range :=
  let (low, high) := extremes values
  if high < low then ⟨0, 1⟩
  else if low.equals high then ⟨low - 1, high + 1⟩
  else
    let pad := (high - low) * 0.05
    ⟨low - pad, high + pad⟩

end BenchCharts.Axis
