import BenchCharts.Binary.Integer

/-!
# Lengths

Lengths are given in typographic points or in inches and drawn at a fixed
density.
-/

namespace BenchCharts.Canvas

/-- Pixels per inch. -/
def density : Nat := 300

/-- A length in points, of which an inch has 72, as a fractional number of pixels. -/
def fontPixels (points : Double) : Double :=
  points * Binary.ofNat density / 72

/-- A length in points as a whole number of pixels. -/
def pixels (points : Double) : Int :=
  (fontPixels points).round.toUnsigned32

/-- A size in inches as a size in pixels. -/
def figure (width height : Nat) : Nat × Nat :=
  (width * density, height * density)

/-- The family of all fonts in use. -/
def fontFamily : String := "sans-serif"

end BenchCharts.Canvas
