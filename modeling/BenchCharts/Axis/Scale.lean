import BenchCharts.Axis.Range
import BenchCharts.Binary.Integer
import BenchCharts.Canvas.Geometry

/-!
# Scales

A scale places the values of a range on a line of pixels, and a plane places
pairs of values in a rectangle.
-/

namespace BenchCharts.Axis

open Canvas

/-- A range of values and the pixels of its two ends. -/
structure Scale where
  range : Range
  start : Int
  stop : Int

namespace Scale

/-- An integer reduced to 32 signed bits. -/
def wrap32 (n : Int) : Int :=
  Int.bmod n (2 ^ 32)

/-- What a pixel position may exceed a whole number by and still be rounded back
to it. -/
def slack : Double := 1e-3

/-- The distance in pixels of a value at the share `t` of the range, rounded
towards the start. -/
def distance (length : Int) (t : Double) : Int :=
  let exact := Binary.ofInt length * t
  if 0 < length then (exact + slack).floor.toInt32 else (exact - slack).ceil.toInt32

/-- The pixel of a value.  A range without extent puts everything at half the
length of the line. -/
def pixel (s : Scale) (x : Double) : Int :=
  if s.range.stop.equals s.range.start then (s.stop - s.start).tdiv 2
  else
    match (x - s.range.start) / (s.range.stop - s.range.start) with
    | .infinite negative => if negative then s.start else s.stop
    | t => wrap32 (s.start + distance (s.stop - s.start) t)

/-- The lesser of the two end pixels. -/
def low (s : Scale) : Int := min s.start s.stop

/-- The greater of the two end pixels. -/
def high (s : Scale) : Int := max s.start s.stop

/-- The pixel lies between the two ends. -/
def covers (s : Scale) (p : Int) : Bool :=
  s.low ≤ p && p ≤ s.high

end Scale

/-- A pair of scales over a rectangle of the canvas. -/
structure Plane where
  area : Rect
  x : Scale
  y : Scale

namespace Plane

/-- The plane whose scales end on the last pixels inside a rectangle. -/
def inside (area : Rect) (x y : Range) : Plane :=
  { area
    x := ⟨x, area.left, area.right - 1⟩
    y := ⟨y, area.bottom - 1, area.top⟩ }

/-- The plane whose scales end on the edges of a rectangle. -/
def onEdges (area : Rect) (x y : Range) : Plane :=
  { area
    x := ⟨x, area.left, area.right⟩
    y := ⟨y, area.bottom, area.top⟩ }

/-- The pixel of a pair of values, moved into the rectangle. -/
def pixel (p : Plane) (point : Double × Double) : Pixel :=
  p.area.clamp ⟨p.x.pixel point.1, p.y.pixel point.2⟩

end Plane

end BenchCharts.Axis
