import BenchCharts.Axis.Scale
import BenchCharts.Canvas.Element
import BenchCharts.Canvas.Unit
import BenchCharts.Plot.Layout

/-!
# Charts

A chart knows the name of its image file, its size in pixels, the ranges of its
axes, and what it draws on a canvas of any size.

A chart is drawn with ticks on all its axes.  The search for the ticks of an axis
never ends if the span of its range is not finite, and then nothing is drawn at all
(`drawOn?`, `image?`).  Nor is anything drawn if a dashed line does not come to its end, which
happens on canvases of many millions of pixels.
-/

namespace BenchCharts

open Canvas Plot

/-- A chart that can be drawn. -/
structure Chart where
  stem : String
  size : Nat × Nat
  ranges : List Axis.Range
  dashesEnd : Nat × Nat → Bool := fun _ => true
  elements : Nat × Nat → List Element

namespace Chart

/-- The ticks of all axes are found. -/
def FiniteSpans (c : Chart) : Prop :=
  ∀ range ∈ c.ranges, range.FiniteSpan

instance (c : Chart) : Decidable c.FiniteSpans :=
  inferInstanceAs (Decidable (∀ _ ∈ _, _))

/-- Drawing the chart on a canvas of the given size ends. -/
def EndsOn (c : Chart) (size : Nat × Nat) : Prop :=
  c.FiniteSpans ∧ c.dashesEnd size = true

instance (c : Chart) (size : Nat × Nat) : Decidable (c.EndsOn size) :=
  inferInstanceAs (Decidable (_ ∧ _))

/-- The area of a canvas.  Coordinates have 32 bits. -/
def canvasArea (size : Nat × Nat) : Rect :=
  ⟨0, 0, Axis.Scale.wrap32 size.1, Axis.Scale.wrap32 size.2⟩

/-- The title on a canvas, and the area below it. -/
def heading (canvas : Nat × Nat) (title : String) : Element × Rect :=
  placeTitle ((canvasArea canvas).shrink margin) title

/-- The chart on a canvas of the given size, without a background. -/
def drawOn (c : Chart) (size : Nat × Nat) : Drawing :=
  { width := size.1, height := size.2, elements := c.elements size }

/-- The chart in its own size on a white background. -/
def image (c : Chart) : Drawing :=
  let drawing := c.drawOn c.size
  { drawing with elements := .fill (canvasArea c.size) white.solid :: drawing.elements }

/-- What drawing the chart on a canvas answers, if it ends. -/
def drawOn? (c : Chart) (size : Nat × Nat) : Option Drawing :=
  if c.EndsOn size then some (c.drawOn size) else none

/-- What drawing the chart in its own size answers, if it ends. -/
def image? (c : Chart) : Option Drawing :=
  if c.EndsOn c.size then some c.image else none

/-- The font of tick labels and of axis titles. -/
def labelStyle : TextStyle :=
  { size := fontPixels 10 }

/-- A rectangle of a plane between two points. -/
def bar (plane : Axis.Plane) (a b : Double × Double) (paint : Paint) : Element :=
  .fill (.spanning (plane.pixel a) (plane.pixel b)) paint

/-- The values of a series at the positions of their categories. -/
def categoryPoints (values : List Double) : List (Double × Double) :=
  values.zipIdx.map fun (v, i) => (.ofNat i, v)

end Chart

end BenchCharts
