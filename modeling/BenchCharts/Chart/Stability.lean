import BenchCharts.Chart.Basic
import BenchCharts.Plot.Axes
import BenchCharts.Plot.Legend
import BenchCharts.Scenarios

/-!
# Throughput and errors

A bar for the throughput of every scenario on the left axis, and a line with
markers and annotations for the error rates on the right axis.
-/

namespace BenchCharts

open Axis Canvas Plot

/-- Throughput and error rates of the scenarios of a benchmark. -/
structure StabilityChart where
  labels : List String
  throughput : List Double
  errorRate : List Double

namespace StabilityChart

/-- The chart of two series that fit the labels. -/
def ofScenarios (s : Scenarios) : Except ShapeError StabilityChart := do
  checkShape s.labels [s.throughputSeries, s.errorSeries]
  .ok { labels := s.labels, throughput := s.throughput, errorRate := s.errorRate }

/-! ## Values and texts -/

/-- The room above the highest error rate, in percent. -/
def errorHeadroom : Double := 5

/-- The largest value of a list, and zero for the empty list. -/
def largest : List Double → Double
  | [] => 0
  | v :: vs => vs.foldl Binary.maximum v

/-- The upper end of the axis of error rates. -/
def errorAxisTop (rates : List Double) : Double :=
  largest rates + errorHeadroom

/-- The text of an error rate; a whole number has one decimal. -/
def percentLabel (value : Double) : String :=
  (if value.isWhole then value.fixed 1 else value.shortest) ++ "%"

/-! ## Drawing -/

def stem : String := "Chart2_Stability"

def title : String := "Figure 2: Throughput vs error rate"

def throughputColor : Color := ⟨0x1F, 0x77, 0xB4⟩

def errorColor : Color := ⟨0xD6, 0x27, 0x28⟩

/-- The paint of the bars. -/
def barPaint : Paint := throughputColor.mix 0.6

/-- The size in inches is ten by six. -/
def size : Nat × Nat := figure 10 6

def slots (c : StabilityChart) : Range :=
  categories c.labels.length

def throughputRange (c : StabilityChart) : Range :=
  ⟨0, headroom c.throughput⟩

def errorRange (c : StabilityChart) : Range :=
  ⟨0, errorAxisTop c.errorRate⟩

/-- The layout of the chart on a canvas. -/
def layout (canvas : Nat × Nat) : Layout :=
  .ofArea (Chart.heading canvas title).2
    { below := pixels 35, left := pixels 50, right := pixels 50 }

/-- The plane of the throughput on a canvas. -/
def plane (c : StabilityChart) (canvas : Nat × Nat) : Plane :=
  .inside (layout canvas).plot c.slots c.throughputRange

/-- The plane of the error rates on a canvas. -/
def errorPlane (c : StabilityChart) (canvas : Nat × Nat) : Plane :=
  .onEdges (layout canvas).plot c.slots c.errorRange

/-- Half the width of a bar, in slots. -/
def halfBar : Double := 0.25

def boldStyle : TextStyle := { Chart.labelStyle with bold := true }

def axes (c : StabilityChart) : AxesStyle where
  x :=
    { limit := c.labels.length
      label := categoryLabel c.labels
      text := Chart.labelStyle
      title := some "Test scenario" }
  y :=
    { text := { Chart.labelStyle with paint := throughputColor.solid }
      title := some "Throughput (req/s)" }
  titleStyle := boldStyle

def errorAxes : AxesStyle where
  x := { text := { Chart.labelStyle with paint := errorColor.solid } }
  y :=
    { text := { Chart.labelStyle with paint := errorColor.solid }
      title := some "Error rate (%)" }
  titleStyle := boldStyle

/-- The error rates at the positions of their scenarios. -/
def errorPoints (c : StabilityChart) : List (Double × Double) :=
  Chart.categoryPoints c.errorRate

/-- The bar of a throughput. -/
def drawBar (plane : Plane) (point : Double × Double) : Element :=
  Chart.bar plane (point.1 - halfBar, 0) (point.1 + halfBar, point.2) barPaint

/-- The width of the line of error rates. -/
def lineWidth : Int := pixels 3

/-- The marker of an error rate. -/
def drawMarker (plane : Plane) (point : Double × Double) : Element :=
  .circle (plane.pixel point) (pixels 4) errorColor.solid

/-- The look of the annotations. -/
def annotationStyle : TextStyle :=
  { boldStyle with paint := errorColor.solid, anchor := .middle, baseline := .bottom }

/-- The annotation of an error rate, above its marker. -/
def annotate (plane : Plane) (point : Double × Double) : Element :=
  .text ((plane.pixel point).offset 0 (-pixels 6)) annotationStyle (percentLabel point.2)

def legend : List LegendEntry :=
  [⟨"Throughput", .square barPaint (pixels 5)⟩,
    ⟨"Error rate", .stroke errorColor.solid (2 * pixels 5) lineWidth⟩]

/-- What the chart draws on a canvas. -/
def elements (c : StabilityChart) (canvas : Nat × Nat) : List Element :=
  let layout := layout canvas
  let plane := c.plane canvas
  let errorPlane := c.errorPlane canvas
  (Chart.heading canvas title).1 :: drawAxes plane (layout.areas [.left, .below]) c.axes
    ++ drawAxes errorPlane (layout.areas [.above, .right]) errorAxes
    ++ (Chart.categoryPoints c.throughput).map (drawBar plane)
    ++ [.polyline (c.errorPoints.map errorPlane.pixel) errorColor.solid lineWidth]
    ++ c.errorPoints.map (drawMarker errorPlane)
    ++ c.errorPoints.map (annotate errorPlane)
    ++ drawLegend layout.plot legend

def chart (c : StabilityChart) : Chart :=
  { stem, size, ranges := [c.slots, c.throughputRange, c.errorRange], elements := c.elements }

theorem ranges_chart (c : StabilityChart) (canvas : Nat × Nat) :
    c.chart.ranges = [(c.plane canvas).x.range, (c.plane canvas).y.range,
      (c.errorPlane canvas).y.range] :=
  rfl

end StabilityChart

end BenchCharts
