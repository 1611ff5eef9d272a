import BenchCharts.Chart.Basic
import BenchCharts.Plot.Axes
import BenchCharts.Plot.Legend
import BenchCharts.Scenarios

/-!
# Response times

Two bars for every scenario, the mean response time left of the scenario's tick
and the 95th percentile right of it.  Each bar is annotated with its value
without decimals.
-/

namespace BenchCharts

open Axis Canvas Plot

/-- The response times of the scenarios of a benchmark. -/
structure LatencyChart where
  labels : List String
  average : List Double
  p95 : List Double

namespace LatencyChart

/-- The chart of two series that fit the labels. -/
def ofScenarios (s : Scenarios) : Except ShapeError LatencyChart := do
  checkShape s.labels [s.averageSeries, s.p95Series]
  .ok { labels := s.labels, average := s.averageLatency, p95 := s.p95Latency }

/-! ## Bars -/

/-- A bar on the zero line. -/
structure Bar where
  left : Double
  right : Double
  height : Double
  deriving DecidableEq

/-- The width of a bar, in slots. -/
def barWidth : Double := 0.35

def averageBars (c : LatencyChart) : List Bar :=
  c.average.zipIdx.map fun (v, i) => ⟨.ofNat i - barWidth, .ofNat i, v⟩

def p95Bars (c : LatencyChart) : List Bar :=
  c.p95.zipIdx.map fun (v, i) => ⟨.ofNat i, .ofNat i + barWidth, v⟩

/-- All bars, those of the mean first.  The annotations are placed by this list. -/
def bars (c : LatencyChart) : List Bar :=
  c.averageBars ++ c.p95Bars

/-- The text at a bar: its height without the fractional part. -/
def barLabel (value : Double) : String :=
  toString value.trunc.toInt64

/-! ## Drawing -/

def stem : String := "Chart1_ResponseTime"

def title : String := "Figure 1: System latency across load levels"

def averagePaint : Paint := Color.solid ⟨0x4C, 0xAF, 0x50⟩

def p95Paint : Paint := Color.solid ⟨0xFF, 0x98, 0x00⟩

/-- The size in inches is ten by six. -/
def size : Nat × Nat := figure 10 6

/-- The upper end of the vertical axis. -/
def top (c : LatencyChart) : Double :=
  headroom (c.average ++ c.p95)

def slots (c : LatencyChart) : Range :=
  categories c.labels.length

def responseRange (c : LatencyChart) : Range :=
  ⟨0, c.top⟩

/-- The layout of the chart on a canvas. -/
def layout (canvas : Nat × Nat) : Layout :=
  .ofArea (Chart.heading canvas title).2 { below := pixels 30, left := pixels 50 }

/-- The plane of both axes on a canvas. -/
def plane (c : LatencyChart) (canvas : Nat × Nat) : Plane :=
  .inside (layout canvas).plot c.slots c.responseRange

def axes (c : LatencyChart) : AxesStyle where
  x :=
    { limit := c.labels.length
      label := categoryLabel c.labels
      text := Chart.labelStyle }
  y :=
    { mesh := true
      text := Chart.labelStyle
      title := some "Response time (ms)" }
  titleStyle := Chart.labelStyle

/-- The rectangle of a mean response time, left of its scenario. -/
def drawAverage (plane : Plane) (point : Double × Double) : Element :=
  Chart.bar plane (point.1 - barWidth, 0) point averagePaint

/-- The rectangle of a 95th percentile, right of its scenario. -/
def drawP95 (plane : Plane) (point : Double × Double) : Element :=
  Chart.bar plane (point.1, 0) (point.1 + barWidth, point.2) p95Paint

/-- The look of the annotations. -/
def annotationStyle : TextStyle :=
  { size := fontPixels 9, anchor := .middle, baseline := .bottom }

/-- The annotation of a bar, above the middle of its upper edge. -/
def annotate (plane : Plane) (b : Bar) : Element :=
  let place := plane.pixel ((b.left + b.right) / 2, b.height)
  .text (place.offset 0 (-pixels 3)) annotationStyle (barLabel b.height)

def legend : List LegendEntry :=
  [⟨"Average (Avg)", .square averagePaint (pixels 5)⟩,
    ⟨"95% of users (P95)", .square p95Paint (pixels 5)⟩]

/-- What the chart draws on a canvas. -/
def elements (c : LatencyChart) (canvas : Nat × Nat) : List Element :=
  let layout := layout canvas
  let plane := c.plane canvas
  (Chart.heading canvas title).1
    :: drawAxes plane (layout.areas [.above, .left, .below, .right]) c.axes
    ++ (Chart.categoryPoints c.average).map (drawAverage plane)
    ++ (Chart.categoryPoints c.p95).map (drawP95 plane)
    ++ c.bars.map (annotate plane)
    ++ drawLegend layout.plot legend

def chart (c : LatencyChart) : Chart :=
  { stem, size, ranges := [c.slots, c.responseRange], elements := c.elements }

theorem ranges_chart (c : LatencyChart) (canvas : Nat × Nat) :
    c.chart.ranges = [(c.plane canvas).x.range, (c.plane canvas).y.range] :=
  rfl

end LatencyChart

end BenchCharts
