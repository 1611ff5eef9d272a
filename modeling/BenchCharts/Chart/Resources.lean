import BenchCharts.Chart.Basic
import BenchCharts.Plot.Axes
import BenchCharts.Plot.Dash
import BenchCharts.Plot.Legend
import BenchCharts.ResourceLog.Sample

/-!
# Resource usage

Processor load as a filled area on the left axis and memory as a dashed line on
the right axis, over the seconds since the start of the test.  Samples are drawn
in the order in which they were logged.
-/

namespace BenchCharts

open Axis Canvas Plot

/-- The resource samples of a test. -/
structure ResourceChart where
  samples : List ResourceLog.Sample

namespace ResourceChart

def stem : String := "Chart3_Resources"

def title : String := "Figure 3: System resource usage over time (Stress Test 500 VUs)"

def cpuColor : Color := ⟨0xD3, 0x2F, 0x2F⟩

def ramColor : Color := ⟨0x19, 0x76, 0xD2⟩

/-- The size in inches is twelve by six. -/
def size : Nat × Nat := figure 12 6

/-! ## Points and ranges -/

def cpuPoints (c : ResourceChart) : List (Double × Double) :=
  c.samples.map fun s => (s.time, s.cpu)

def ramPoints (c : ResourceChart) : List (Double × Double) :=
  c.samples.map fun s => (s.time, s.ram)

def timeRange (c : ResourceChart) : Range :=
  padded (c.samples.map (·.time))

def cpuRange (c : ResourceChart) : Range :=
  ⟨0, headroom (c.samples.map (·.cpu))⟩

def ramRange (c : ResourceChart) : Range :=
  padded (c.samples.map (·.ram))

/-! ## Planes -/

/-- The layout of the chart on a canvas. -/
def layout (canvas : Nat × Nat) : Layout :=
  .ofArea (Chart.heading canvas title).2
    { below := pixels 30, left := pixels 50, right := pixels 55 }

/-- The plane of the processor load on a canvas. -/
def plane (c : ResourceChart) (canvas : Nat × Nat) : Plane :=
  .inside (layout canvas).plot c.timeRange c.cpuRange

/-- The plane of the memory on a canvas. -/
def ramPlane (c : ResourceChart) (canvas : Nat × Nat) : Plane :=
  .onEdges (layout canvas).plot c.timeRange c.ramRange

/-! ## Drawing -/

def boldStyle : TextStyle := { Chart.labelStyle with bold := true }

def axes : AxesStyle where
  x :=
    { mesh := true
      label := wholeLabel
      text := Chart.labelStyle
      title := some "Test time (s)" }
  y :=
    { mesh := true
      text := { Chart.labelStyle with paint := cpuColor.solid }
      title := some "CPU usage (%)" }
  titleStyle := boldStyle

def ramAxes : AxesStyle where
  x := { text := { Chart.labelStyle with paint := ramColor.solid } }
  y :=
    { text := { Chart.labelStyle with paint := ramColor.solid }
      title := some "RAM usage (MB)" }
  titleStyle := boldStyle

/-- The width of both lines. -/
def lineWidth : Int := pixels 2

/-- The dashes of the memory line. -/
def dashPattern : DashPattern := { dash := pixels 6, gap := pixels 3 }

/-- The outline of the area under a line: back from its last point along the zero
line. -/
def outline (points : List (Double × Double)) : List (Double × Double) :=
  match points.head?, points.getLast? with
  | some first, some last => points ++ [(last.1, 0), (first.1, 0)]
  | _, _ => points

/-- The filled area of the processor load and its border. -/
def drawCpu (c : ResourceChart) (plane : Plane) : List Element :=
  [.polygon ((outline c.cpuPoints).map plane.pixel) (cpuColor.mix 0.1),
    .polyline (c.cpuPoints.map plane.pixel) cpuColor.solid lineWidth]

/-- The pixels that the memory line goes through. -/
def ramPixels (c : ResourceChart) (plane : Plane) : List Pixel :=
  c.ramPoints.map plane.pixel

/-- The dashes of the memory line. -/
def drawRam (c : ResourceChart) (plane : Plane) : List Element :=
  (dashes dashPattern (c.ramPixels plane)).map fun path =>
    .polyline path ramColor.solid lineWidth

def legend : List LegendEntry :=
  [⟨"CPU", .stroke cpuColor.solid (2 * pixels 10) lineWidth⟩,
    ⟨"RAM", .stroke ramColor.solid (2 * pixels 10) lineWidth⟩]

/-- What the chart draws on a canvas.  Without samples there are axes only. -/
def elements (c : ResourceChart) (canvas : Nat × Nat) : List Element :=
  let layout := layout canvas
  let plane := c.plane canvas
  let ramPlane := c.ramPlane canvas
  (Chart.heading canvas title).1 :: drawAxes plane (layout.areas [.left, .below]) axes
    ++ drawAxes ramPlane (layout.areas [.above, .right]) ramAxes
    ++ (if c.samples = [] then []
        else c.drawCpu plane ++ c.drawRam ramPlane ++ drawLegend layout.plot legend)

def chart (c : ResourceChart) : Chart where
  stem := stem
  size := size
  ranges := [c.timeRange, c.cpuRange, c.ramRange]
  dashesEnd canvas := Plot.dashesEnd dashPattern (c.ramPixels (c.ramPlane canvas))
  elements := c.elements

theorem ranges_chart (c : ResourceChart) (canvas : Nat × Nat) :
    c.chart.ranges = [(c.plane canvas).x.range, (c.plane canvas).y.range,
      (c.ramPlane canvas).y.range] :=
  rfl

end ResourceChart

end BenchCharts
