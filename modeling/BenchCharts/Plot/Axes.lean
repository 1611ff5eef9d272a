import BenchCharts.Axis.Label
import BenchCharts.Axis.Scale
import BenchCharts.Axis.Tick
import BenchCharts.Plot.Layout

/-!
# Drawing axes

The axes of a plane show in the label areas around it: first the titles, then
the mesh lines across the plane, and then for every area the axis line with a
label and a tick mark for each tick that lies on it.
-/

namespace BenchCharts.Plot

open Axis Canvas

/-! ## Styles -/

/-- How one of the two axes of a plane is drawn. -/
structure AxisStyle where
  limit : Nat := 11
  mesh : Bool := false
  label : Double → String := numberLabel
  text : TextStyle
  title : Option String := none

/-- How both axes of a plane are drawn. -/
structure AxesStyle where
  x : AxisStyle
  y : AxisStyle
  titleStyle : TextStyle

/-- The paint of axis lines and tick marks. -/
def axisPaint : Paint := black.solid

/-- The paint of mesh lines. -/
def meshPaint : Paint := black.mix 0.15

/-- The length of a tick mark: a twentieth of the smaller side of the plotting
area, and at most five pixels. -/
def tickLength (plot : Rect) : Int :=
  min (Binary.ofInt (min plot.width plot.height) * 0.05 : Double).round.toInt32 5

namespace Side

/-- The sides along which the horizontal axis runs. -/
def isHorizontal : Side → Bool
  | above | below => true
  | left | right => false

end Side

/-- A tick's pixel on its axis and the text at it. -/
structure Tick where
  pixel : Int
  text : String

/-- The ticks of an axis. -/
def axisTicks (scale : Scale) (style : AxisStyle) : List Tick :=
  (ticks scale.range style.limit).map fun x => ⟨scale.pixel x, style.label x⟩

/-! ## Titles and mesh -/

/-- The title of an axis in a label area. -/
def axisTitle (side : Side) (area : Rect) (style : TextStyle) (title : String) : Element :=
  let middleX := area.left + area.width.tdiv 2
  let middleY := area.top + area.height.tdiv 2
  match side with
  | .above => .text ⟨middleX, area.top⟩ (style.placed .middle .top) title
  | .below => .text ⟨middleX, area.bottom⟩ (style.placed .middle .bottom) title
  | .left =>
      .text ⟨area.left, middleY⟩
        { style.placed .middle .top with turn := some .counterclockwise } title
  | .right =>
      .text ⟨area.right, middleY⟩ { style.placed .middle .top with turn := some .clockwise } title

/-- The mesh line of a tick of the horizontal axis. -/
def verticalLine (p : Plane) (t : Tick) : Element :=
  .line ⟨t.pixel, p.y.start⟩ ⟨t.pixel, p.y.stop⟩ meshPaint

/-- The mesh line of a tick of the vertical axis. -/
def horizontalLine (p : Plane) (t : Tick) : Element :=
  .line ⟨p.x.start, t.pixel⟩ ⟨p.x.stop, t.pixel⟩ meshPaint

/-! ## Axis lines and labels -/

/-- A path in a label area, each point moved into the area. -/
def areaPath (area : Rect) (a b : Pixel) : Element :=
  .polyline [area.clamp a, area.clamp b] axisPaint 1

/-- The line of an axis along the inner edge of its label area. -/
def axisLine (side : Side) (area : Rect) (scale : Scale) : Element :=
  match side with
  | .above => areaPath area ⟨scale.low, area.bottom - 1⟩ ⟨scale.high, area.bottom - 1⟩
  | .below => areaPath area ⟨scale.low, area.top⟩ ⟨scale.high, area.top⟩
  | .left => areaPath area ⟨area.right - 1, scale.low⟩ ⟨area.right - 1, scale.high⟩
  | .right => areaPath area ⟨area.left, scale.low⟩ ⟨area.left, scale.high⟩

/-- The mark of a tick, from the axis line outwards. -/
def tickMark (side : Side) (area : Rect) (length p : Int) : Element :=
  match side with
  | .above => areaPath area ⟨p, area.bottom - 1 - length⟩ ⟨p, area.bottom - 1⟩
  | .below => areaPath area ⟨p, area.top⟩ ⟨p, area.top + length⟩
  | .left => areaPath area ⟨area.right - 1 - length, p⟩ ⟨area.right - 1, p⟩
  | .right => areaPath area ⟨area.left, p⟩ ⟨area.left + length, p⟩

/-- The smallest of some widths, but at least one. -/
def leastWidth (widths : List Int) : Int :=
  max (widths.min?.getD 1) 1

/-- The width at which labels on the right are aligned: the largest width below
twice the smallest one.  A wider label sticks out to the right. -/
def alignmentWidth (widths : List Int) : Int :=
  let least := leastWidth widths
  let most := ((widths.filter (· < 2 * least)).max?).getD least
  min (2 * least) most

/-- The label of a tick at a distance from the axis line; `alignment` is the
width for labels on the right. -/
def tickLabel (side : Side) (area : Rect) (style : TextStyle) (distance alignment : Int)
    (t : Tick) : Element :=
  match side with
  | .above => .text ⟨t.pixel, area.bottom - distance⟩ (style.placed .middle .bottom) t.text
  | .below => .text ⟨t.pixel, area.top + distance⟩ (style.placed .middle .top) t.text
  | .left => .text ⟨area.right - distance, t.pixel⟩ (style.placed .end .center) t.text
  | .right =>
      if alignment ≤ style.textWidth t.text then
        .text ⟨area.left + distance, t.pixel⟩ (style.placed .start .center) t.text
      else
        .text ⟨area.left + distance + alignment, t.pixel⟩ (style.placed .end .center) t.text

/-- The line, the labels and the marks of an axis in one label area. -/
def drawAxis (length : Int) (side : Side) (area : Rect) (scale : Scale) (style : TextStyle)
    (ticks : List Tick) : List Element :=
  let alignment := alignmentWidth (ticks.map fun t => style.textWidth t.text)
  let drawTick (t : Tick) : List Element :=
    tickLabel side area style (2 * length) alignment t
      :: if length = 0 then [] else [tickMark side area length t.pixel]
  axisLine side area scale :: (ticks.filter fun t => scale.covers t.pixel).flatMap drawTick

/-- The axes of a plane in the given label areas. -/
def drawAxes (plane : Plane) (areas : List (Side × Rect)) (style : AxesStyle) : List Element :=
  let axisOf (side : Side) : AxisStyle := if side.isHorizontal then style.x else style.y
  let scaleOf (side : Side) : Scale := if side.isHorizontal then plane.x else plane.y
  let ticksOf (side : Side) : List Tick := axisTicks (scaleOf side) (axisOf side)
  let title (side : Side) (area : Rect) : List Element :=
    ((axisOf side).title.map (axisTitle side area style.titleStyle)).toList
  let axis (side : Side) (area : Rect) : List Element :=
    drawAxis (tickLength plane.area) side area (scaleOf side) (axisOf side).text (ticksOf side)
  areas.flatMap (fun (side, area) => title side area)
    ++ (if style.x.mesh then (axisTicks plane.x style.x).map (verticalLine plane) else [])
    ++ (if style.y.mesh then (axisTicks plane.y style.y).map (horizontalLine plane) else [])
    ++ areas.flatMap (fun (side, area) => axis side area)

end BenchCharts.Plot
