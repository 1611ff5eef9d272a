import BenchCharts.Canvas.Element
import BenchCharts.Canvas.Unit

/-!
# Layout of a chart

A chart keeps a margin on all sides of its canvas, its title at the top, and a
plotting area below the title.  Four cut lines divide the space below the title
into three columns and three rows; the plotting area is the cell in the middle,
and the cells above, below, left and right of it are for labels.  On a small
canvas the lines cross; they are put in order before the cells are formed.
-/

namespace BenchCharts.Plot

open Canvas

/-- A side of the plotting area. -/
inductive Side where
  | above
  | left
  | below
  | right
  deriving DecidableEq

/-- The space in pixels that a chart asks for below, left and right of its
plotting area. -/
structure LabelSpace where
  below : Int
  left : Int
  right : Int := 0

/-- The plotting area and the label areas that are not empty. -/
structure Layout where
  plot : Rect
  labels : Side → Option Rect

/-- The margin of a chart. -/
def margin : Int := pixels 10

/-- The look of a title. -/
def titleStyle : TextStyle :=
  { size := fontPixels 12, anchor := .middle }

/-- The largest distance between a title and the edge above it. -/
def titleGap : Int := 5

/-- A title at the upper edge of an area, and the area below it. -/
def placeTitle (area : Rect) (title : String) : Element × Rect :=
  let height := titleStyle.textHeight
  let gap := min (height / 2) titleGap
  let place := area.corner.offset (area.width.tdiv 2) gap
  (.text place titleStyle title, { area with top := area.top + 2 * gap + height })

/-- Inserts a number into an ordered list. -/
def insertSorted (n : Int) : List Int → List Int
  | [] => [n]
  | m :: rest => if n ≤ m then n :: m :: rest else m :: insertSorted n rest

/-- Four numbers in order. -/
def sort4 (a b c d : Int) : Int × Int × Int × Int :=
  match [a, b, c, d].foldr insertSorted [] with
  | [p, q, r, s] => (p, q, r, s)
  | _ => (a, b, c, d)

/-- The rectangle, unless it is empty. -/
def nonempty (r : Rect) : Option Rect :=
  if 0 < r.width ∧ 0 < r.height then some r else none

namespace Layout

/-- Divides the space below the title. -/
def ofArea (area : Rect) (space : LabelSpace) : Layout :=
  let (x0, x1, x2, x3) :=
    sort4 area.left area.right (area.left + space.left) (area.right - space.right)
  let (y0, y1, y2, y3) := sort4 area.top area.bottom area.top (area.bottom - space.below)
  { plot := ⟨x1, y1, x2, y2⟩
    labels := fun
      | .above => nonempty ⟨x1, y0, x2, y1⟩
      | .left => nonempty ⟨x0, y1, x1, y2⟩
      | .below => nonempty ⟨x1, y2, x2, y3⟩
      | .right => nonempty ⟨x2, y1, x3, y2⟩ }

/-- The label areas of the given sides, in the order in which they are drawn. -/
def areas (l : Layout) (sides : List Side) : List (Side × Rect) :=
  sides.filterMap fun side => (l.labels side).map (side, ·)

end Layout

end BenchCharts.Plot
