import BenchCharts.Binary.Integer
import BenchCharts.Binary.Root
import BenchCharts.Canvas.Element

/-!
# Dashed lines

A dashed line is traced along a polyline of pixels with a pen that is down for
one length and up for another, in turn.  Positions between pixels are single
precision values; each dash is a path of its own and keeps the corners of the
polyline that it passes.
-/

namespace BenchCharts.Plot

open Canvas

/-- The lengths of a dash and of the gap behind it, in pixels. -/
structure DashPattern where
  dash : Int
  gap : Int

namespace DashPattern

/-- The length of a dash, or of a gap. -/
def length (pattern : DashPattern) (dash : Bool) : Single :=
  .ofInt (if dash then pattern.dash else pattern.gap)

end DashPattern

/-- The point of the pen, between pixels. -/
structure PenPoint where
  x : Single
  y : Single
  deriving DecidableEq

namespace PenPoint

def ofPixel (p : Pixel) : PenPoint := ⟨.ofInt p.x, .ofInt p.y⟩

/-- The nearest pixel; halves go away from zero. -/
def toPixel (p : PenPoint) : Pixel := ⟨p.x.round.toInt32, p.y.round.toInt32⟩

/-- The points have the same coordinates as numbers. -/
def same (p q : PenPoint) : Bool := p.x.equals q.x && p.y.equals q.y

/-- The distance between two points. -/
def distance (p q : PenPoint) : Single := Binary.hypotenuse (q.x - p.x) (q.y - p.y)

/-- The point at a share of the way to another one. -/
def toward (p q : PenPoint) (share : Single) : PenPoint :=
  ⟨p.x + (q.x - p.x) * share, p.y + (q.y - p.y) * share⟩

end PenPoint

/-- A pen on its way: where it is, how far it has drawn or skipped since it was
last lowered or lifted, and the open path, last point first; with the paths
that are complete, last first. -/
structure Pen where
  point : PenPoint
  covered : Single := 0
  down : Bool := true
  path : List Pixel
  paths : List (List Pixel) := []

namespace Pen

/-- A pen lowered at a pixel. -/
def lowered (p : Pixel) : Pen :=
  { point := .ofPixel p, path := [(PenPoint.ofPixel p).toPixel] }

/-- The length at which the pen is next lifted or lowered. -/
def target (pattern : DashPattern) (pen : Pen) : Single :=
  pattern.length pen.down

/-- Moves the pen towards a point, as far as the open dash or gap reaches. -/
def move (pattern : DashPattern) (stop : PenPoint) (pen : Pen) : Pen :=
  let distance := pen.point.distance stop
  let left := pen.target pattern - pen.covered
  if left < distance then
    { pen with point := pen.point.toward stop (left / distance), covered := pen.covered + left }
  else
    { pen with point := stop, covered := pen.covered + distance }

/-- Adds the place of a lowered pen to its path. -/
def mark (pen : Pen) : Pen :=
  if pen.down then { pen with path := pen.point.toPixel :: pen.path } else pen

/-- Lifts or lowers the pen at the end of a dash or a gap. -/
def switch (pattern : DashPattern) (pen : Pen) : Pen :=
  if pen.target pattern ≤ pen.covered then
    if pen.down then
      { pen with covered := 0, down := false, path := [], paths := pen.path.reverse :: pen.paths }
    else
      { pen with covered := 0, down := true, path := pen.point.toPixel :: pen.path }
  else pen

/-- One move of the pen. -/
def step (pattern : DashPattern) (stop : PenPoint) (pen : Pen) : Pen :=
  (pen.move pattern stop).mark.switch pattern

/-- Moves the pen to a point. -/
def walk (pattern : DashPattern) (stop : PenPoint) : Nat → Pen → Pen
  | 0, pen => pen
  | fuel + 1, pen =>
      if pen.point.same stop then pen else walk pattern stop fuel (pen.step pattern stop)

/-- More moves than the way between two pixels takes: every two moves cover a dash
and a gap, or end at the pixel. -/
def moves (a b : Pixel) : Nat :=
  8 * ((b.x - a.x).natAbs + (b.y - a.y).natAbs) + 16

/-- Moves the pen through pixels, of which the first lies behind `last`. -/
def trace (pattern : DashPattern) (pen : Pen) (last : Pixel) : List Pixel → Pen
  | [] => pen
  | p :: rest => (pen.walk pattern (.ofPixel p) (moves last p)).trace pattern p rest

/-- The pen comes to all pixels, of which the first lies behind `last`. -/
def arrives (pattern : DashPattern) (pen : Pen) (last : Pixel) : List Pixel → Bool
  | [] => true
  | p :: rest =>
      let pen := pen.walk pattern (.ofPixel p) (moves last p)
      pen.point.same (.ofPixel p) && pen.arrives pattern p rest

/-- All paths of a pen; an open path counts if it has two points or more. -/
def finish (pen : Pen) : List (List Pixel) :=
  let paths := if 1 < pen.path.length then pen.path.reverse :: pen.paths else pen.paths
  paths.reverse

end Pen

/-- The pen comes to the end of a polyline.  Where the positions that it can take lie further
apart than two dashes, it does not move at all and never comes anywhere. -/
def dashesEnd (pattern : DashPattern) : List Pixel → Bool
  | [] => true
  | first :: rest => (Pen.lowered first).arrives pattern first rest

/-- The paths of a dashed line along a polyline that the pen comes to the end of. -/
def dashes (pattern : DashPattern) : List Pixel → List (List Pixel)
  | [] => []
  | first :: rest => ((Pen.lowered first).trace pattern first rest).finish

end BenchCharts.Plot
