/-!
# Pixels and rectangles

Pixel coordinates grow to the right and downwards.  A rectangle is given by its
four edges and may be inverted when a canvas is too small for what is laid out
on it; `Rect.clamp` then prefers the left and the upper edge.
-/

namespace BenchCharts.Canvas

/-- A position in pixels. -/
structure Pixel where
  x : Int
  y : Int
  deriving DecidableEq, Inhabited

/-- The position moved by a distance in each direction. -/
def Pixel.offset (p : Pixel) (dx dy : Int) : Pixel :=
  ⟨p.x + dx, p.y + dy⟩

/-- A rectangle of pixels. -/
structure Rect where
  left : Int
  top : Int
  right : Int
  bottom : Int
  deriving DecidableEq, Inhabited

namespace Rect

def width (r : Rect) : Int := r.right - r.left

def height (r : Rect) : Int := r.bottom - r.top

/-- The upper left corner. -/
def corner (r : Rect) : Pixel := ⟨r.left, r.top⟩

/-- The rectangle without a border of the given width. -/
def shrink (r : Rect) (border : Int) : Rect :=
  ⟨r.left + border, r.top + border, r.right - border, r.bottom - border⟩

/-- The nearest position inside the rectangle. -/
def clamp (r : Rect) (p : Pixel) : Pixel :=
  ⟨max (min p.x r.right) r.left, max (min p.y r.bottom) r.top⟩

/-- The rectangle spanned by two opposite corners. -/
def spanning (a b : Pixel) : Rect :=
  ⟨min a.x b.x, min a.y b.y, max a.x b.x, max a.y b.y⟩

end Rect

end BenchCharts.Canvas
