import BenchCharts.Binary.Integer
import BenchCharts.Canvas.Geometry

/-!
# Drawing elements

What is drawn is a list of elements, each with its place in pixels and its
paint.  `textWidth` and `textHeight` estimate the space that a text takes; the
estimate knows the number of bytes of a text and not its letters.
-/

namespace BenchCharts.Canvas

/-! ## Paint -/

/-- A colour of three channels. -/
structure Color where
  red : UInt8
  green : UInt8
  blue : UInt8
  deriving DecidableEq

def black : Color := ⟨0, 0, 0⟩

def white : Color := ⟨255, 255, 255⟩

/-- A colour and how strongly it covers what lies below it. -/
structure Paint where
  color : Color
  opacity : Double := 1
  deriving DecidableEq

/-- The colour in full strength. -/
def Color.solid (c : Color) : Paint := { color := c }

/-- The colour in the given strength. -/
def Color.mix (c : Color) (opacity : Double) : Paint := { color := c, opacity }

/-! ## Text -/

/-- Which point of a text is placed, from left to right. -/
inductive Anchor where
  | start
  | middle
  | end
  deriving DecidableEq

/-- Which point of a text is placed, from top to bottom. -/
inductive Baseline where
  | top
  | center
  | bottom
  deriving DecidableEq

/-- A rotation about the placed point by a quarter turn. -/
inductive Turn where
  | clockwise
  | counterclockwise
  deriving DecidableEq

/-- The look of a text; the size is in pixels. -/
structure TextStyle where
  size : Double
  paint : Paint := black.solid
  bold : Bool := false
  anchor : Anchor := .start
  baseline : Baseline := .top
  turn : Option Turn := none
  deriving DecidableEq

namespace TextStyle

/-- The style with another placed point. -/
def placed (s : TextStyle) (anchor : Anchor) (baseline : Baseline) : TextStyle :=
  { s with anchor, baseline }

/-- The size that is written into a document, in which ascent and descent are
not counted. -/
def fontSize (s : TextStyle) : Double :=
  s.size / 1.24

/-- The height of a capital letter for estimates of space. -/
def em (s : TextStyle) : Double :=
  s.fontSize / 1.24

/-- The estimated width of a text. -/
def textWidth (s : TextStyle) (text : String) : Int :=
  (s.em * 0.7 * Binary.ofNat text.utf8ByteSize).round.toInt32

/-- The estimated height of a line. -/
def textHeight (s : TextStyle) : Int :=
  (s.em * 0.24).round.toInt32 + s.em.round.toInt32

end TextStyle

/-! ## Elements -/

/-- One thing drawn. -/
inductive Element where
  | fill (area : Rect) (paint : Paint)
  | frame (area : Rect) (paint : Paint)
  | line (start stop : Pixel) (paint : Paint)
  | polyline (points : List Pixel) (paint : Paint) (width : Int)
  | polygon (points : List Pixel) (paint : Paint)
  | circle (center : Pixel) (radius : Int) (paint : Paint)
  | text (place : Pixel) (style : TextStyle) (content : String)
  deriving DecidableEq

/-- A drawing on a canvas of the given size. -/
structure Drawing where
  width : Nat
  height : Nat
  elements : List Element
  deriving DecidableEq

end BenchCharts.Canvas
