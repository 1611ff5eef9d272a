import BenchCharts.Canvas.Element
import BenchCharts.Canvas.Unit
import BenchCharts.Decimal.Shortest
import BenchCharts.Text.Markup

/-!
# Writing a drawing as SVG

Every element is one tag with its attributes in a fixed order.  A text element
has its content, escaped, on lines of its own between the opening and the
closing tag.
-/

namespace BenchCharts.Canvas

/-! ## Attributes -/

/-- A tag's attribute and its value. -/
abbrev Attribute := String × String

/-- An attribute as it is written. -/
def writeAttribute (a : Attribute) : String :=
  s!" {a.1}=\"{a.2}\""

/-- The inside of a tag. -/
def writeTag (name : String) (attributes : List Attribute) : String :=
  name ++ String.join (attributes.map writeAttribute)

/-- A byte as two hexadecimal digits. -/
def hexByte (b : UInt8) : String :=
  let digit (n : Nat) := (Nat.digitChar n).toUpper
  String.ofList [digit (b.toNat / 16), digit (b.toNat % 16)]

/-- A colour as it is written. -/
def Color.text (c : Color) : String :=
  "#" ++ hexByte c.red ++ hexByte c.green ++ hexByte c.blue

def opacity (p : Paint) : Attribute := ("opacity", p.opacity.shortest)

def number (name : String) (n : Int) : Attribute := (name, toString n)

def fillColor (p : Paint) : Attribute := ("fill", p.color.text)

def strokeColor (p : Paint) : Attribute := ("stroke", p.color.text)

/-- Place and size of a rectangle. -/
def extent (r : Rect) : List Attribute :=
  [number "x" r.left, number "y" r.top, number "width" r.width, number "height" r.height]

/-- Points of a line or an outline. -/
def pointList (points : List Pixel) : Attribute :=
  ("points", String.join (points.map fun p => s!"{p.x},{p.y} "))

/-! ## Text -/

def Anchor.text : Anchor → String
  | start => "start"
  | middle => "middle"
  | «end» => "end"

/-- How far the baseline lies below the placed point. -/
def Baseline.shift : Baseline → String
  | top => "0.76em"
  | center => "0.5ex"
  | bottom => "-0.5ex"

/-- The rotation about a point. -/
def Turn.text (place : Pixel) (turn : Turn) : String :=
  let degrees := match turn with
    | clockwise => 90
    | counterclockwise => 270
  s!"rotate({degrees}, {place.x}, {place.y})"

/-- The attributes of a text. -/
def textAttributes (place : Pixel) (s : TextStyle) : List Attribute :=
  [number "x" place.x, number "y" place.y, ("dy", s.baseline.shift),
    ("text-anchor", s.anchor.text), ("font-family", fontFamily),
    ("font-size", s.fontSize.shortest), opacity s.paint, fillColor s.paint]
  ++ (if s.bold then [("font-weight", "bold")] else [])
  ++ (s.turn.map fun turn => ("transform", turn.text place)).toList

/-- A text with markup characters written as entities. -/
def escape (text : String) : String :=
  String.ofList (Text.Markup.encode text.toList)

/-! ## Elements -/

namespace Element

/-- The tag of an element and its attributes. -/
def tag : Element → String × List Attribute
  | fill area paint =>
      ("rect", extent area ++ [opacity paint, fillColor paint, ("stroke", "none")])
  | frame area paint =>
      ("rect", extent area ++ [opacity paint, ("fill", "none"), strokeColor paint])
  | line start stop paint =>
      ("line", [opacity paint, strokeColor paint, number "stroke-width" 1,
        number "x1" start.x, number "y1" start.y, number "x2" stop.x, number "y2" stop.y])
  | polyline points paint width =>
      ("polyline", [("fill", "none"), opacity paint, strokeColor paint,
        number "stroke-width" width, pointList points])
  | polygon points paint =>
      ("polygon", [opacity paint, fillColor paint, pointList points])
  | circle center radius paint =>
      ("circle", [number "cx" center.x, number "cy" center.y, number "r" radius,
        opacity paint, fillColor paint, ("stroke", "none"), number "stroke-width" 1])
  | text place style _ =>
      ("text", textAttributes place style)

/-- The text that an element shows. -/
def content? : Element → Option String
  | text _ _ content => some content
  | _ => none

/-- An element as it is written, with the line break behind it. -/
def write (e : Element) : String :=
  let (name, attributes) := e.tag
  match e.content? with
  | none => s!"<{writeTag name attributes}/>\n"
  | some content => s!"<{writeTag name attributes}>\n{escape content}\n</{name}>\n"

end Element

/-! ## Documents -/

namespace Drawing

/-- The opening tag of a document. -/
def header (d : Drawing) : String :=
  let attributes : List Attribute :=
    [("width", toString d.width), ("height", toString d.height),
      ("viewBox", s!"0 0 {d.width} {d.height}"), ("xmlns", "http://www.w3.org/2000/svg")]
  "<" ++ writeTag "svg" attributes ++ ">\n"

/-- The whole document. -/
def write (d : Drawing) : String :=
  d.header ++ String.join (d.elements.map Element.write) ++ "</svg>\n"

end Drawing

end BenchCharts.Canvas
