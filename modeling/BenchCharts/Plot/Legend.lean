import BenchCharts.Canvas.Element
import BenchCharts.Canvas.Unit

/-!
# Legends

A legend stands in the upper left corner of the plotting area: a framed box with
a line of text for every entry and a key in front of each.
-/

namespace BenchCharts.Plot

open Canvas

/-- The sign of a series in a legend. -/
inductive Key where
  /-- A filled square of twice the given half side. -/
  | square (paint : Paint) (half : Int)
  /-- A line of the given length and width. -/
  | stroke (paint : Paint) (length width : Int)

/-- A series as a legend names it. -/
structure LegendEntry where
  label : String
  key : Key

/-- The distance of the box from the corner of the plotting area. -/
def legendInset : Int := 5

/-- The space inside the box around its contents. -/
def legendMargin : Int := 10

/-- The width that is kept for the keys. -/
def keySpace : Int := 30

/-- The look of the entries. -/
def legendStyle : TextStyle :=
  { size := fontPixels 10 }

/-- The distance of an entry from the first one. -/
def lineOffset (line : Nat) : Int :=
  (Binary.ofNat line * (legendStyle.size * 1.25)).round.toInt32

/-- Lines with their numbers. -/
def numbered (entries : List LegendEntry) : List (Nat × LegendEntry) :=
  (List.range entries.length).zip entries

/-- The size of the texts of all entries. -/
def entriesSize (entries : List LegendEntry) : Int × Int :=
  (numbered entries).foldl
    (fun (width, height) (line, entry) =>
      (max width (legendStyle.textWidth entry.label),
        max height (lineOffset line + legendStyle.textHeight)))
    (0, 0)

/-- A key whose left end is at a place inside the area. -/
def drawKey (area : Rect) (place : Pixel) : Key → Element
  | .square paint half =>
      .fill (.spanning (area.clamp (place.offset 0 (-half)))
        (area.clamp (place.offset (2 * half) half))) paint
  | .stroke paint length width =>
      .polyline [area.clamp place, area.clamp (place.offset length 0)] paint width

/-- The legend of a plotting area. -/
def drawLegend (area : Rect) (entries : List LegendEntry) : List Element :=
  let (width, height) := entriesSize entries
  let box := area.corner.offset legendInset legendInset
  let size := (width + keySpace + 2 * legendMargin, height + 2 * legendMargin)
  let border : Rect := .spanning (area.clamp box) (area.clamp (box.offset size.1 size.2))
  let texts := box.offset (keySpace + legendMargin) legendMargin
  let drawText (line : Nat) (entry : LegendEntry) : Element :=
    .text ((area.clamp texts).offset 0 (lineOffset line)) legendStyle entry.label
  let keyPlace (line : Nat) : Pixel :=
    let top := legendInset + legendMargin + lineOffset line
    let middle := (2 * top + legendStyle.textHeight).tdiv 2
    area.corner.offset (legendInset + legendMargin) middle
  [.fill border (white.mix 0.8), .frame border (black.mix 0.3)]
    ++ (numbered entries).map (fun (line, entry) => drawText line entry)
    ++ (numbered entries).map (fun (line, entry) => drawKey area (keyPlace line) entry.key)

end BenchCharts.Plot
