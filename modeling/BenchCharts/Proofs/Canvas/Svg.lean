import BenchCharts.Canvas.Svg
import BenchCharts.Proofs.Decimal.Shortest
import BenchCharts.Proofs.Text.Markup

/-!
# Reading a document back

A drawing is written as a sequence of pieces of markup, one for an element without content
and two for a text (`Drawing.write_eq`).  `Drawing.read_write` says that a reader of markup
takes the document apart into these very pieces, whatever the texts of the drawing are.

This rests on the two sides of a bracket.  No tag holds a `>`, because all attributes are
numbers, colours and fixed words (`Element.inert_tag`), and no content holds a `<`, because
it is escaped.
-/

namespace BenchCharts.Canvas

open Text

/-! ## Texts that end no tag -/

/-- Inside a tag the text does not end it. -/
def Inert (text : String) : Prop :=
  '>' ∉ text.toList

instance (text : String) : Decidable (Inert text) :=
  inferInstanceAs (Decidable ('>' ∉ text.toList))

theorem Inert.append {a b : String} (ha : Inert a) (hb : Inert b) : Inert (a ++ b) := by
  rw [Inert, String.toList_append]
  exact fun h => (List.mem_append.mp h).elim ha hb

theorem inert_join {texts : List String} (h : ∀ text ∈ texts, Inert text) :
    Inert (String.join texts) := by
  induction texts with
  | nil =>
    rw [String.join_nil]
    decide
  | cons text texts ih =>
    obtain ⟨htext, htexts⟩ := List.forall_mem_cons.mp h
    rw [String.join_cons]
    exact htext.append (ih htexts)

theorem inert_nat (n : Nat) : Inert (toString n) := by
  intro h
  have hdigits : (toString n).toList = Nat.toDigits 10 n := Nat.toList_repr
  rw [hdigits] at h
  have hdigit : '>'.isDigit = true := Scientific.isDigit_of_mem_toDigits h
  revert hdigit
  decide

theorem inert_int (n : Int) : Inert (toString n) := by
  cases n with
  | ofNat n => exact inert_nat n
  | negSucc n => exact Inert.append (by decide) (inert_nat (n + 1))

theorem inert_shortest (x : Double) : Inert x.shortest := by
  intro h
  rw [Binary.shortest, String.toList_ofList] at h
  have hchar := Binary.mem_shortestChars h
  revert hchar
  decide

theorem inert_hexByte (b : UInt8) : Inert (hexByte b) := by
  have hdigit : ∀ n < 16, (Nat.digitChar n).toUpper ≠ '>' := by decide
  have hhigh := hdigit (b.toNat / 16) (by have := b.toNat_lt; omega)
  have hlow := hdigit (b.toNat % 16) (by omega)
  rw [Inert, hexByte, String.toList_ofList]
  simp [hhigh.symm, hlow.symm]

theorem inert_color (c : Color) : Inert c.text :=
  (((show Inert "#" by decide).append (inert_hexByte c.red)).append (inert_hexByte c.green)).append
    (inert_hexByte c.blue)

/-! ## Tags -/

/-- Name and value of an attribute end no tag. -/
def InertAttribute (a : Attribute) : Prop :=
  Inert a.1 ∧ Inert a.2

instance (a : Attribute) : Decidable (InertAttribute a) :=
  inferInstanceAs (Decidable (_ ∧ _))

theorem inert_writeTag {name : String} {attributes : List Attribute} (hname : Inert name)
    (h : ∀ a ∈ attributes, InertAttribute a) : Inert (writeTag name attributes) := by
  refine hname.append (inert_join ?_)
  intro text htext
  obtain ⟨a, ha, rfl⟩ := List.mem_map.mp htext
  obtain ⟨hkey, hvalue⟩ := h a ha
  exact ((((show Inert " " by decide).append hkey).append (show Inert "=\"" by decide)).append
    hvalue).append (show Inert "\"" by decide)

theorem inert_number {name : String} (hname : Inert name) (n : Int) :
    InertAttribute (number name n) :=
  ⟨hname, inert_int n⟩

theorem inert_opacity (p : Paint) : InertAttribute (opacity p) :=
  ⟨show Inert "opacity" by decide, inert_shortest p.opacity⟩

theorem inert_fillColor (p : Paint) : InertAttribute (fillColor p) :=
  ⟨show Inert "fill" by decide, inert_color p.color⟩

theorem inert_strokeColor (p : Paint) : InertAttribute (strokeColor p) :=
  ⟨show Inert "stroke" by decide, inert_color p.color⟩

theorem inert_extent (r : Rect) : ∀ a ∈ extent r, InertAttribute a := by
  simp only [extent, List.forall_mem_cons]
  exact ⟨inert_number (by decide) _, inert_number (by decide) _, inert_number (by decide) _,
    inert_number (by decide) _, by simp⟩

theorem inert_pointList (points : List Pixel) : InertAttribute (pointList points) := by
  refine ⟨show Inert "points" by decide, inert_join ?_⟩
  intro text htext
  obtain ⟨p, _, rfl⟩ := List.mem_map.mp htext
  exact (((inert_int p.x).append (show Inert "," by decide)).append (inert_int p.y)).append
    (show Inert " " by decide)

theorem inert_turn (place : Pixel) (turn : Turn) : Inert (turn.text place) := by
  have hdegrees (degrees : Nat) : Inert s!"rotate({degrees}, {place.x}, {place.y})" :=
    ((((((show Inert "rotate(" by decide).append (inert_nat degrees)).append
      (show Inert ", " by decide)).append (inert_int place.x)).append
      (show Inert ", " by decide)).append (inert_int place.y)).append (show Inert ")" by decide)
  cases turn with
  | clockwise => exact hdegrees 90
  | counterclockwise => exact hdegrees 270

theorem inert_textAttributes (place : Pixel) (s : TextStyle) :
    ∀ a ∈ textAttributes place s, InertAttribute a := by
  have hbaseline : Inert s.baseline.shift := by cases s.baseline <;> decide
  have hanchor : Inert s.anchor.text := by cases s.anchor <;> decide
  simp only [textAttributes, List.forall_mem_append, List.forall_mem_cons]
  refine ⟨⟨⟨inert_number (by decide) _, inert_number (by decide) _,
    ⟨show Inert "dy" by decide, hbaseline⟩, ⟨show Inert "text-anchor" by decide, hanchor⟩,
    ⟨show Inert "font-family" by decide, show Inert fontFamily by decide⟩,
    ⟨show Inert "font-size" by decide, inert_shortest _⟩, inert_opacity _, inert_fillColor _,
    by simp⟩, ?_⟩, ?_⟩
  · intro a ha
    split at ha
    · rw [List.mem_singleton.mp ha]
      exact ⟨by decide, by decide⟩
    · cases ha
  · intro a ha
    obtain ⟨turn, _, rfl⟩ := Option.map_eq_some_iff.mp (Option.mem_toList.mp ha)
    exact ⟨show Inert "transform" by decide, inert_turn place turn⟩

namespace Element

theorem inert_name (e : Element) : Inert e.tag.1 := by
  have hnames : ∀ name ∈ ["rect", "line", "polyline", "polygon", "circle", "text"], Inert name := by
    decide
  refine hnames e.tag.1 ?_
  cases e <;> simp [tag]

theorem inert_attributes (e : Element) : ∀ a ∈ e.tag.2, InertAttribute a := by
  cases e with
  | fill area paint =>
    simp only [tag, List.forall_mem_append, List.forall_mem_cons]
    exact ⟨inert_extent area, inert_opacity paint, inert_fillColor paint, by decide, by simp⟩
  | frame area paint =>
    simp only [tag, List.forall_mem_append, List.forall_mem_cons]
    exact ⟨inert_extent area, inert_opacity paint, by decide, inert_strokeColor paint, by simp⟩
  | line start stop paint =>
    simp only [tag, List.forall_mem_cons]
    exact ⟨inert_opacity paint, inert_strokeColor paint, inert_number (by decide) _,
      inert_number (by decide) _, inert_number (by decide) _, inert_number (by decide) _,
      inert_number (by decide) _, by simp⟩
  | polyline points paint width =>
    simp only [tag, List.forall_mem_cons]
    exact ⟨by decide, inert_opacity paint, inert_strokeColor paint, inert_number (by decide) _,
      inert_pointList points, by simp⟩
  | polygon points paint =>
    simp only [tag, List.forall_mem_cons]
    exact ⟨inert_opacity paint, inert_fillColor paint, inert_pointList points, by simp⟩
  | circle center radius paint =>
    simp only [tag, List.forall_mem_cons]
    exact ⟨inert_number (by decide) _, inert_number (by decide) _, inert_number (by decide) _,
      inert_opacity paint, inert_fillColor paint, by decide, inert_number (by decide) _, by simp⟩
  | text place style content => exact inert_textAttributes place style

/-- The tag of an element does not end early. -/
theorem inert_tag (e : Element) : Inert (writeTag e.tag.1 e.tag.2) :=
  inert_writeTag e.inert_name e.inert_attributes

end Element

/-! ## Pieces of a document -/

namespace Element

/-- The pieces of markup that an element is written as.  Behind the last tag of every element
and of the opening of a document there is a line break, which begins the next piece. -/
def pieces (e : Element) : List Markup.Piece :=
  let tag := (writeTag e.tag.1 e.tag.2).toList
  match e.content? with
  | none => [⟨['\n'], tag ++ ['/']⟩]
  | some content =>
      [⟨['\n'], tag⟩, ⟨'\n' :: Markup.encode content.toList ++ ['\n'], '/' :: e.tag.1.toList⟩]

theorem write_eq (e : Element) :
    '\n' :: e.write.toList = e.pieces.flatMap Markup.Piece.write ++ ['\n'] := by
  rw [pieces, Element.write]
  cases e.content? with
  | none => simp [Markup.Piece.write, toString]
  | some content => simp [Markup.Piece.write, escape, toString]

theorem isClean_pieces (e : Element) : ∀ p ∈ e.pieces, p.IsClean := by
  have htag := e.inert_tag
  have hbreak : '<' ∉ ['\n'] := by decide
  rw [pieces]
  cases e.content? with
  | none =>
    refine List.forall_mem_singleton.mpr ⟨hbreak, fun h => ?_⟩
    rcases List.mem_append.mp h with h | h
    · exact htag h
    · revert h
      decide
  | some content =>
    refine List.forall_mem_cons.mpr
      ⟨⟨hbreak, htag⟩, List.forall_mem_singleton.mpr ⟨fun h => ?_, ?_⟩⟩
    · have hcontent : '<' ∈ Markup.encode content.toList := by simpa using h
      cases Markup.eq_ampersand_of_mem_encode hcontent (by decide)
    · exact fun h => (List.mem_cons.mp h).elim (by decide) e.inert_name

end Element

namespace Drawing

/-- Size and name space of a document. -/
def attributes (d : Drawing) : List Attribute :=
  [("width", toString d.width), ("height", toString d.height),
    ("viewBox", s!"0 0 {d.width} {d.height}"), ("xmlns", "http://www.w3.org/2000/svg")]

/-- The pieces of markup that a drawing is written as, with a line break behind them. -/
def pieces (d : Drawing) : List Markup.Piece :=
  ⟨[], (writeTag "svg" d.attributes).toList⟩ :: d.elements.flatMap Element.pieces
    ++ [⟨['\n'], "/svg".toList⟩]

theorem write_elements (elements : List Element) :
    '\n' :: (String.join (elements.map Element.write)).toList
      = (elements.flatMap Element.pieces).flatMap Markup.Piece.write ++ ['\n'] := by
  induction elements with
  | nil => rfl
  | cons e elements ih =>
    rw [List.map_cons, String.join_cons, String.toList_append, ← List.cons_append, e.write_eq,
      List.append_assoc, List.singleton_append, ih, List.flatMap_cons, List.flatMap_append,
      List.append_assoc]

theorem write_eq (d : Drawing) :
    d.write.toList = d.pieces.flatMap Markup.Piece.write ++ ['\n'] := by
  have helements := write_elements d.elements
  have hheader : d.header = "<" ++ writeTag "svg" d.attributes ++ ">\n" := rfl
  have hopen : d.header.toList = '<' :: (writeTag "svg" d.attributes).toList ++ ['>', '\n'] := by
    rw [hheader]
    simp
  calc d.write.toList
      = '<' :: (writeTag "svg" d.attributes).toList ++ ['>']
          ++ '\n' :: (String.join (d.elements.map Element.write)).toList
          ++ ['<', '/', 's', 'v', 'g', '>', '\n'] := by
        rw [write, String.toList_append, String.toList_append, hopen]
        simp
    _ = d.pieces.flatMap Markup.Piece.write ++ ['\n'] := by
        rw [helements, pieces]
        simp [Markup.Piece.write]

theorem inert_attributes (d : Drawing) : ∀ a ∈ d.attributes, InertAttribute a := by
  have hview : Inert s!"0 0 {d.width} {d.height}" :=
    (((show Inert "0 0 " by decide).append (inert_nat d.width)).append
      (show Inert " " by decide)).append (inert_nat d.height)
  simp only [attributes, List.forall_mem_cons]
  exact ⟨⟨show Inert "width" by decide, inert_nat d.width⟩,
    ⟨show Inert "height" by decide, inert_nat d.height⟩,
    ⟨show Inert "viewBox" by decide, hview⟩, by decide, by simp⟩

theorem isClean_pieces (d : Drawing) : ∀ p ∈ d.pieces, p.IsClean := by
  have htag : Inert (writeTag "svg" d.attributes) := inert_writeTag (by decide) d.inert_attributes
  have hopen : Markup.Piece.IsClean ⟨[], (writeTag "svg" d.attributes).toList⟩ :=
    ⟨List.not_mem_nil, by simpa only [Inert] using htag⟩
  have hclose : Markup.Piece.IsClean ⟨['\n'], "/svg".toList⟩ := ⟨by decide, by decide⟩
  have helements : ∀ p ∈ d.elements.flatMap Element.pieces, p.IsClean := by
    intro p hp
    obtain ⟨e, _, hmem⟩ := List.mem_flatMap.mp hp
    exact e.isClean_pieces p hmem
  rw [pieces]
  exact List.forall_mem_append.mpr
    ⟨List.forall_mem_cons.mpr ⟨hopen, helements⟩, List.forall_mem_singleton.mpr hclose⟩

/-- A reader of markup takes a document apart into the pieces that were written, whatever
the texts of the drawing are. -/
theorem read_write (d : Drawing) :
    ({} : Markup.Reader).read d.write.toList = { done := d.pieces, before := ['\n'] } := by
  rw [write_eq]
  exact Markup.Reader.read_write d.isClean_pieces (by decide)

end Drawing

end BenchCharts.Canvas
