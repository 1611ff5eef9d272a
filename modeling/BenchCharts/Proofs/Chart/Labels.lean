import BenchCharts.Chart.Latency
import BenchCharts.Chart.Stability
import BenchCharts.Proofs.Canvas.Svg
import Mathlib.Data.List.Forall2

/-!
# Labels of scenarios

The labels of the scenarios reach a chart through the tick labels of its horizontal axis
and in no other way.  Two charts that differ in their labels alone are drawn element by
element alike (`forall₂_drawAxes`): the ticks, the layout and the data are found without the
labels, and along a horizontal axis a label is placed by its tick and not by its width.

In the document a label is the content of a text element.  The content is escaped, so that
a reader of markup finds the same tags whatever the labels are (`forall₂_pieces`).
-/

namespace BenchCharts

open Axis Canvas Plot Text

/-! ## Drawings that differ in labels -/

section

variable (scale : Scale) (limit : Nat) (f g : Double → String)

/-- Two elements that are the same, or the texts that two ways to label an axis put at the
same tick. -/
inductive SameElement : Element → Element → Prop where
  | same (e : Element) : SameElement e e
  | label {x : Double} (hx : x ∈ ticks scale.range limit) (row : Int) (style : TextStyle) :
      SameElement (.text ⟨scale.pixel x, row⟩ style (f x)) (.text ⟨scale.pixel x, row⟩ style (g x))

/-- Ticks at the same value. -/
inductive SameTick : Tick → Tick → Prop where
  | tick {x : Double} (hx : x ∈ ticks scale.range limit) :
      SameTick ⟨scale.pixel x, f x⟩ ⟨scale.pixel x, g x⟩

/-- Two pieces of documents that are the same, or the ends of the texts that two ways to label
an axis put at the same tick. -/
inductive SamePiece (values : List Double) : Markup.Piece → Markup.Piece → Prop where
  | same (p : Markup.Piece) : SamePiece values p p
  | label {x : Double} (hx : x ∈ values) (tag : List Char) :
      SamePiece values ⟨'\n' :: Markup.encode (f x).toList ++ ['\n'], tag⟩
        ⟨'\n' :: Markup.encode (g x).toList ++ ['\n'], tag⟩

end

section

variable {scale : Scale} {limit : Nat} {f g : Double → String}

theorem forall₂_same_element (elements : List Element) :
    List.Forall₂ (SameElement scale limit f g) elements elements :=
  List.forall₂_same.mpr fun e _ => .same e

theorem forall₂_append_same {xs ys : List Element}
    (h : List.Forall₂ (SameElement scale limit f g) xs ys) (elements : List Element) :
    List.Forall₂ (SameElement scale limit f g) (xs ++ elements) (ys ++ elements) :=
  List.rel_append h (forall₂_same_element elements)

/-- Only the content tells the elements of a label apart. -/
theorem SameElement.tag_eq {e e' : Element} (h : SameElement scale limit f g e e') :
    e'.tag = e.tag := by
  cases h with
  | same => rfl
  | label => rfl

/-! ## Axes -/

/-- Where ticks stand at the same values, the elements of a horizontal axis are the same but
for the labels. -/
theorem forall₂_drawAxis {side : Side} (hside : side.isHorizontal = true) (length : Int)
    (area : Rect) (style : TextStyle) {ts us : List Tick}
    (h : List.Forall₂ (SameTick scale limit f g) ts us) :
    List.Forall₂ (SameElement scale limit f g) (drawAxis length side area scale style ts)
      (drawAxis length side area scale style us) := by
  refine .cons (.same _) (List.rel_flatMap (List.rel_filter ?_ h) ?_)
  · rintro _ _ ⟨hx⟩
    rfl
  · rintro _ _ ⟨hx⟩
    refine .cons ?_ (forall₂_same_element _)
    cases side with
    | above => exact .label hx _ _
    | below => exact .label hx _ _
    | left => cases hside
    | right => cases hside

theorem forall₂_axisTicks (scale : Scale) (style : AxisStyle) (g : Double → String) :
    List.Forall₂ (SameTick scale style.limit style.label g) (axisTicks scale style)
      (axisTicks scale { style with label := g }) := by
  rw [axisTicks, axisTicks, List.forall₂_map_left_iff, List.forall₂_map_right_iff]
  exact List.forall₂_same.mpr fun x hx => .tick hx

/-- The axes of a plane are drawn alike but for the labels of the horizontal axis. -/
theorem forall₂_drawAxes (plane : Plane) (areas : List (Side × Rect)) (style : AxesStyle)
    (g : Double → String) :
    List.Forall₂ (SameElement plane.x style.x.limit style.x.label g) (drawAxes plane areas style)
      (drawAxes plane areas { style with x := { style.x with label := g } }) := by
  have hareas : List.Forall₂ (· = ·) areas areas := List.forall₂_same.mpr fun _ _ => rfl
  have hticks := forall₂_axisTicks plane.x style.x g
  unfold drawAxes
  refine List.rel_append (List.rel_append (List.rel_append ?titles ?xMesh) ?yMesh) ?axes
  case titles =>
    refine List.rel_flatMap hareas ?_
    rintro ⟨side, area⟩ _ rfl
    cases side <;> exact forall₂_same_element _
  case xMesh =>
    -- a mesh line knows the pixel of its tick only
    cases style.x.mesh with
    | false => exact .nil
    | true =>
      refine List.rel_map ?_ hticks
      rintro _ _ ⟨hx⟩
      exact .same _
  case yMesh => exact forall₂_same_element _
  case axes =>
    refine List.rel_flatMap hareas ?_
    rintro ⟨side, area⟩ _ rfl
    cases side with
    | above => exact forall₂_drawAxis rfl _ area _ hticks
    | below => exact forall₂_drawAxis rfl _ area _ hticks
    | left => exact forall₂_same_element _
    | right => exact forall₂_same_element _

/-! ## Documents -/

/-- The pieces of markup of two drawings are the same but for the ends of label texts. -/
theorem forall₂_pieces {xs ys : List Element}
    (h : List.Forall₂ (SameElement scale limit f g) xs ys) :
    List.Forall₂ (SamePiece f g (ticks scale.range limit)) (xs.flatMap Element.pieces)
      (ys.flatMap Element.pieces) := by
  refine List.rel_flatMap h ?_
  rintro e e' hsame
  cases hsame with
  | same => exact List.forall₂_same.mpr fun p _ => .same p
  | label hx row style => exact .cons (.same _) (.cons (.label hx _) .nil)

end

/-- Two drawings are the same but for the labels of the scenarios.  All elements have the same
tags with the same attributes, and the contents of two elements differ at most if they are
the labels of one tick of a horizontal axis that has a slot for every scenario.  A reader
of markup finds the same tags in both documents, and between them the same texts but for
those labels, which are escaped. -/
structure SameButLabels (labels labels' : List String) (d d' : Drawing) : Prop where
  size : d'.width = d.width ∧ d'.height = d.height
  tags : d'.elements.map Element.tag = d.elements.map Element.tag
  elements : ∃ scale : Scale, scale.range = categories labels.length ∧
    List.Forall₂
      (SameElement scale labels.length (categoryLabel labels) (categoryLabel labels'))
      d.elements d'.elements
  document : ∃ pieces pieces' : List Markup.Piece,
    ({} : Markup.Reader).read d.write.toList = { done := pieces, before := ['\n'] } ∧
    ({} : Markup.Reader).read d'.write.toList = { done := pieces', before := ['\n'] } ∧
    List.Forall₂ (SamePiece (categoryLabel labels) (categoryLabel labels')
      (ticks (categories labels.length) labels.length)) pieces pieces'

/-- It is enough to compare the elements. -/
theorem sameButLabels_of_elements {labels labels' : List String} {width height : Nat}
    {scale : Scale} (hrange : scale.range = categories labels.length) {xs ys : List Element}
    (h : List.Forall₂
      (SameElement scale labels.length (categoryLabel labels) (categoryLabel labels')) xs ys) :
    SameButLabels labels labels' ⟨width, height, xs⟩ ⟨width, height, ys⟩ where
  size := ⟨rfl, rfl⟩
  tags := by
    induction h with
    | nil => rfl
    | cons he _ ih => rw [List.map_cons, List.map_cons, he.tag_eq, ih]
  elements := ⟨scale, hrange, h⟩
  document := by
    have hpieces := forall₂_pieces h
    rw [hrange] at hpieces
    refine ⟨_, _, Drawing.read_write _, Drawing.read_write _, ?_⟩
    exact .cons (.same _) (List.rel_append hpieces (.cons (.same _) .nil))

/-- Charts that are drawn alike on every canvas have images that are alike. -/
theorem sameButLabels_of_chart {labels labels' : List String} {c c' : Chart}
    (hsize : c'.size = c.size)
    (h : ∀ canvas, ∃ scale : Scale, scale.range = categories labels.length ∧
      List.Forall₂ (SameElement scale labels.length (categoryLabel labels)
        (categoryLabel labels')) (c.elements canvas) (c'.elements canvas)) (canvas : Nat × Nat) :
    SameButLabels labels labels' (c.drawOn canvas) (c'.drawOn canvas) ∧
      SameButLabels labels labels' c.image c'.image := by
  constructor
  · obtain ⟨scale, hrange, hsame⟩ := h canvas
    exact sameButLabels_of_elements hrange hsame
  · obtain ⟨scale, hrange, hsame⟩ := h c.size
    rw [Chart.image, Chart.image, hsize]
    exact sameButLabels_of_elements hrange (.cons (.same _) hsame)

namespace LatencyChart

theorem axes_relabel (c : LatencyChart) {labels : List String}
    (hlength : labels.length = c.labels.length) :
    ({ c with labels } : LatencyChart).axes
      = { c.axes with x := { c.axes.x with label := categoryLabel labels } } := by
  rw [axes, axes, hlength]

theorem forall₂_elements (c : LatencyChart) {labels : List String}
    (hlength : labels.length = c.labels.length) (canvas : Nat × Nat) :
    ∃ scale : Scale, scale.range = categories c.labels.length ∧
      List.Forall₂ (SameElement scale c.labels.length (categoryLabel c.labels)
        (categoryLabel labels)) (c.elements canvas) ({ c with labels }.elements canvas) := by
  have hplane : ({ c with labels } : LatencyChart).plane canvas = c.plane canvas := by
    rw [plane, slots, hlength]
    rfl
  unfold elements
  rw [c.axes_relabel hlength, hplane]
  refine ⟨(c.plane canvas).x, rfl, ?_⟩
  -- bars, annotations and legend are behind the axes
  iterate 4 apply forall₂_append_same
  exact .cons (.same _) (forall₂_drawAxes (c.plane canvas) _ c.axes _)

theorem size_chart (c : LatencyChart) : c.chart.size = size :=
  rfl

theorem sameButLabels (c : LatencyChart) {labels : List String}
    (hlength : labels.length = c.labels.length) (canvas : Nat × Nat) :
    let chart := ({ c with labels } : LatencyChart).chart
    SameButLabels c.labels labels (c.chart.drawOn canvas) (chart.drawOn canvas) ∧
      SameButLabels c.labels labels c.chart.image chart.image := by
  intro chart
  have hsize : chart.size = c.chart.size := (size_chart _).trans (size_chart c).symm
  exact sameButLabels_of_chart hsize (c.forall₂_elements hlength) canvas

end LatencyChart

namespace StabilityChart

theorem axes_relabel (c : StabilityChart) {labels : List String}
    (hlength : labels.length = c.labels.length) :
    ({ c with labels } : StabilityChart).axes
      = { c.axes with x := { c.axes.x with label := categoryLabel labels } } := by
  rw [axes, axes, hlength]

theorem forall₂_elements (c : StabilityChart) {labels : List String}
    (hlength : labels.length = c.labels.length) (canvas : Nat × Nat) :
    ∃ scale : Scale, scale.range = categories c.labels.length ∧
      List.Forall₂ (SameElement scale c.labels.length (categoryLabel c.labels)
        (categoryLabel labels)) (c.elements canvas) ({ c with labels }.elements canvas) := by
  have hplane : ({ c with labels } : StabilityChart).plane canvas = c.plane canvas := by
    rw [plane, slots, hlength]
    rfl
  have herrorPlane : ({ c with labels } : StabilityChart).errorPlane canvas
      = c.errorPlane canvas := by
    rw [errorPlane, slots, hlength]
    rfl
  unfold elements
  rw [c.axes_relabel hlength, hplane, herrorPlane]
  refine ⟨(c.plane canvas).x, rfl, ?_⟩
  -- the right axis, both series, annotations and legend are behind the left and lower axes
  iterate 6 apply forall₂_append_same
  exact .cons (.same _) (forall₂_drawAxes (c.plane canvas) _ c.axes _)

theorem size_chart (c : StabilityChart) : c.chart.size = size :=
  rfl

theorem sameButLabels (c : StabilityChart) {labels : List String}
    (hlength : labels.length = c.labels.length) (canvas : Nat × Nat) :
    let chart := ({ c with labels } : StabilityChart).chart
    SameButLabels c.labels labels (c.chart.drawOn canvas) (chart.drawOn canvas) ∧
      SameButLabels c.labels labels c.chart.image chart.image := by
  intro chart
  have hsize : chart.size = c.chart.size := (size_chart _).trans (size_chart c).symm
  exact sameButLabels_of_chart hsize (c.forall₂_elements hlength) canvas

end StabilityChart

/-- Scenario labels reach the text of tick labels and nothing else.

Two latency charts of the same series with two lists of as many labels are drawn the same but
for the labels at the ticks of the horizontal axis, on every canvas and as the image of a
report, and so are two stability charts.  The labels can be any texts: an escaped text has
no bracket and no quote in it, every ampersand of it begins an entity, and it is read back
as the text that it was. -/
theorem labels_reach_texts_only (labels labels' : List String)
    (hlength : labels'.length = labels.length) (average p95 throughput errorRate : List Double)
    (canvas : Nat × Nat) :
    let latency (labels : List String) := LatencyChart.chart ⟨labels, average, p95⟩
    let stability (labels : List String) := StabilityChart.chart ⟨labels, throughput, errorRate⟩
    (∀ chart ∈ [latency, stability],
      SameButLabels labels labels' ((chart labels).drawOn canvas) ((chart labels').drawOn canvas) ∧
      SameButLabels labels labels' (chart labels).image (chart labels').image) ∧
    ∀ text : String,
      let shown := Markup.encode text.toList
      (∀ c ∈ ['<', '>', '"', '\''], c ∉ shown) ∧
      (∀ before after, shown = before ++ '&' :: after →
        ∃ c entity, Markup.entity? c = some entity ∧ entity <+: '&' :: after) ∧
      Markup.decode shown = some text.toList := by
  intro latency stability
  refine ⟨?_, ?_⟩
  · refine List.forall_mem_cons.mpr ⟨?_, List.forall_mem_singleton.mpr ?_⟩
    · exact LatencyChart.sameButLabels ⟨labels, average, p95⟩ hlength canvas
    · exact StabilityChart.sameButLabels ⟨labels, throughput, errorRate⟩ hlength canvas
  · intro text shown
    refine ⟨?_, fun before after h => Markup.exists_entity_of_encode_eq _ h,
      Markup.decode_encode text.toList⟩
    have hmarkup : ∀ c ∈ ['<', '>', '"', '\''], Markup.entity? c ≠ none ∧ c ≠ '&' := by
      simp [Markup.entity?]
    intro c hc hmem
    exact (hmarkup c hc).2 (Markup.eq_ampersand_of_mem_encode hmem (hmarkup c hc).1)

/-- Labels that would be markup if they were not escaped. -/
theorem labels_reach_texts_only_markup :
    let labels := ["Base", "Load"]
    let labels' := ["</text><rect/>", "a & \"b\"\n"]
    let latency (labels : List String) :=
      LatencyChart.chart ⟨labels, [13.15, 33.68], [15.52, 48.58]⟩
    labels'.length = labels.length ∧
      SameButLabels labels labels' (latency labels).image (latency labels').image := by
  intro labels labels' latency
  have hlength : labels'.length = labels.length := rfl
  obtain ⟨hcharts, _⟩ := labels_reach_texts_only labels labels' hlength [13.15, 33.68]
    [15.52, 48.58] [] [] (0, 0)
  exact ⟨hlength, (hcharts _ List.mem_cons_self).2⟩

end BenchCharts
