import BenchCharts.Plot.Axes
import BenchCharts.Plot.Legend

/-!
# Axes and legends by their looks

Axes are drawn with four kinds of elements: titles, mesh lines, paths for axis lines and
tick marks, and tick labels.  `AxesElement` lists them by their looks, and
`axesElement_of_mem_drawAxes` says that there are no others; so whatever looks different
in a drawing does not come from its axes (`filter_drawAxes_eq_nil`).  A legend is a box
with a text and a key for every entry (`exists_drawLegend_pair`).

The other lemmas say what is certainly drawn of axes: the mesh lines, and for every label
area the line of its axis.
-/

namespace BenchCharts.Plot

open Axis Canvas

variable {plane : Plane} {areas : List (Side × Rect)} {style : AxesStyle}

/-! ## Picking elements -/

/-- Elements that are all picked. -/
theorem filter_map_eq_self {α : Type} {chosen : Element → Bool} {draw : α → Element}
    (h : ∀ a, chosen (draw a) = true) (items : List α) :
    (items.map draw).filter chosen = items.map draw := by
  refine List.filter_eq_self.mpr fun e he => ?_
  obtain ⟨a, _, rfl⟩ := List.mem_map.mp he
  exact h a

/-! ## The axis along a side -/

/-- How the axis along a side is drawn. -/
def AxesStyle.along (style : AxesStyle) (side : Side) : AxisStyle :=
  if side.isHorizontal then style.x else style.y

/-- The scale along a side. -/
def scaleAlong (plane : Plane) (side : Side) : Scale :=
  if side.isHorizontal then plane.x else plane.y

/-- Titles first, then the mesh, then the axis of every label area. -/
theorem drawAxes_eq (plane : Plane) (areas : List (Side × Rect)) (style : AxesStyle) :
    drawAxes plane areas style
      = areas.flatMap (fun a => ((style.along a.1).title.map
            (axisTitle a.1 a.2 style.titleStyle)).toList)
        ++ (if style.x.mesh then (axisTicks plane.x style.x).map (verticalLine plane) else [])
        ++ (if style.y.mesh then (axisTicks plane.y style.y).map (horizontalLine plane) else [])
        ++ areas.flatMap (fun a => drawAxis (tickLength plane.area) a.1 a.2 (scaleAlong plane a.1)
            (style.along a.1).text (axisTicks (scaleAlong plane a.1) (style.along a.1))) :=
  rfl

/-! ## The looks of the elements -/

/-- The style turned about the placed point. -/
def turned (s : TextStyle) (turn : Option Turn) : TextStyle :=
  { s with turn }

@[simp] theorem size_placed (s : TextStyle) (anchor : Anchor) (baseline : Baseline) :
    (s.placed anchor baseline).size = s.size := rfl

@[simp] theorem paint_placed (s : TextStyle) (anchor : Anchor) (baseline : Baseline) :
    (s.placed anchor baseline).paint = s.paint := rfl

@[simp] theorem bold_placed (s : TextStyle) (anchor : Anchor) (baseline : Baseline) :
    (s.placed anchor baseline).bold = s.bold := rfl

@[simp] theorem size_turned (s : TextStyle) (turn : Option Turn) :
    (turned s turn).size = s.size := rfl

@[simp] theorem paint_turned (s : TextStyle) (turn : Option Turn) :
    (turned s turn).paint = s.paint := rfl

@[simp] theorem bold_turned (s : TextStyle) (turn : Option Turn) :
    (turned s turn).bold = s.bold := rfl

/-- An element with the look of a part of axes.  A tick label is centred on its tick in one
direction at least. -/
inductive AxesElement (style : AxesStyle) : Element → Prop where
  | title (place : Pixel) (anchor : Anchor) (baseline : Baseline) (turn : Option Turn)
      (text : String) :
      AxesElement style (.text place (turned (style.titleStyle.placed anchor baseline) turn) text)
  | mesh (a b : Pixel) : AxesElement style (.line a b meshPaint)
  | path (points : List Pixel) : AxesElement style (.polyline points axisPaint 1)
  | label (side : Side) (place : Pixel) {anchor : Anchor} {baseline : Baseline} (text : String) :
      anchor = .middle ∨ baseline = .center →
      AxesElement style (.text place ((style.along side).text.placed anchor baseline) text)

theorem axesElement_axisTitle (side : Side) (area : Rect) (text : String) :
    AxesElement style (axisTitle side area style.titleStyle text) := by
  cases side with
  | above => exact .title _ .middle .top style.titleStyle.turn text
  | below => exact .title _ .middle .bottom style.titleStyle.turn text
  | left => exact .title _ .middle .top _ text
  | right => exact .title _ .middle .top _ text

theorem axesElement_tickLabel (side : Side) (area : Rect) (distance alignment : Int) (t : Tick) :
    AxesElement style
      (tickLabel side area (style.along side).text distance alignment t) := by
  cases side with
  | above => exact .label .above _ _ (Or.inl rfl)
  | below => exact .label .below _ _ (Or.inl rfl)
  | left => exact .label .left _ _ (Or.inr rfl)
  | right =>
    unfold tickLabel
    dsimp only
    split
    · exact .label .right _ _ (Or.inr rfl)
    · exact .label .right _ _ (Or.inr rfl)

theorem axesElement_axisLine (side : Side) (area : Rect) (scale : Scale) :
    AxesElement style (axisLine side area scale) := by
  cases side <;> exact .path _

theorem axesElement_tickMark (side : Side) (area : Rect) (length p : Int) :
    AxesElement style (tickMark side area length p) := by
  cases side <;> exact .path _

/-- What the axis of a label area is drawn with. -/
theorem cases_of_mem_drawAxis {length : Int} {side : Side} {area : Rect} {scale : Scale}
    {text : TextStyle} {ticks : List Tick} {e : Element}
    (h : e ∈ drawAxis length side area scale text ticks) :
    e = axisLine side area scale
      ∨ (∃ distance alignment t, e = tickLabel side area text distance alignment t)
      ∨ ∃ p, e = tickMark side area length p := by
  rcases List.mem_cons.mp h with rfl | h
  · exact Or.inl rfl
  · obtain ⟨t, _, he⟩ := List.mem_flatMap.mp h
    rcases List.mem_cons.mp he with rfl | he
    · exact Or.inr (Or.inl ⟨_, _, t, rfl⟩)
    · split at he
      · exact absurd he List.not_mem_nil
      · exact Or.inr (Or.inr ⟨t.pixel, List.mem_singleton.mp he⟩)

theorem axesElement_of_mem_drawAxis {length : Int} {side : Side} {area : Rect} {scale : Scale}
    {ticks : List Tick} {e : Element}
    (h : e ∈ drawAxis length side area scale (style.along side).text ticks) :
    AxesElement style e := by
  rcases cases_of_mem_drawAxis h with rfl | ⟨distance, alignment, t, rfl⟩ | ⟨p, rfl⟩
  · exact axesElement_axisLine side area scale
  · exact axesElement_tickLabel side area distance alignment t
  · exact axesElement_tickMark side area length p

/-- There is nothing else in axes. -/
theorem axesElement_of_mem_drawAxes {e : Element} (h : e ∈ drawAxes plane areas style) :
    AxesElement style e := by
  rw [drawAxes_eq] at h
  rcases List.mem_append.mp h with h | haxis
  · rcases List.mem_append.mp h with h | hy
    · rcases List.mem_append.mp h with htitle | hx
      · obtain ⟨⟨side, area⟩, _, htitle⟩ := List.mem_flatMap.mp htitle
        obtain ⟨text, _, rfl⟩ := Option.map_eq_some_iff.mp (Option.mem_toList.mp htitle)
        exact axesElement_axisTitle side area text
      · split at hx
        · obtain ⟨t, _, rfl⟩ := List.mem_map.mp hx
          exact .mesh _ _
        · exact absurd hx List.not_mem_nil
    · split at hy
      · obtain ⟨t, _, rfl⟩ := List.mem_map.mp hy
        exact .mesh _ _
      · exact absurd hy List.not_mem_nil
  · obtain ⟨⟨side, area⟩, _, haxis⟩ := List.mem_flatMap.mp haxis
    exact axesElement_of_mem_drawAxis haxis

/-- A choice of elements that takes nothing with the look of axes takes nothing of them. -/
theorem filter_drawAxes_eq_nil {chosen : Element → Bool}
    (h : ∀ e, AxesElement style e → chosen e = false) :
    (drawAxes plane areas style).filter chosen = [] := by
  refine List.filter_eq_nil_iff.mpr fun e he => ?_
  rw [h e (axesElement_of_mem_drawAxes he)]
  exact Bool.false_ne_true

/-! ## What is certainly drawn -/

/-- The axis line of a label area. -/
theorem axisLine_mem_drawAxes {side : Side} {area : Rect} (h : (side, area) ∈ areas) :
    axisLine side area (scaleAlong plane side) ∈ drawAxes plane areas style := by
  rw [drawAxes_eq]
  exact List.mem_append_right _ (List.mem_flatMap.mpr ⟨(side, area), h, List.mem_cons_self⟩)

/-- The element is a straight line between two pixels. -/
def isLine : Element → Bool
  | .line .. => true
  | _ => false

theorem isLine_axisTitle (side : Side) (area : Rect) (text : TextStyle) (title : String) :
    isLine (axisTitle side area text title) = false := by
  cases side <;> rfl

theorem isLine_of_mem_drawAxis {length : Int} {side : Side} {area : Rect} {scale : Scale}
    {text : TextStyle} {ticks : List Tick} {e : Element}
    (h : e ∈ drawAxis length side area scale text ticks) : isLine e = false := by
  rcases cases_of_mem_drawAxis h with rfl | ⟨distance, alignment, t, rfl⟩ | ⟨p, rfl⟩
  · cases side <;> rfl
  · unfold tickLabel
    cases side with
    | right => dsimp only; split <;> rfl
    | above => rfl
    | left => rfl
    | below => rfl
  · cases side <;> rfl

/-- The straight lines in axes are their mesh. -/
theorem filter_isLine_drawAxes (plane : Plane) (areas : List (Side × Rect)) (style : AxesStyle) :
    (drawAxes plane areas style).filter isLine
      = (if style.x.mesh then (axisTicks plane.x style.x).map (verticalLine plane) else [])
        ++ (if style.y.mesh then (axisTicks plane.y style.y).map (horizontalLine plane)
          else []) := by
  have htitles : (areas.flatMap fun a => ((style.along a.1).title.map
      (axisTitle a.1 a.2 style.titleStyle)).toList).filter isLine = [] := by
    refine List.filter_eq_nil_iff.mpr fun e he => ?_
    obtain ⟨⟨side, area⟩, _, htitle⟩ := List.mem_flatMap.mp he
    obtain ⟨title, _, rfl⟩ := Option.map_eq_some_iff.mp (Option.mem_toList.mp htitle)
    simp [isLine_axisTitle]
  have haxes : (areas.flatMap fun a => drawAxis (tickLength plane.area) a.1 a.2
      (scaleAlong plane a.1) (style.along a.1).text
      (axisTicks (scaleAlong plane a.1) (style.along a.1))).filter isLine = [] := by
    refine List.filter_eq_nil_iff.mpr fun e he => ?_
    obtain ⟨⟨side, area⟩, _, haxis⟩ := List.mem_flatMap.mp he
    simp [isLine_of_mem_drawAxis haxis]
  have hmesh {draw : Tick → Element} (hdraw : ∀ t, isLine (draw t) = true) (shown : Bool)
      (ticks : List Tick) :
      (if shown then ticks.map draw else []).filter isLine
        = if shown then ticks.map draw else [] := by
    split
    · exact filter_map_eq_self hdraw ticks
    · rfl
  rw [drawAxes_eq, List.filter_append, List.filter_append, List.filter_append, htitles, haxes,
    hmesh fun _ => rfl, hmesh fun _ => rfl, List.nil_append, List.append_nil]

/-! ## Legends -/

/-- A legend with two entries: the box, the texts and the keys. -/
theorem exists_drawLegend_pair (area : Rect) (first second : LegendEntry) :
    ∃ box p q place place', drawLegend area [first, second]
      = [.fill box (white.mix 0.8), .frame box (black.mix 0.3), .text p legendStyle first.label,
          .text q legendStyle second.label, drawKey area place first.key,
          drawKey area place' second.key] :=
  ⟨_, _, _, _, _, rfl⟩

end BenchCharts.Plot
