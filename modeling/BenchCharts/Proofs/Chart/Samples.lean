import BenchCharts.Proofs.Chart.Ending
import BenchCharts.Proofs.Plot.Looks

/-!
# The samples of a log in their chart

A resource chart is a backdrop, which is all that is drawn without samples, and the series
with their legend.  `IsBackdrop` says what the backdrop has and that nothing in it looks
like a series or a legend.  `labels_of_roomy` says that there are axes on three sides unless
the canvas is too small for the labels, and `drawn_in_log_order` that the series go through all
samples in the order of the log.  Of the dashed line it says where each stroke of the pen
goes, and that the strokes of the dashes are those that are drawn.

Drawing does not always end (`exists_never_drawn`).
-/

namespace BenchCharts

open Axis Canvas Plot ResourceLog

/-! ## Label areas -/

namespace Plot

/-- Cut lines that do not cross. -/
theorem sort4_eq {a b c d : Int} (hac : a ≤ c) (hcd : c < d) (hdb : d ≤ b) :
    sort4 a b c d = (a, c, d, b) := by
  have hc : insertSorted c [d] = [c, d] := if_pos (Int.le_of_lt hcd)
  have hb : insertSorted b [c, d] = [c, d, b] := by
    rw [insertSorted, if_neg (by omega), insertSorted]
    rcases Int.lt_or_eq_of_le hdb with hlt | rfl
    · rw [if_neg (by omega)]
      rfl
    · rw [if_pos (Int.le_refl d)]
  have ha : insertSorted a [c, d, b] = [a, c, d, b] := if_pos hac
  have hsorted : [a, b, c, d].foldr insertSorted [] = [a, c, d, b] := by
    simp only [List.foldr_cons, List.foldr_nil]
    rw [show insertSorted d [] = [d] from rfl, hc, hb, ha]
  rw [sort4, hsorted]

theorem nonempty_eq_some {r : Rect} (hwidth : r.left < r.right) (hheight : r.top < r.bottom) :
    nonempty r = some r :=
  if_pos ⟨Int.sub_pos_of_lt hwidth, Int.sub_pos_of_lt hheight⟩

/-- An area with room for its labels has a label area wherever space is asked for. -/
theorem labels_ofArea {area : Rect} {below left right : Int} (hleft : 0 < left)
    (hright : 0 < right) (hbelow : 0 < below) (hwidth : area.left + left < area.right - right)
    (hheight : area.top < area.bottom - below) {side : Side} (hside : side ≠ .above) :
    ((Layout.ofArea area { below, left, right }).labels side).isSome := by
  have hx : sort4 area.left area.right (area.left + left) (area.right - right)
      = (area.left, area.left + left, area.right - right, area.right) :=
    sort4_eq (by omega) hwidth (by omega)
  have hy : sort4 area.top area.bottom area.top (area.bottom - below)
      = (area.top, area.top, area.bottom - below, area.bottom) :=
    sort4_eq (Int.le_refl _) hheight (by omega)
  simp only [Layout.ofArea, hx, hy]
  cases side with
  | above => exact absurd rfl hside
  | left =>
    dsimp only
    rw [nonempty_eq_some (by dsimp only; omega) (by dsimp only; omega)]
    rfl
  | below =>
    dsimp only
    rw [nonempty_eq_some (by dsimp only; omega) (by dsimp only; omega)]
    rfl
  | right =>
    dsimp only
    rw [nonempty_eq_some (by dsimp only; omega) (by dsimp only; omega)]
    rfl

end Plot

namespace ResourceChart

/-- The height of a title with the gaps above and below it. -/
def titleSpace : Int :=
  2 * min (titleStyle.textHeight / 2) titleGap + titleStyle.textHeight

/-- The canvas has room for the title, the labels and a plotting area. -/
structure Roomy (canvas : Nat × Nat) : Prop where
  width : 2 * margin + pixels 50 + pixels 55 < canvas.1
  height : 2 * margin + titleSpace + pixels 30 < canvas.2
  limit : canvas.1 < 2 ^ 31 ∧ canvas.2 < 2 ^ 31

theorem wrap32_of_lt {n : Nat} (h : n < 2 ^ 31) : Scale.wrap32 n = n :=
  Int.bmod_eq_of_le (by omega) (by omega)

/-- On a canvas with room there are labels left of, below and right of the plotting area. -/
theorem labels_of_roomy {canvas : Nat × Nat} (h : Roomy canvas) {side : Side}
    (hside : side ≠ .above) : ((layout canvas).labels side).isSome := by
  have hspace : 0 < pixels 50 ∧ 0 < pixels 55 ∧ 0 < pixels 30 := by decide +kernel
  have hwidth := h.width
  have hheight := h.height
  rw [layout]
  refine labels_ofArea hspace.1 hspace.2.1 hspace.2.2 ?_ ?_ hside
  · simp only [Chart.heading, placeTitle, Chart.canvasArea, Rect.shrink, wrap32_of_lt h.limit.1]
    omega
  · simp only [Chart.heading, placeTitle, Chart.canvasArea, Rect.shrink, wrap32_of_lt h.limit.2]
    unfold titleSpace at hheight
    omega

/-- The chart's own canvas has room. -/
theorem roomy_size : Roomy size where
  width := by decide +kernel
  height := by decide +kernel
  limit := by decide +kernel

/-! ## The backdrop -/

@[simp] theorem range_x_plane (c : ResourceChart) (canvas : Nat × Nat) :
    (c.plane canvas).x.range = c.timeRange := rfl

@[simp] theorem range_y_plane (c : ResourceChart) (canvas : Nat × Nat) :
    (c.plane canvas).y.range = c.cpuRange := rfl

/-- The element has the look of a series or of a part of the legend. -/
def isMark : Element → Bool
  | .fill _ _ | .frame _ _ | .polygon _ _ => true
  | .polyline _ paint _ => paint = cpuColor.solid || paint = ramColor.solid
  | .text _ style _ => style = legendStyle
  | _ => false

/-- The title with both axes and the mesh, and nothing that looks like a series or a legend.
The line of an axis is in each of its label areas; these can only be missing on a canvas
without room (`labels_of_roomy`). -/
structure IsBackdrop (c : ResourceChart) (canvas : Nat × Nat) (elements : List Element) :
    Prop where
  hasTitle : ∃ place, .text place titleStyle title ∈ elements
  hasAxes : drawAxes (c.plane canvas) ((layout canvas).areas [.left, .below]) axes <:+: elements
  hasRamAxes : drawAxes (c.ramPlane canvas) ((layout canvas).areas [.above, .right]) ramAxes
    <:+: elements
  hasLine : ∀ side area, (side, area) ∈ (layout canvas).areas [.left, .below] →
    axisLine side area (scaleAlong (c.plane canvas) side) ∈ elements
  hasRamLine : ∀ side area, (side, area) ∈ (layout canvas).areas [.above, .right] →
    axisLine side area (scaleAlong (c.ramPlane canvas) side) ∈ elements
  mesh : elements.filter isLine
    = (axisTicks (c.plane canvas).x axes.x).map (verticalLine (c.plane canvas))
      ++ (axisTicks (c.plane canvas).y axes.y).map (horizontalLine (c.plane canvas))
  noMark : elements.filter isMark = []

/-- What is drawn of every chart. -/
def backdrop (c : ResourceChart) (canvas : Nat × Nat) : List Element :=
  (Chart.heading canvas title).1
    :: (drawAxes (c.plane canvas) ((layout canvas).areas [.left, .below]) axes
      ++ drawAxes (c.ramPlane canvas) ((layout canvas).areas [.above, .right]) ramAxes)

/-- The title is centred, and the texts of a legend begin at their place. -/
theorem isMark_text {style : TextStyle} (h : style.bold = true ∨ style.anchor ≠ .start ∨
    style.baseline ≠ .top) (place : Pixel) (content : String) :
    isMark (.text place style content) = false := by
  refine decide_eq_false ?_
  rintro rfl
  rcases h with hbold | hanchor | hbaseline
  · exact absurd hbold Bool.false_ne_true
  · exact hanchor rfl
  · exact hbaseline rfl

/-- Titles of axes are bold, and tick labels are centred on their tick. -/
theorem isMark_of_axesElement {style : AxesStyle} (htitle : style.titleStyle = boldStyle)
    {e : Element} (h : AxesElement style e) : isMark e = false := by
  cases h with
  | title =>
    refine isMark_text (Or.inl ?_) _ _
    rw [bold_turned, bold_placed, htitle]
    rfl
  | mesh => rfl
  | path =>
    have hcpu : axisPaint ≠ cpuColor.solid :=
      fun heq => absurd (congrArg Paint.color heq) (by decide)
    have hram : axisPaint ≠ ramColor.solid :=
      fun heq => absurd (congrArg Paint.color heq) (by decide)
    simp [isMark, hcpu, hram]
  | label side place text hplaced =>
    refine isMark_text (Or.inr ?_) _ _
    rcases hplaced with rfl | rfl
    · exact Or.inl nofun
    · exact Or.inr nofun

theorem filter_isMark_backdrop (c : ResourceChart) (canvas : Nat × Nat) :
    (c.backdrop canvas).filter isMark = [] := by
  have hheading : isMark (Chart.heading canvas title).1 = false :=
    isMark_text (Or.inr (Or.inl (by decide))) _ _
  have htitle : axes.titleStyle = boldStyle := rfl
  have hramTitle : ramAxes.titleStyle = boldStyle := rfl
  rw [backdrop, List.filter_cons_of_neg (by simp [hheading]), List.filter_append,
    filter_drawAxes_eq_nil fun e => isMark_of_axesElement htitle,
    filter_drawAxes_eq_nil fun e => isMark_of_axesElement hramTitle, List.append_nil]

theorem isBackdrop_backdrop (c : ResourceChart) (canvas : Nat × Nat) :
    IsBackdrop c canvas (c.backdrop canvas) where
  hasTitle := ⟨_, List.mem_cons_self⟩
  hasAxes := (List.prefix_append _ _).isInfix.trans (List.suffix_cons _ _).isInfix
  hasRamAxes := (List.suffix_append _ _).isInfix.trans (List.suffix_cons _ _).isInfix
  hasLine _ _ harea :=
    List.mem_cons_of_mem _ (List.mem_append_left _ (axisLine_mem_drawAxes harea))
  hasRamLine _ _ harea :=
    List.mem_cons_of_mem _ (List.mem_append_right _ (axisLine_mem_drawAxes harea))
  mesh := by
    rw [backdrop, List.filter_cons_of_neg Bool.false_ne_true, List.filter_append,
      filter_isLine_drawAxes, filter_isLine_drawAxes]
    exact List.append_nil _
  noMark := c.filter_isMark_backdrop canvas

/-! ## The series -/

theorem isMark_of_mem_legend {area : Rect} {e : Element} (h : e ∈ drawLegend area legend) :
    isMark e = true := by
  have hkey (place : Pixel) (color : Color) (hcolor : color = cpuColor ∨ color = ramColor) :
      isMark (drawKey area place (.stroke color.solid (2 * pixels 10) lineWidth)) = true := by
    rcases hcolor with rfl | rfl <;> simp [isMark, drawKey]
  have htext (place : Pixel) (label : String) : isMark (.text place legendStyle label) = true := by
    simp [isMark]
  obtain ⟨box, p, q, place, place', hlegend⟩ : ∃ box p q place place', drawLegend area legend
      = [.fill box (white.mix 0.8), .frame box (black.mix 0.3), .text p legendStyle "CPU",
          .text q legendStyle "RAM",
          drawKey area place (.stroke cpuColor.solid (2 * pixels 10) lineWidth),
          drawKey area place' (.stroke ramColor.solid (2 * pixels 10) lineWidth)] :=
    exists_drawLegend_pair area _ _
  rw [hlegend] at h
  simp only [List.mem_cons, List.not_mem_nil, or_false] at h
  rcases h with rfl | rfl | rfl | rfl | rfl | rfl
  · rfl
  · rfl
  · exact htext p "CPU"
  · exact htext q "RAM"
  · exact hkey place cpuColor (Or.inl rfl)
  · exact hkey place' ramColor (Or.inr rfl)

/-- The outline returns along the zero line, from below the last point to below the first. -/
theorem outline_cons (first : Double × Double) (rest : List (Double × Double)) :
    outline (first :: rest)
      = first :: rest ++ [((rest.getLastD first).1, 0), (first.1, 0)] := by
  rw [outline, List.head?_cons, List.getLast?_cons, List.getLastD_eq_getLast?]

/-- The parts of a drawing. -/
theorem elements_eq (c : ResourceChart) (canvas : Nat × Nat) :
    c.elements canvas = c.backdrop canvas
      ++ (if c.samples = [] then []
        else c.drawCpu (c.plane canvas) ++ c.drawRam (c.ramPlane canvas)
          ++ drawLegend (layout canvas).plot legend) := by
  rw [backdrop, ← List.cons_append]
  rfl

/-- Each coordinate of a pixel comes from one coordinate of the point. -/
theorem pixel_eq (plane : Plane) (x y x' y' : Double) :
    plane.pixel (x, y) = ⟨(plane.pixel (x, y')).x, (plane.pixel (x', y)).y⟩ := by
  simp only [Plane.pixel, Rect.clamp]

/-- The area and its border go through the samples one after another. -/
theorem drawCpu_cons (first : Sample) (rest : List Sample) (plane : Plane) :
    let pixel (s : Sample) := plane.pixel (s.time, s.cpu)
    let zero := (plane.pixel (0, 0)).y
    (ResourceChart.mk (first :: rest)).drawCpu plane
      = [.polygon ((first :: rest).map pixel
            ++ [⟨(pixel (rest.getLastD first)).x, zero⟩, ⟨(pixel first).x, zero⟩])
            (cpuColor.mix 0.1),
          .polyline ((first :: rest).map pixel) cpuColor.solid lineWidth] := by
  intro pixel zero
  let point (s : Sample) : Double × Double := (s.time, s.cpu)
  have hpoints : (ResourceChart.mk (first :: rest)).cpuPoints = point first :: rest.map point := rfl
  have hpixels : (point first :: rest.map point).map plane.pixel = (first :: rest).map pixel := by
    rw [← List.map_cons, List.map_map]
    rfl
  have hreturn (s : Sample) : plane.pixel ((point s).1, 0) = ⟨(pixel s).x, zero⟩ := by
    dsimp only [point, pixel, zero]
    exact pixel_eq plane s.time 0 0 s.cpu
  have hback (s s' : Sample) : [((point s).1, 0), ((point s').1, 0)].map plane.pixel
      = [⟨(pixel s).x, zero⟩, ⟨(pixel s').x, zero⟩] := by
    rw [List.map_cons, List.map_cons, List.map_nil, hreturn, hreturn]
  rw [drawCpu, hpoints, outline_cons, List.getLastD_map, List.map_append, hpixels, hback]

theorem timeRange_nil : (ResourceChart.mk []).timeRange = ⟨0, 1⟩ := by
  decide +kernel

theorem cpuRange_nil : (ResourceChart.mk []).cpuRange = ⟨0, 1⟩ := by
  decide +kernel

/-- The unit interval has a tick at every tenth. -/
theorem length_axisTicks_unit {scale : Scale} {style : AxisStyle}
    (hrange : scale.range = ⟨0, 1⟩) (hlimit : style.limit = 11) :
    (axisTicks scale style).length = 11 := by
  rw [axisTicks, List.length_map, hrange, hlimit]
  decide +kernel

/-- The dashes of the memory line are those of pieces that lead through the samples. -/
theorem exists_pieces_drawRam (c : ResourceChart) {canvas : Nat × Nat}
    (hends : c.chart.EndsOn canvas) {first : Sample} {rest : List Sample}
    (hsamples : c.samples = first :: rest) :
    let point (s : Sample) := PenPoint.ofPixel ((c.ramPlane canvas).pixel (s.time, s.ram))
    ∃ pieces, Route (point first) (rest.map point) pieces.flatten
      ∧ Alternates dashPattern true 0 pieces
      ∧ c.drawRam (c.ramPlane canvas)
        = (drawn true pieces).map (.polyline · ramColor.solid lineWidth) := by
  intro point
  have hpixels : c.ramPixels (c.ramPlane canvas)
      = (first :: rest).map fun s => (c.ramPlane canvas).pixel (s.time, s.ram) := by
    rw [ramPixels, ramPoints, List.map_map, hsamples]
    rfl
  have hdashes : dashesEnd dashPattern (c.ramPixels (c.ramPlane canvas)) = true := hends.2
  rw [hpixels, List.map_cons] at hdashes
  obtain ⟨pieces, hroute, halternates, hdrawn⟩ :=
    exists_pieces_of_dashesEnd not_length_le_zero hdashes
  rw [List.map_map] at hroute
  refine ⟨pieces, hroute, halternates, ?_⟩
  rw [drawRam, hpixels, List.map_cons, hdrawn]

theorem drawOn?_eq_some {c : ResourceChart} {canvas : Nat × Nat} (h : c.chart.EndsOn canvas) :
    c.chart.drawOn? canvas = some (c.chart.drawOn canvas) :=
  if_pos h

theorem drawOn?_eq_none {c : ResourceChart} {canvas : Nat × Nat}
    (h : dashesEnd dashPattern (c.ramPixels (c.ramPlane canvas)) = false) :
    c.chart.drawOn? canvas = none := by
  refine if_neg fun hends => ?_
  have hdashes : dashesEnd dashPattern (c.ramPixels (c.ramPlane canvas)) = true := hends.2
  rw [h] at hdashes
  cases hdashes

/-- Without samples the title, the axes and the mesh are drawn on every canvas, and this is all.
With samples the processor load follows, as an area and its border, then the memory as a
dashed line, and last the legend.  Both go through all samples in the order of the log.  The
area returns along the zero line.  The dashed line consists of strokes that lead from sample to
sample; they are a dash and a gap in turn, and the dashes are drawn. -/
theorem drawn_in_log_order (canvas : Nat × Nat) :
    (let c : ResourceChart := ⟨[]⟩
     ∃ drawing, c.chart.drawOn? canvas = some drawing
      ∧ IsBackdrop c canvas drawing.elements
      ∧ (axisTicks (c.plane canvas).x axes.x).length = 11
      ∧ (axisTicks (c.plane canvas).y axes.y).length = 11
      ∧ ∀ e ∈ drawLegend (layout canvas).plot legend, e ∉ drawing.elements)
    ∧ (Roomy canvas → ∀ side, side ≠ .above → ((layout canvas).labels side).isSome)
    ∧ ∀ first rest,
      let c : ResourceChart := ⟨first :: rest⟩
      let cpuPixel (s : Sample) := (c.plane canvas).pixel (s.time, s.cpu)
      let ramPoint (s : Sample) := PenPoint.ofPixel ((c.ramPlane canvas).pixel (s.time, s.ram))
      let zero := ((c.plane canvas).pixel (0, 0)).y
      (c.chart.FiniteSpans → Bounded canvas → ∃ drawing, c.chart.drawOn? canvas = some drawing)
      ∧ ∀ drawing, c.chart.drawOn? canvas = some drawing →
        ∃ backdrop pieces, IsBackdrop c canvas backdrop
          ∧ Route (ramPoint first) (rest.map ramPoint) pieces.flatten
          ∧ Alternates dashPattern true 0 pieces
          ∧ drawing.elements
            = backdrop
              ++ [.polygon (c.samples.map cpuPixel
                    ++ [⟨(cpuPixel (rest.getLastD first)).x, zero⟩, ⟨(cpuPixel first).x, zero⟩])
                    (cpuColor.mix 0.1),
                  .polyline (c.samples.map cpuPixel) cpuColor.solid lineWidth]
              ++ (drawn true pieces).map (.polyline · ramColor.solid lineWidth)
              ++ drawLegend (layout canvas).plot legend := by
  refine ⟨?_, fun hroomy side => labels_of_roomy hroomy, fun first rest => ?_⟩
  · intro c
    have hends : c.chart.EndsOn canvas := ⟨by decide +kernel, rfl⟩
    have hx := (range_x_plane c canvas).trans timeRange_nil
    have hy := (range_y_plane c canvas).trans cpuRange_nil
    have hdrawn : (c.chart.drawOn canvas).elements = c.backdrop canvas :=
      (elements_eq c canvas).trans (List.append_nil _)
    have hbackdrop := isBackdrop_backdrop c canvas
    refine ⟨_, drawOn?_eq_some hends, hdrawn ▸ hbackdrop, length_axisTicks_unit hx rfl,
      length_axisTicks_unit hy rfl, ?_⟩
    -- What is in the legend is a mark, and the backdrop has no marks.
    rw [hdrawn]
    intro e he hmem
    exact List.filter_eq_nil_iff.mp hbackdrop.noMark e hmem (isMark_of_mem_legend he)
  · intro c cpuPixel ramPoint zero
    refine ⟨fun hspans hbounded => ⟨_, drawOn?_eq_some ((endsOn_iff hbounded c).mpr hspans)⟩, ?_⟩
    intro drawing hdrawing
    obtain ⟨hends, rfl⟩ : c.chart.EndsOn canvas ∧ c.chart.drawOn canvas = drawing := by
      rw [Chart.drawOn?] at hdrawing
      split at hdrawing
      · rename_i hends
        exact ⟨hends, Option.some.inj hdrawing⟩
      · cases hdrawing
    obtain ⟨pieces, hroute, halternates, hram⟩ := exists_pieces_drawRam c hends rfl
    refine ⟨c.backdrop canvas, pieces, isBackdrop_backdrop c canvas, hroute, halternates, ?_⟩
    have hcpu := drawCpu_cons first rest (c.plane canvas)
    have hseries := elements_eq c canvas
    rw [if_neg (List.cons_ne_nil first rest), hcpu, hram, ← List.append_assoc,
      ← List.append_assoc] at hseries
    exact hseries

/-- Two samples on the chart's own canvas. -/
theorem drawn_in_log_order_two_samples :
    let c : ResourceChart := ⟨[⟨7, 50, 300⟩, ⟨3, 60, 200⟩]⟩
    let ramPoint (s : Sample) := PenPoint.ofPixel ((c.ramPlane size).pixel (s.time, s.ram))
    (∀ side, side ≠ .above → ((layout size).labels side).isSome)
    ∧ ∃ drawing pieces, c.chart.drawOn? size = some drawing
      ∧ Route (ramPoint ⟨7, 50, 300⟩) [ramPoint ⟨3, 60, 200⟩] pieces.flatten
      ∧ Alternates dashPattern true 0 pieces
      ∧ ∀ path ∈ drawn true pieces,
        .polyline path ramColor.solid lineWidth ∈ drawing.elements := by
  intro c ramPoint
  obtain ⟨-, hlabels, hsamples⟩ := drawn_in_log_order size
  obtain ⟨hends, hdrawn⟩ := hsamples ⟨7, 50, 300⟩ [⟨3, 60, 200⟩]
  obtain ⟨drawing, hdrawing⟩ := hends (by decide +kernel) bounded_size
  obtain ⟨backdrop, pieces, -, hroute, halternates, helements⟩ := hdrawn drawing hdrawing
  refine ⟨hlabels roomy_size, drawing, pieces, hdrawing, hroute, halternates, fun path hpath => ?_⟩
  rw [helements]
  exact List.mem_append_left _ (List.mem_append_right _ (List.mem_map_of_mem hpath))

/-- Axes with finite bounds are not enough for a drawing: the span of an axis can overflow, and
on a canvas of `2 ^ 30` pixels a dash does not take the pen off its point. -/
theorem exists_never_drawn :
    (∃ c : ResourceChart, (∀ r ∈ c.chart.ranges, r.start.isFinite ∧ r.stop.isFinite)
      ∧ ∀ canvas, c.chart.drawOn? canvas = none)
    ∧ ∃ (c : ResourceChart) (canvas : Nat × Nat), c.chart.FiniteSpans
      ∧ c.chart.drawOn? canvas = none := by
  constructor
  · refine ⟨⟨[⟨0, 0, -8.85e307⟩, ⟨1, 0, 8.85e307⟩]⟩, by decide +kernel, fun canvas => ?_⟩
    exact if_neg fun hends => absurd hends.1 (by decide +kernel)
  · refine ⟨⟨[⟨1, 0, 0⟩, ⟨0, 0, 0⟩]⟩, (2 ^ 30, 1000), by decide +kernel, ?_⟩
    have hpixels : (ResourceChart.mk [⟨1, 0, 0⟩, ⟨0, 0, 0⟩]).ramPixels
        ((ResourceChart.mk [⟨1, 0, 0⟩, ⟨0, 0, 0⟩]).ramPlane (2 ^ 30, 1000))
        = [⟨1024935130, 463⟩, ⟨48806672, 463⟩] := by
      decide +kernel
    apply drawOn?_eq_none
    rw [hpixels]
    exact dashesEnd_eq_false_of_stays (by decide +kernel) (by decide +kernel)

end ResourceChart

end BenchCharts
