import BenchCharts.Chart.Latency
import BenchCharts.Chart.Stability
import BenchCharts.Proofs.Plot.Looks

/-!
# The marks of scenarios

The marks of a chart are the elements that stand for data: bars, the points of a line,
markers and annotations.  They are known by their looks, so they can be picked out of a
whole drawing; title, axes and the box of the legend look different, and only the keys of
the legend are picked with them.

`exists_filter_isMark` of each chart lists the marks of a drawing in their order.  What
stands at which place of these lists is then a matter of single lists: a value and its
point have the same number (`Chart.getElem?_categoryPoints`).  So bars and annotations of a
latency chart stay together (`LatencyChart.drawn_bars_annotated`), and so do the line, the
markers and the annotations of a stability chart (`StabilityChart.drawn_series_aligned`).
-/

namespace BenchCharts

open Axis Canvas Plot

/-! ## Points of categories -/

/-- Category `i` has the value number `i`. -/
theorem Chart.getElem?_categoryPoints (values : List Double) (i : Nat) :
    (categoryPoints values)[i]? = values[i]?.map fun v => (.ofNat i, v) := by
  rw [categoryPoints, List.getElem?_map, List.getElem?_zipIdx, Option.map_map, Nat.zero_add]
  rfl

theorem Chart.length_categoryPoints (values : List Double) :
    (categoryPoints values).length = values.length := by
  rw [categoryPoints, List.length_map, List.length_zipIdx]

theorem Chart.map_snd_categoryPoints (values : List Double) :
    (categoryPoints values).map Prod.snd = values := by
  rw [categoryPoints, List.map_map]
  exact List.zipIdx_map_fst 0 values

/-! ## Picking elements -/

/-- Of a legend with two entries the keys are picked when nothing else in it has the look. -/
theorem exists_filter_drawLegend {chosen : Element → Bool} {area : Rect}
    {first second : LegendEntry} (hbox : ∀ box, chosen (.fill box (white.mix 0.8)) = false)
    (hframe : ∀ box, chosen (.frame box (black.mix 0.3)) = false)
    (htext : ∀ place label, chosen (.text place legendStyle label) = false)
    (hfirst : ∀ place, chosen (drawKey area place first.key) = true)
    (hsecond : ∀ place, chosen (drawKey area place second.key) = true) :
    ∃ place place', (drawLegend area [first, second]).filter chosen
      = [drawKey area place first.key, drawKey area place' second.key] := by
  obtain ⟨box, p, q, place, place', hlegend⟩ := exists_drawLegend_pair area first second
  refine ⟨place, place', ?_⟩
  rw [hlegend]
  simp [hbox, hframe, htext, hfirst, hsecond]

/-- What is picked out of a drawing are its marks and the keys of its legend. -/
theorem filter_drawing {chosen : Element → Bool} {heading : Element}
    {axes marks legend keys : List Element} (hheading : chosen heading = false)
    (haxes : axes.filter chosen = []) (hmarks : marks.filter chosen = marks)
    (hlegend : legend.filter chosen = keys) :
    (heading :: axes ++ (marks ++ legend)).filter chosen = marks ++ keys := by
  rw [List.cons_append, List.filter_cons_of_neg (by simp [hheading]), List.filter_append, haxes,
    List.nil_append, List.filter_append, hmarks, hlegend]

/-! ## Bars with annotations -/

namespace LatencyChart

/-- The element has the look of a bar or of an annotation. -/
def isMark : Element → Bool
  | .fill _ paint => paint = averagePaint || paint = p95Paint
  | .text _ style _ => style = annotationStyle
  | _ => false

/-- Annotations are smaller than all other texts. -/
theorem size_annotationStyle :
    Chart.labelStyle.size ≠ annotationStyle.size ∧ titleStyle.size ≠ annotationStyle.size := by
  decide +kernel

theorem isMark_text {style : TextStyle} (h : style.size ≠ annotationStyle.size) (place : Pixel)
    (content : String) : isMark (.text place style content) = false :=
  decide_eq_false fun heq => h (congrArg TextStyle.size heq)

theorem isMark_fill {paint : Paint} (h : paint = averagePaint ∨ paint = p95Paint) (area : Rect) :
    isMark (.fill area paint) = true := by
  simpa [isMark] using h

theorem isMark_drawAverage (plane : Plane) (point : Double × Double) :
    isMark (drawAverage plane point) = true :=
  isMark_fill (Or.inl rfl) _

theorem isMark_drawP95 (plane : Plane) (point : Double × Double) :
    isMark (drawP95 plane point) = true :=
  isMark_fill (Or.inr rfl) _

theorem isMark_annotate (plane : Plane) (b : Bar) : isMark (annotate plane b) = true := by
  simp [isMark, annotate]

theorem isMark_of_axesElement {c : LatencyChart} {e : Element} (h : AxesElement c.axes e) :
    isMark e = false := by
  have htitle : c.axes.titleStyle = Chart.labelStyle := rfl
  have hlabel (side : Side) : (c.axes.along side).text = Chart.labelStyle := by cases side <;> rfl
  cases h with
  | title =>
    refine isMark_text ?_ _ _
    rw [size_turned, size_placed, htitle]
    exact size_annotationStyle.1
  | mesh => rfl
  | path => rfl
  | label side =>
    refine isMark_text ?_ _ _
    rw [size_placed, hlabel]
    exact size_annotationStyle.1

/-- The bars and the annotations on a canvas. -/
def marks (c : LatencyChart) (canvas : Nat × Nat) : List Element :=
  (Chart.categoryPoints c.average).map (drawAverage (c.plane canvas))
    ++ (Chart.categoryPoints c.p95).map (drawP95 (c.plane canvas))
    ++ c.bars.map (annotate (c.plane canvas))

/-- The parts of a drawing. -/
theorem elements_eq (c : LatencyChart) (canvas : Nat × Nat) :
    c.elements canvas
      = (Chart.heading canvas title).1
          :: drawAxes (c.plane canvas) ((layout canvas).areas [.above, .left, .below, .right])
            c.axes
        ++ (c.marks canvas ++ drawLegend (layout canvas).plot legend) := by
  rw [marks, ← List.append_assoc, ← List.append_assoc, ← List.append_assoc]
  rfl

theorem filter_marks (c : LatencyChart) (canvas : Nat × Nat) :
    (c.marks canvas).filter isMark = c.marks canvas := by
  rw [marks, List.filter_append, List.filter_append,
    filter_map_eq_self (isMark_drawAverage _), filter_map_eq_self (isMark_drawP95 _),
    filter_map_eq_self (isMark_annotate _)]

theorem exists_filter_legend (area : Rect) :
    ∃ averageKey p95Key : Rect, (drawLegend area legend).filter isMark
      = [.fill averageKey averagePaint, .fill p95Key p95Paint] := by
  have hbox (box : Rect) : isMark (.fill box (white.mix 0.8)) = false := by
    have haverage : white.mix 0.8 ≠ averagePaint :=
      fun heq => absurd (congrArg Paint.color heq) (by decide)
    have hp95 : white.mix 0.8 ≠ p95Paint :=
      fun heq => absurd (congrArg Paint.color heq) (by decide)
    simp [isMark, haverage, hp95]
  have hkey (paint : Paint) (hpaint : paint = averagePaint ∨ paint = p95Paint) (place : Pixel) :
      isMark (drawKey area place (.square paint (pixels 5))) = true :=
    isMark_fill hpaint _
  obtain ⟨place, place', hlegend⟩ : ∃ place place', (drawLegend area legend).filter isMark
      = [drawKey area place (.square averagePaint (pixels 5)),
          drawKey area place' (.square p95Paint (pixels 5))] :=
    exists_filter_drawLegend hbox (fun _ => rfl) (isMark_text size_annotationStyle.1)
      (hkey averagePaint (Or.inl rfl)) (hkey p95Paint (Or.inr rfl))
  exact ⟨_, _, hlegend⟩

/-- The bars, the annotations and the keys of the legend are picked out of a drawing. -/
theorem exists_filter_isMark (c : LatencyChart) (canvas : Nat × Nat) :
    ∃ averageKey p95Key : Rect, (c.elements canvas).filter isMark
      = c.marks canvas ++ [.fill averageKey averagePaint, .fill p95Key p95Paint] := by
  have hheading : isMark (Chart.heading canvas title).1 = false :=
    isMark_text size_annotationStyle.2 _ _
  have haxes : (drawAxes (c.plane canvas) ((layout canvas).areas [.above, .left, .below, .right])
      c.axes).filter isMark = [] :=
    filter_drawAxes_eq_nil fun e => isMark_of_axesElement
  obtain ⟨averageKey, p95Key, hlegend⟩ := exists_filter_legend (layout canvas).plot
  refine ⟨averageKey, p95Key, ?_⟩
  rw [elements_eq]
  exact filter_drawing hheading haxes (c.filter_marks canvas) hlegend

/-- The bars are the places of their categories with the mean on the left side and the 95th
percentile on the right side. -/
theorem bars_eq (c : LatencyChart) :
    c.bars = (Chart.categoryPoints c.average).map (fun p => ⟨p.1 - barWidth, p.1, p.2⟩)
      ++ (Chart.categoryPoints c.p95).map (fun p => ⟨p.1, p.1 + barWidth, p.2⟩) := by
  have haverage : c.averageBars
      = (Chart.categoryPoints c.average).map fun p => ⟨p.1 - barWidth, p.1, p.2⟩ := by
    rw [averageBars, Chart.categoryPoints, List.map_map, Function.comp_def]
  have hp95 : c.p95Bars
      = (Chart.categoryPoints c.p95).map fun p => ⟨p.1, p.1 + barWidth, p.2⟩ := by
    rw [p95Bars, Chart.categoryPoints, List.map_map, Function.comp_def]
  rw [bars, haverage, hp95]

/-- The heights of the bars are the values of both series. -/
theorem map_height_bars (c : LatencyChart) : c.bars.map Bar.height = c.average ++ c.p95 := by
  have haverage := Chart.map_snd_categoryPoints c.average
  have hp95 := Chart.map_snd_categoryPoints c.p95
  rw [bars_eq, List.map_append, List.map_map, List.map_map]
  exact congr (congrArg (· ++ ·) haverage) hp95

/-- On every canvas the bars of the means are drawn first, then those of the 95th percentiles,
then an annotation for each of them, and last the keys of the legend.  The rectangles are
those of the list that the annotations are placed by, one after another. -/
theorem drawn_bars_annotated (c : LatencyChart) (canvas : Nat × Nat) :
    let plane := c.plane canvas
    ∃ (average p95 : List Rect) (averageKey p95Key : Rect),
      (c.chart.drawOn canvas).elements.filter isMark
          = average.map (.fill · averagePaint) ++ p95.map (.fill · p95Paint)
            ++ c.bars.map (fun b =>
                .text ((plane.pixel ((b.left + b.right) / 2, b.height)).offset 0 (-pixels 3))
                  annotationStyle (barLabel b.height))
            ++ [.fill averageKey averagePaint, .fill p95Key p95Paint]
        ∧ average ++ p95 = c.bars.map (fun b =>
            .spanning (plane.pixel (b.left, 0)) (plane.pixel (b.right, b.height)))
        ∧ average.length = c.average.length
        ∧ p95.length = c.p95.length
        ∧ c.bars.map Bar.height = c.average ++ c.p95
        ∧ (∀ i, average[i]? = c.average[i]?.map fun v =>
            Rect.spanning (plane.pixel (.ofNat i - barWidth, 0)) (plane.pixel (.ofNat i, v)))
        ∧ ∀ i, p95[i]? = c.p95[i]?.map fun v =>
            Rect.spanning (plane.pixel (.ofNat i, 0)) (plane.pixel (.ofNat i + barWidth, v)) := by
  intro plane
  let averageRect (p : Double × Double) : Rect :=
    .spanning (plane.pixel (p.1 - barWidth, 0)) (plane.pixel p)
  let p95Rect (p : Double × Double) : Rect :=
    .spanning (plane.pixel (p.1, 0)) (plane.pixel (p.1 + barWidth, p.2))
  obtain ⟨averageKey, p95Key, hfilter⟩ := c.exists_filter_isMark canvas
  refine ⟨(Chart.categoryPoints c.average).map averageRect,
    (Chart.categoryPoints c.p95).map p95Rect, averageKey, p95Key, ?_, ?_, ?_, ?_,
    c.map_height_bars, fun i => ?_, fun i => ?_⟩
  · rw [List.map_map, List.map_map]
    exact hfilter
  · rw [bars_eq, List.map_append, List.map_map, List.map_map]
    rfl
  · rw [List.length_map, Chart.length_categoryPoints]
  · rw [List.length_map, Chart.length_categoryPoints]
  · rw [List.getElem?_map, Chart.getElem?_categoryPoints, Option.map_map,
      Function.comp_def]
  · rw [List.getElem?_map, Chart.getElem?_categoryPoints, Option.map_map,
      Function.comp_def]

end LatencyChart

/-! ## Bars, markers and annotations -/

namespace StabilityChart

/-- The element has the look of a bar, of the line, of a marker or of an annotation. -/
def isMark : Element → Bool
  | .fill _ paint => paint = barPaint
  | .polyline _ paint _ => paint = errorColor.solid
  | .circle _ _ _ => true
  | .text _ style _ => style = annotationStyle
  | _ => false

/-- Annotations are bold and have the colour of the error rates. -/
theorem isMark_text {style : TextStyle} (h : style.bold = false ∨ style.paint ≠ errorColor.solid)
    (place : Pixel) (content : String) : isMark (.text place style content) = false := by
  refine decide_eq_false fun heq => ?_
  rcases h with hbold | hpaint
  · exact absurd (hbold.symm.trans (congrArg TextStyle.bold heq)) Bool.false_ne_true
  · exact hpaint (congrArg TextStyle.paint heq)

theorem isMark_drawBar (plane : Plane) (point : Double × Double) :
    isMark (drawBar plane point) = true := by
  simp [isMark, drawBar, Chart.bar]

theorem isMark_polyline (points : List Pixel) (width : Int) :
    isMark (.polyline points errorColor.solid width) = true := by
  simp [isMark]

theorem isMark_annotate (plane : Plane) (point : Double × Double) :
    isMark (annotate plane point) = true := by
  simp [isMark, annotate]

theorem black_ne_errorColor : black.solid ≠ errorColor.solid :=
  fun heq => absurd (congrArg Paint.color heq) (by decide)

/-- Titles of axes are black, and tick labels are not bold. -/
theorem isMark_of_axesElement {style : AxesStyle} (htitle : style.titleStyle = boldStyle)
    (hlabel : ∀ side, (style.along side).text.bold = false) {e : Element}
    (h : AxesElement style e) : isMark e = false := by
  cases h with
  | title =>
    refine isMark_text (Or.inr ?_) _ _
    rw [paint_turned, paint_placed, htitle]
    exact black_ne_errorColor
  | mesh => rfl
  | path => exact decide_eq_false black_ne_errorColor
  | label side =>
    refine isMark_text (Or.inl ?_) _ _
    rw [bold_placed, hlabel]

/-- The bars, the line, the markers and the annotations on a canvas. -/
def marks (c : StabilityChart) (canvas : Nat × Nat) : List Element :=
  (Chart.categoryPoints c.throughput).map (drawBar (c.plane canvas))
    ++ [.polyline (c.errorPoints.map (c.errorPlane canvas).pixel) errorColor.solid lineWidth]
    ++ c.errorPoints.map (drawMarker (c.errorPlane canvas))
    ++ c.errorPoints.map (annotate (c.errorPlane canvas))

/-- The parts of a drawing. -/
theorem elements_eq (c : StabilityChart) (canvas : Nat × Nat) :
    c.elements canvas
      = (Chart.heading canvas title).1
          :: (drawAxes (c.plane canvas) ((layout canvas).areas [.left, .below]) c.axes
            ++ drawAxes (c.errorPlane canvas) ((layout canvas).areas [.above, .right]) errorAxes)
        ++ (c.marks canvas ++ drawLegend (layout canvas).plot legend) := by
  rw [marks, ← List.append_assoc, ← List.append_assoc, ← List.append_assoc, ← List.append_assoc,
    ← List.cons_append]
  rfl

theorem filter_marks (c : StabilityChart) (canvas : Nat × Nat) :
    (c.marks canvas).filter isMark = c.marks canvas := by
  rw [marks, List.filter_append, List.filter_append, List.filter_append,
    filter_map_eq_self (isMark_drawBar _), filter_map_eq_self fun _ => rfl,
    filter_map_eq_self (isMark_annotate _), List.filter_cons_of_pos (isMark_polyline _ _),
    List.filter_nil]

theorem exists_filter_legend (area : Rect) :
    ∃ (barKey : Rect) (lineKey : List Pixel), (drawLegend area legend).filter isMark
      = [.fill barKey barPaint, .polyline lineKey errorColor.solid lineWidth] := by
  have hpaint : white.mix 0.8 ≠ barPaint :=
    fun heq => absurd (congrArg Paint.color heq) (by decide)
  have hbox (box : Rect) : isMark (.fill box (white.mix 0.8)) = false :=
    decide_eq_false hpaint
  have hsquare (place : Pixel) :
      isMark (drawKey area place (.square barPaint (pixels 5))) = true := by
    simp [isMark, drawKey]
  obtain ⟨place, place', hlegend⟩ : ∃ place place', (drawLegend area legend).filter isMark
      = [drawKey area place (.square barPaint (pixels 5)),
          drawKey area place' (.stroke errorColor.solid (2 * pixels 5) lineWidth)] :=
    exists_filter_drawLegend hbox (fun _ => rfl) (isMark_text (Or.inl rfl)) hsquare
      fun _ => isMark_polyline _ _
  exact ⟨_, _, hlegend⟩

/-- The marks and the keys of the legend are picked out of a drawing. -/
theorem exists_filter_isMark (c : StabilityChart) (canvas : Nat × Nat) :
    ∃ (barKey : Rect) (lineKey : List Pixel), (c.elements canvas).filter isMark
      = c.marks canvas
        ++ [.fill barKey barPaint, .polyline lineKey errorColor.solid lineWidth] := by
  have hheading : isMark (Chart.heading canvas title).1 = false :=
    isMark_text (Or.inl rfl) _ _
  have htitle : c.axes.titleStyle = boldStyle := rfl
  have herrorTitle : errorAxes.titleStyle = boldStyle := rfl
  have hlabel (side : Side) : (c.axes.along side).text.bold = false := by cases side <;> rfl
  have herrorLabel (side : Side) : (errorAxes.along side).text.bold = false := by
    cases side <;> rfl
  have haxes : (drawAxes (c.plane canvas) ((layout canvas).areas [.left, .below]) c.axes
      ++ drawAxes (c.errorPlane canvas) ((layout canvas).areas [.above, .right])
        errorAxes).filter isMark = [] := by
    rw [List.filter_append, filter_drawAxes_eq_nil fun e => isMark_of_axesElement htitle hlabel,
      filter_drawAxes_eq_nil fun e => isMark_of_axesElement herrorTitle herrorLabel,
      List.append_nil]
  obtain ⟨barKey, lineKey, hlegend⟩ := exists_filter_legend (layout canvas).plot
  refine ⟨barKey, lineKey, ?_⟩
  rw [elements_eq]
  exact filter_drawing hheading haxes (c.filter_marks canvas) hlegend

/-- An annotation for every point of the line, above it. -/
theorem map_annotate_errorPoints (c : StabilityChart) (plane : Plane) :
    c.errorPoints.map (annotate plane)
      = List.zipWith
          (fun p v => .text (p.offset 0 (-pixels 6)) annotationStyle (percentLabel v))
          (c.errorPoints.map plane.pixel) c.errorRate := by
  have hrates : c.errorPoints.map Prod.snd = c.errorRate :=
    Chart.map_snd_categoryPoints c.errorRate
  rw [← hrates, List.zipWith_map, List.zipWith_self]
  rfl

/-- On every canvas the bars are drawn first, then the line, then the markers and then the
annotations, and last the keys of the legend.  Markers and annotations stand at the points
of the line, one after another. -/
theorem drawn_series_aligned (c : StabilityChart) (canvas : Nat × Nat) :
    let plane := c.plane canvas
    let errorPlane := c.errorPlane canvas
    ∃ (bars : List Rect) (points : List Pixel) (barKey : Rect) (lineKey : List Pixel),
      (c.chart.drawOn canvas).elements.filter isMark
          = bars.map (.fill · barPaint)
            ++ [.polyline points errorColor.solid lineWidth]
            ++ points.map (.circle · (pixels 4) errorColor.solid)
            ++ List.zipWith
                (fun p v => .text (p.offset 0 (-pixels 6)) annotationStyle (percentLabel v))
                points c.errorRate
            ++ [.fill barKey barPaint, .polyline lineKey errorColor.solid lineWidth]
        ∧ bars.length = c.throughput.length
        ∧ points.length = c.errorRate.length
        ∧ (∀ i, bars[i]? = c.throughput[i]?.map fun v =>
            Rect.spanning (plane.pixel (.ofNat i - 0.25, 0)) (plane.pixel (.ofNat i + 0.25, v)))
        ∧ (∀ i, points[i]? = c.errorRate[i]?.map fun v => errorPlane.pixel (.ofNat i, v))
        ∧ ∃ heading series, (c.chart.drawOn canvas).elements
            = heading :: (drawAxes plane ((layout canvas).areas [.left, .below]) c.axes
                ++ drawAxes errorPlane ((layout canvas).areas [.above, .right]) errorAxes)
              ++ series := by
  intro plane errorPlane
  let barRect (p : Double × Double) : Rect :=
    .spanning (plane.pixel (p.1 - halfBar, 0)) (plane.pixel (p.1 + halfBar, p.2))
  obtain ⟨barKey, lineKey, hfilter⟩ := c.exists_filter_isMark canvas
  refine ⟨(Chart.categoryPoints c.throughput).map barRect, c.errorPoints.map errorPlane.pixel,
    barKey, lineKey, ?_, ?_, ?_, fun i => ?_, fun i => ?_, _, _, c.elements_eq canvas⟩
  · rw [List.map_map, List.map_map, ← map_annotate_errorPoints]
    exact hfilter
  · rw [List.length_map, Chart.length_categoryPoints]
  · rw [List.length_map, errorPoints, Chart.length_categoryPoints]
  · rw [List.getElem?_map, Chart.getElem?_categoryPoints, Option.map_map]
    simp only [Function.comp_def, barRect, halfBar]
  · rw [List.getElem?_map, errorPoints, Chart.getElem?_categoryPoints, Option.map_map,
      Function.comp_def]

end StabilityChart

end BenchCharts
