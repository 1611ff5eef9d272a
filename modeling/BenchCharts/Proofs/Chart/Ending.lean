import BenchCharts.Chart.Resources
import BenchCharts.Proofs.Plot.Pen

/-!
# Drawing a resource chart ends

All pixels of the memory line are moved into the plotting area.  On canvases of up to `2 ^ 23`
pixels a side they are near enough for the pen of the dashed line, so it comes to the end of the
line, and drawing ends as soon as the ticks are found (`ResourceChart.endsOn_iff`).
-/

namespace BenchCharts

open Axis Canvas Plot

theorem Axis.Plane.area_onEdges (area : Rect) (x y : Range) :
    (Plane.onEdges area x y).area = area := rfl

namespace Plot

theorem forall_mem_insertSorted {P : Int → Prop} {n : Int} {numbers : List Int} (hn : P n)
    (h : ∀ m ∈ numbers, P m) : ∀ m ∈ insertSorted n numbers, P m := by
  induction numbers with
  | nil => simpa [insertSorted] using hn
  | cons m rest ih =>
    rw [insertSorted]
    split
    · simpa using ⟨hn, by simpa using h⟩
    · have hrest := ih fun k hk => h k (List.mem_cons_of_mem _ hk)
      simpa using ⟨h m List.mem_cons_self, hrest⟩

theorem forall_sort4 {P : Int → Prop} {a b c d : Int} (ha : P a) (hb : P b) (hc : P c) (hd : P d) :
    P (sort4 a b c d).1 ∧ P (sort4 a b c d).2.1 ∧ P (sort4 a b c d).2.2.1 ∧
      P (sort4 a b c d).2.2.2 := by
  have hall : ∀ m ∈ [a, b, c, d].foldr insertSorted [], P m := by
    simp only [List.foldr_cons, List.foldr_nil]
    exact forall_mem_insertSorted ha <| forall_mem_insertSorted hb <|
      forall_mem_insertSorted hc <| forall_mem_insertSorted hd nofun
  rw [sort4]
  split
  · rename_i hsorted
    rw [hsorted] at hall
    simpa using hall
  · exact ⟨ha, hb, hc, hd⟩

/-- The edges of a plotting area lie where the area and the label spaces end. -/
theorem forall_edge_plot {P : Int → Prop} {area : Rect} {space : LabelSpace}
    (hx : P area.left ∧ P area.right ∧ P (area.left + space.left) ∧ P (area.right - space.right))
    (hy : P area.top ∧ P area.bottom ∧ P (area.bottom - space.below)) :
    let plot := (Layout.ofArea area space).plot
    P plot.left ∧ P plot.right ∧ P plot.top ∧ P plot.bottom := by
  have hcolumns := forall_sort4 hx.1 hx.2.1 hx.2.2.1 hx.2.2.2
  have hrows := forall_sort4 hy.1 hy.2.1 hy.1 hy.2.2
  exact ⟨hcolumns.2.1, hcolumns.2.2.1, hrows.2.1, hrows.2.2.1⟩

/-- A position in a rectangle is near if the edges are. -/
theorem isNear_clamp {r : Rect} (hleft : r.left.natAbs < 2 ^ 23) (hright : r.right.natAbs < 2 ^ 23)
    (htop : r.top.natAbs < 2 ^ 23) (hbottom : r.bottom.natAbs < 2 ^ 23) (p : Pixel) :
    IsNear (r.clamp p) := by
  simp only [IsNear, Rect.clamp]
  omega

end Plot

namespace ResourceChart

/-- The canvas has at most `2 ^ 23` pixels a side. -/
structure Bounded (canvas : Nat × Nat) : Prop where
  width : canvas.1 ≤ 2 ^ 23
  height : canvas.2 ≤ 2 ^ 23

theorem bounded_size : Bounded size where
  width := by decide +kernel
  height := by decide +kernel

variable {canvas : Nat × Nat}

theorem wrap32_of_le {n : Nat} (h : n ≤ 2 ^ 23) : Scale.wrap32 n = n :=
  Int.bmod_eq_of_le (by omega) (by omega)

theorem near_edges (h : Bounded canvas) :
    let plot := (layout canvas).plot
    plot.left.natAbs < 2 ^ 23 ∧ plot.right.natAbs < 2 ^ 23 ∧ plot.top.natAbs < 2 ^ 23 ∧
      plot.bottom.natAbs < 2 ^ 23 := by
  have hspace : pixels 30 = 125 ∧ pixels 50 = 208 ∧ pixels 55 = 229 ∧ margin = 42 ∧
      titleGap = 5 := by
    decide +kernel
  have htitle : 0 ≤ titleStyle.textHeight ∧ titleStyle.textHeight < 2 ^ 20 := by
    decide +kernel
  have hwidth := wrap32_of_le h.width
  have hheight := wrap32_of_le h.height
  obtain ⟨hw, hh⟩ := h
  rw [layout]
  refine forall_edge_plot (P := fun n => n.natAbs < 2 ^ 23) ?_ ?_
  · simp only [Chart.heading, placeTitle, Chart.canvasArea, Rect.shrink, hwidth, hspace]
    omega
  · simp only [Chart.heading, placeTitle, Chart.canvasArea, Rect.shrink, hheight, hspace]
    omega

theorem area_ramPlane (c : ResourceChart) (canvas : Nat × Nat) :
    (c.ramPlane canvas).area = (layout canvas).plot := by
  rw [ramPlane, Plane.area_onEdges]

theorem isNear_ramPlane_pixel (h : Bounded canvas) (c : ResourceChart) (point : Double × Double) :
    IsNear ((c.ramPlane canvas).pixel point) := by
  obtain ⟨hleft, hright, htop, hbottom⟩ := near_edges h
  rw [Plane.pixel, area_ramPlane]
  exact isNear_clamp hleft hright htop hbottom _

/-! ## The memory line -/

theorem exists_isReached_dashPattern (dash : Bool) :
    ∃ t, IsReached (dashPattern.length dash) t := by
  have hpattern : pixels 6 = (25 : Nat) ∧ pixels 3 = (13 : Nat) := by
    decide +kernel
  rw [dashPattern, hpattern.1, hpattern.2]
  cases dash with
  | true =>
    exact ⟨_, isReached_ofInt (k := 25) (e := 5) (by decide) (by decide) (by decide)
      (by decide +kernel)⟩
  | false =>
    exact ⟨_, isReached_ofInt (k := 13) (e := 4) (by decide) (by decide) (by decide)
      (by decide +kernel)⟩

theorem not_length_le_zero (dash : Bool) : ¬dashPattern.length dash ≤ 0 := by
  obtain ⟨t, ht⟩ := exists_isReached_dashPattern dash
  exact ht.not_le_zero

theorem dashesEnd_ramPixels (h : Bounded canvas) (c : ResourceChart) :
    dashesEnd dashPattern (c.ramPixels (c.ramPlane canvas)) = true := by
  refine dashesEnd_of_isNear exists_isReached_dashPattern fun p hp => ?_
  obtain ⟨point, -, rfl⟩ := List.mem_map.mp hp
  exact isNear_ramPlane_pixel h c point

/-- Up to `2 ^ 23` pixels a side, drawing ends if the ticks of all axes are found. -/
theorem endsOn_iff (h : Bounded canvas) (c : ResourceChart) :
    c.chart.EndsOn canvas ↔ c.chart.FiniteSpans :=
  and_iff_left (dashesEnd_ramPixels h c)

end ResourceChart

end BenchCharts
