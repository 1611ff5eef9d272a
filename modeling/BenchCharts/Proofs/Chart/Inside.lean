import Mathlib.Data.List.Basic
import BenchCharts.Proofs.Axis.Pixel
import BenchCharts.Proofs.Chart.Marks
import BenchCharts.Proofs.Chart.Samples
import BenchCharts.Proofs.Scenarios

/-!
# What is drawn lies inside the axes

Every point that a series is drawn through lies on both axes of its plane
(`Axis.Plane.Shows`).  Along the categories this is a matter of slots: the marks of a
scenario stay in its slot, hence inside the axis and apart from the marks of other
scenarios.  Up the values it is a matter of the series: the axis is made from the values
that are drawn on it.

So the pixel of such a point is not moved to an edge of the plane, if neither axis is
degenerate and the canvas has room for a plotting area (`keeps_of_shows`).
-/

namespace BenchCharts

open Axis Binary Canvas Plot

/-- A measured value: finite and not below zero. -/
structure Measured (v : Double) : Prop where
  isFinite : v.isFinite = true
  nonneg : 0 ≤ v

theorem Measured.isNaN_eq_false {v : Double} (h : Measured v) : v.isNaN = false := by
  obtain ⟨a, ha⟩ := exists_standsAt h.isFinite
  exact isNaN_eq_false_iff.mpr ⟨a, ha.rank_eq⟩

/-- The point lies on both axes of the plane. -/
structure Axis.Plane.Shows (p : Plane) (point : Double × Double) : Prop where
  x : p.x.range.Covers point.1
  y : p.y.range.Covers point.2

theorem Axis.Plane.shows_mk {p : Plane} {rx ry : Range} (hrx : p.x.range = rx)
    (hry : p.y.range = ry) {x y : Double} (hx : rx.Covers x) (hy : ry.Covers y) :
    p.Shows (x, y) :=
  ⟨hrx ▸ hx, hry ▸ hy⟩

/-! ## Axes up from zero -/

theorem covers_headroom {values : List Double} (h : ∀ v ∈ values, Measured v) {v : Double}
    (hv : v ∈ values) : (Range.mk 0 (headroom values)).Covers v :=
  covers_mk_iff.mpr ⟨(h v hv).nonneg, le_headroom hv (h v hv).isNaN_eq_false⟩

theorem zero_covers_headroom (values : List Double) :
    (Range.mk 0 (headroom values)).Covers 0 := by
  obtain ⟨top, htop, hpos, _⟩ := rank_headroom values
  exact covers_of_rank standsAt_zero.rank_eq standsAt_zero.rank_eq htop (Int.le_refl 0)
    (Int.le_of_lt hpos)

theorem LatencyChart.responseRange_start_lt_stop (c : LatencyChart) :
    c.responseRange.start < c.responseRange.stop := by
  simp only [responseRange, top]
  exact headroom_pos (c.average ++ c.p95)

namespace StabilityChart

theorem exists_standsAt_errorHeadroom : ∃ n : Nat, errorHeadroom.StandsAt n := by
  obtain ⟨a, ha⟩ := exists_standsAt (show errorHeadroom.isFinite = true by decide +kernel)
  have hpos : (0 : Double) < errorHeadroom := by decide +kernel
  rw [lt_iff_of_rank standsAt_zero.rank_eq ha.rank_eq] at hpos
  obtain ⟨n, rfl⟩ := Int.eq_ofNat_of_zero_le (Int.le_of_lt hpos)
  exact ⟨n, ha⟩

/-- The largest of finite values is finite and not below any of them. -/
theorem exists_standsAt_largest {rates : List Double} (h : ∀ r ∈ rates, r.isFinite = true) :
    ∃ top, (largest rates).StandsAt top ∧ (rates = [] → top = 0) ∧
      ∀ r ∈ rates, ∀ a, r.rank = some a → a ≤ top := by
  cases rates with
  | nil =>
    have hnil : largest [] = 0 := rfl
    rw [hnil]
    exact ⟨0, standsAt_zero, fun _ => rfl, fun r hr => absurd hr List.not_mem_nil⟩
  | cons first rest =>
    obtain ⟨a, ha⟩ := exists_standsAt (h first List.mem_cons_self)
    obtain ⟨top, htop⟩ := exists_isBest_foldl (· ≤ ·) Int.le_refl Int.le_trans isBest_maximum
      rest first a ha.rank_eq
    have hmem : largest (first :: rest) ∈ first :: rest := List.mem_cons.mpr htop.eq_or_mem
    refine ⟨top, ⟨htop.rank_eq, h _ hmem⟩, nofun, fun r hr b hb => ?_⟩
    rcases List.mem_cons.mp hr with rfl | hr
    · exact htop.le_first b hb
    · exact htop.le_of_mem r hr b hb

theorem rank_errorAxisTop {rates : List Double} (h : ∀ r ∈ rates, r.isFinite = true) :
    ∃ top, (errorAxisTop rates).rank = some top ∧
      (∀ r ∈ rates, ∀ a, r.rank = some a → a ≤ top) ∧
      ((∀ r ∈ rates, 0 ≤ r) → ∀ a, errorHeadroom.rank = some a → a ≤ top) := by
  obtain ⟨n, hn⟩ := exists_standsAt_errorHeadroom
  obtain ⟨most, hmost, hempty, hle⟩ := exists_standsAt_largest h
  have hrates : most ≤ Format.binary64.nearest (most + n) 1 :=
    le_nearest_of_rank hmost.rank_eq Nat.one_pos (by omega)
  refine ⟨_, rank_add hmost hn, fun r hr a ha => ?_, fun hnonneg a ha => ?_⟩
  · exact Int.le_trans (hle r hr a ha) hrates
  · have hpos : 0 ≤ most := by
      cases rates with
      | nil => exact Int.le_of_eq (hempty rfl).symm
      | cons first rest =>
        obtain ⟨b, hb⟩ := exists_standsAt (h first List.mem_cons_self)
        have hfirst := (le_iff_of_rank standsAt_zero.rank_eq hb.rank_eq).mp
          (hnonneg first List.mem_cons_self)
        have hmost := hle first List.mem_cons_self b hb.rank_eq
        omega
    have hroom : n ≤ Format.binary64.nearest (most + n) 1 :=
      le_nearest_of_rank hn.rank_eq Nat.one_pos (by omega)
    rw [hn.rank_eq, Option.some.injEq] at ha
    omega

section

variable {rates : List Double} (h : ∀ r ∈ rates, Measured r)

include h

theorem five_le_errorAxisTop : 5 ≤ errorAxisTop rates := by
  obtain ⟨n, hn⟩ := exists_standsAt_errorHeadroom
  obtain ⟨top, htop, _, hle⟩ := rank_errorAxisTop fun r hr => (h r hr).isFinite
  have hroom := hle (fun r hr => (h r hr).nonneg) n hn.rank_eq
  exact (le_iff_of_rank hn.rank_eq htop).mpr hroom

theorem covers_errorAxisTop {r : Double} (hr : r ∈ rates) :
    (Range.mk 0 (errorAxisTop rates)).Covers r := by
  obtain ⟨top, htop, hle, _⟩ := rank_errorAxisTop fun r hr => (h r hr).isFinite
  obtain ⟨a, ha⟩ := exists_standsAt (h r hr).isFinite
  have htopmost := (le_iff_of_rank ha.rank_eq htop).mpr (hle r hr a ha.rank_eq)
  exact covers_mk_iff.mpr ⟨(h r hr).nonneg, htopmost⟩

end

end StabilityChart

/-! ## Marks of categories -/

/-- A width of bars: it lies between nothing and half a slot. -/
structure BarWidth (width : Double) : Prop where
  nonneg : 0 ≤ width
  le_half : width ≤ 0.5

theorem LatencyChart.barWidth_barWidth : BarWidth barWidth :=
  ⟨by decide +kernel, by decide +kernel⟩

theorem StabilityChart.barWidth_halfBar : BarWidth halfBar :=
  ⟨by decide +kernel, by decide +kernel⟩

namespace BarWidth

variable {width : Double} (h : BarWidth width) {n : Nat} (hn : n ≤ 2 ^ 52)

include h hn

/-- The marks of a scenario stay inside the axis. -/
theorem covers {i : Nat} (hi : i < n) :
    (categories n).Covers (ofNat i) ∧ (categories n).Covers (ofNat i - width) ∧
      (categories n).Covers (ofNat i + width) := by
  obtain ⟨hmiddle, hleft, hright⟩ := slot_covers (Nat.lt_of_lt_of_le hi hn) h.nonneg h.le_half
  exact ⟨covers_categories hi hn hmiddle, covers_categories hi hn hleft,
    covers_categories hi hn hright⟩

/-- The marks of a scenario end before those of a later scenario begin. -/
theorem add_le_sub {i j : Nat} (hij : i < j) (hj : j < n) :
    ofNat i + width ≤ ofNat j - width := by
  have hbound := Nat.lt_of_lt_of_le hj hn
  obtain ⟨_, _, hright⟩ := slot_covers (Nat.lt_trans hij hbound) h.nonneg h.le_half
  obtain ⟨_, hleft, _⟩ := slot_covers hbound h.nonneg h.le_half
  exact le_of_slot_covers hij hbound hright hleft

theorem covers_of_mem {values : List Double} (hlength : values.length = n) {p : Double × Double}
    (hp : p ∈ Chart.categoryPoints values) :
    p.2 ∈ values ∧ (categories n).Covers p.1 ∧ (categories n).Covers (p.1 - width) ∧
      (categories n).Covers (p.1 + width) := by
  obtain ⟨i, hi⟩ := List.mem_iff_getElem?.mp hp
  rw [Chart.getElem?_categoryPoints] at hi
  obtain ⟨v, hv, rfl⟩ := Option.map_eq_some_iff.mp hi
  obtain ⟨hlt, _⟩ := List.getElem?_eq_some_iff.mp hv
  dsimp only
  exact ⟨List.mem_of_getElem? hv, h.covers hn (hlength ▸ hlt)⟩

end BarWidth

/-! ## Charts -/

/-- Both ends of a bar on the zero line are shown. -/
theorem LatencyChart.shows_of_mem_bars {x : Scenarios} {c : LatencyChart}
    (h : ofScenarios x = .ok c) (hn : c.labels.length ≤ 2 ^ 52)
    (hvalues : ∀ v ∈ c.average ++ c.p95, Measured v) (canvas : Nat × Nat) {b : Bar}
    (hb : b ∈ c.bars) :
    (c.plane canvas).Shows (b.left, 0) ∧ (c.plane canvas).Shows (b.right, b.height) := by
  obtain ⟨hshape, rfl⟩ := ofScenarios_eq_ok_iff.mp h
  have hlength := (checkShape_eq_ok_iff.mp hshape).2
  have hzero := zero_covers_headroom (x.averageLatency ++ x.p95Latency)
  rw [bars_eq] at hb
  rcases List.mem_append.mp hb with hb | hb
  · obtain ⟨p, hp, rfl⟩ := List.mem_map.mp hb
    obtain ⟨hmem, hmiddle, hleft, _⟩ := barWidth_barWidth.covers_of_mem hn
      (hlength x.averageSeries List.mem_cons_self) hp
    exact ⟨⟨hleft, hzero⟩,
      ⟨hmiddle, covers_headroom hvalues (List.mem_append_left _ hmem)⟩⟩
  · obtain ⟨p, hp, rfl⟩ := List.mem_map.mp hb
    obtain ⟨hmem, hmiddle, _, hright⟩ := barWidth_barWidth.covers_of_mem hn
      (hlength x.p95Series (List.mem_cons_of_mem _ List.mem_cons_self)) hp
    exact ⟨⟨hmiddle, hzero⟩,
      ⟨hright, covers_headroom hvalues (List.mem_append_right _ hmem)⟩⟩

section

variable {x : Scenarios} {c : StabilityChart} (h : StabilityChart.ofScenarios x = .ok c)
  (hn : c.labels.length ≤ 2 ^ 52) (canvas : Nat × Nat) {p : Double × Double}

include h hn

/-- Both ends of a bar of the throughput are shown. -/
theorem StabilityChart.shows_bar (hvalues : ∀ v ∈ c.throughput, Measured v)
    (hp : p ∈ Chart.categoryPoints c.throughput) :
    (c.plane canvas).Shows (p.1 - halfBar, 0) ∧
      (c.plane canvas).Shows (p.1 + halfBar, p.2) := by
  obtain ⟨hshape, rfl⟩ := ofScenarios_eq_ok_iff.mp h
  have hlength := (checkShape_eq_ok_iff.mp hshape).2
  obtain ⟨hmem, _, hleft, hright⟩ := barWidth_halfBar.covers_of_mem hn
    (hlength x.throughputSeries List.mem_cons_self) hp
  exact ⟨⟨hleft, zero_covers_headroom _⟩, ⟨hright, covers_headroom hvalues hmem⟩⟩

/-- The point of an error rate is shown. -/
theorem StabilityChart.shows_errorPoint (hvalues : ∀ v ∈ c.errorRate, Measured v)
    (hp : p ∈ c.errorPoints) : (c.errorPlane canvas).Shows p := by
  obtain ⟨hshape, rfl⟩ := ofScenarios_eq_ok_iff.mp h
  have hlength := (checkShape_eq_ok_iff.mp hshape).2
  obtain ⟨hmem, hmiddle, _⟩ := barWidth_halfBar.covers_of_mem hn
    (hlength x.errorSeries (List.mem_cons_of_mem _ List.mem_cons_self)) hp
  exact ⟨hmiddle, covers_errorAxisTop hvalues hmem⟩

end

namespace ResourceChart

theorem forall_mem_map {samples : List ResourceLog.Sample} {field : ResourceLog.Sample → Double}
    {P : Double → Prop} (h : ∀ s ∈ samples, P (field s)) : ∀ v ∈ samples.map field, P v :=
  fun _ hv =>
    have ⟨s, hs, heq⟩ := List.mem_map.mp hv
    heq ▸ h s hs

variable (c : ResourceChart) (canvas : Nat × Nat) {s : ResourceLog.Sample} (hs : s ∈ c.samples)
  (htime : ∀ s ∈ c.samples, s.time.isFinite = true)

include hs htime

theorem covers_time : c.timeRange.Covers s.time :=
  covers_padded (forall_mem_map htime) (List.mem_map.mpr ⟨s, hs, rfl⟩)

/-- The point of a processor load is shown, and so is the one below it. -/
theorem shows_cpu (hcpu : ∀ s ∈ c.samples, Measured s.cpu) :
    (c.plane canvas).Shows (s.time, s.cpu) ∧ (c.plane canvas).Shows (s.time, 0) := by
  have hx := c.covers_time hs htime
  have hy : c.cpuRange.Covers s.cpu :=
    covers_headroom (forall_mem_map hcpu) (List.mem_map.mpr ⟨s, hs, rfl⟩)
  exact ⟨Plane.shows_mk rfl rfl hx hy, Plane.shows_mk rfl rfl hx (zero_covers_headroom _)⟩

theorem shows_ram (hram : ∀ s ∈ c.samples, s.ram.isFinite = true) :
    (c.ramPlane canvas).Shows (s.time, s.ram) := by
  have hy : c.ramRange.Covers s.ram :=
    covers_padded (forall_mem_map hram) (List.mem_map.mpr ⟨s, hs, rfl⟩)
  exact Plane.shows_mk rfl rfl (c.covers_time hs htime) hy

end ResourceChart

/-! ## Plotting areas -/

/-- The canvas has room for a title, for the labels of any of the charts and for a plotting
area. -/
structure Spacious (canvas : Nat × Nat) : Prop where
  width : 2 * margin + pixels 50 + pixels 55 < canvas.1
  height : 2 * margin + ResourceChart.titleSpace + pixels 35 < canvas.2
  limit : canvas.1 < 2 ^ 31 ∧ canvas.2 < 2 ^ 31

/-- The charts' own canvases have room. -/
theorem spacious_size :
    ∀ size ∈ [LatencyChart.size, StabilityChart.size, ResourceChart.size], Spacious size := by
  have hwidth : 2 * margin + pixels 50 + pixels 55 < 3000 := by decide +kernel
  have hheight : 2 * margin + ResourceChart.titleSpace + pixels 35 < 1800 := by decide +kernel
  simp only [List.forall_mem_cons, LatencyChart.size, StabilityChart.size, ResourceChart.size]
  refine ⟨?_, ?_, ?_, List.forall_mem_nil _⟩ <;> constructor <;> simp [figure, density] <;> omega

/-- The plotting areas of the charts on a canvas. -/
def plottingAreas (canvas : Nat × Nat) : List Rect :=
  [(LatencyChart.layout canvas).plot, (StabilityChart.layout canvas).plot,
    (ResourceChart.layout canvas).plot]

theorem plot_ofArea {area : Rect} {space : LabelSpace} (hleft : 0 ≤ space.left)
    (hright : 0 ≤ space.right) (hbelow : 0 ≤ space.below)
    (hwidth : area.left + space.left < area.right - space.right)
    (hheight : area.top < area.bottom - space.below) :
    (Layout.ofArea area space).plot = ⟨area.left + space.left, area.top,
      area.right - space.right, area.bottom - space.below⟩ := by
  rw [Layout.ofArea, sort4_eq (by omega) hwidth (by omega),
    sort4_eq (Int.le_refl _) hheight (by omega)]

theorem extended_plot {canvas : Nat × Nat} (title : String) {space : LabelSpace}
    (hbelow : 0 ≤ space.below) (hleft : 0 ≤ space.left) (hright : 0 ≤ space.right)
    (hwidth : 2 * margin + space.left + space.right < canvas.1)
    (hheight : 2 * margin + ResourceChart.titleSpace + space.below < canvas.2)
    (hlimit : canvas.1 < 2 ^ 31 ∧ canvas.2 < 2 ^ 31) :
    Extended (Layout.ofArea (Chart.heading canvas title).2 space).plot := by
  have hmargin : 0 ≤ margin := by decide +kernel
  have htitle : 0 ≤ ResourceChart.titleSpace := by decide +kernel
  have harea : (Chart.heading canvas title).2
      = ⟨margin, margin + ResourceChart.titleSpace, canvas.1 - margin, canvas.2 - margin⟩ := by
    simp only [Chart.heading, placeTitle, Chart.canvasArea, Rect.shrink, ResourceChart.wrap32_of_lt hlimit.1,
      ResourceChart.wrap32_of_lt hlimit.2, ResourceChart.titleSpace, Rect.mk.injEq, and_true]
    omega
  rw [harea, plot_ofArea hleft hright hbelow (by dsimp only; omega) (by dsimp only; omega)]
  constructor <;> dsimp only <;> omega

theorem extended_plottingAreas {canvas : Nat × Nat} (h : Spacious canvas) :
    ∀ area ∈ plottingAreas canvas, Extended area := by
  obtain ⟨hwidth, hheight, hlimit⟩ := h
  have hspace : 0 ≤ pixels 30 ∧ pixels 30 ≤ pixels 35 ∧ 0 ≤ pixels 50 ∧ pixels 50 ≤ pixels 55 := by
    decide +kernel
  simp only [plottingAreas, List.forall_mem_cons, LatencyChart.layout, StabilityChart.layout,
    ResourceChart.layout]
  refine ⟨?_, ?_, ?_, List.forall_mem_nil _⟩ <;>
    refine extended_plot _ ?_ ?_ ?_ ?_ ?_ hlimit <;> dsimp only <;> omega

/-- The pixel of a point that is shown is not moved. -/
theorem keeps_of_shows {area : Rect} (harea : Extended area) {rx ry : Range}
    (hrx : rx.start < rx.stop) (hry : ry.start < ry.stop) {p : Plane}
    (hp : p ∈ [Plane.inside area rx ry, Plane.onEdges area rx ry]) {point : Double × Double}
    (h : p.Shows point) : p.Keeps point := by
  rcases List.mem_pair.mp hp with rfl | rfl
  · exact Plane.keeps_of_covers harea (Plane.endsInside_inside harea rx ry) hrx hry h.x h.y
  · exact Plane.keeps_of_covers harea (Plane.endsInside_onEdges harea rx ry) hrx hry h.x h.y

/-- Of measured values the axes cover everything that is drawn on them, in the arithmetic of
doubles and whatever overflows.  An axis up from zero ends above zero and not below any
value, that of the error rates at five or above.  A padded axis is not inverted and covers
all values.  An axis of up to `2 ^ 52` categories covers the bars of all of them, and the
bars of different categories do not overlap.  So both ends of every bar and every point of
a line or of a marker lie inside the axes of their plane, in all three charts; and if
neither of the axes is degenerate, the pixel of such a point is not moved to an edge of the
plotting area. -/
theorem axes_cover_drawing :
    (∀ values : List Double, (∀ v ∈ values, Measured v) →
      0 < headroom values ∧ ∀ v ∈ values, v ≤ headroom values)
    ∧ (∀ rates : List Double, (∀ r ∈ rates, Measured r) →
      5 ≤ StabilityChart.errorAxisTop rates ∧
        ∀ r ∈ rates, r ≤ StabilityChart.errorAxisTop rates)
    ∧ (∀ values : List Double, (∀ v ∈ values, v.isFinite = true) →
      (padded values).start ≤ (padded values).stop ∧ ∀ v ∈ values, (padded values).Covers v)
    ∧ (∀ n : Nat, 1 ≤ n → n ≤ 2 ^ 52 →
      (categories n).start < (categories n).stop ∧
        ∀ width ∈ [LatencyChart.barWidth, StabilityChart.halfBar],
          (∀ i < n, (categories n).Covers (ofNat i) ∧ (categories n).Covers (ofNat i - width) ∧
            (categories n).Covers (ofNat i + width)) ∧
          ∀ i j : Nat, i < j → j < n → ofNat i + width ≤ ofNat j - width)
    ∧ (∀ (x : Scenarios) (c : LatencyChart), LatencyChart.ofScenarios x = .ok c →
      c.labels.length ≤ 2 ^ 52 → (∀ v ∈ c.average ++ c.p95, Measured v) →
      ∀ canvas, ∀ b ∈ c.bars,
        (c.plane canvas).Shows (b.left, 0) ∧ (c.plane canvas).Shows (b.right, b.height))
    ∧ (∀ (x : Scenarios) (c : StabilityChart), StabilityChart.ofScenarios x = .ok c →
      c.labels.length ≤ 2 ^ 52 → (∀ v ∈ c.throughput ++ c.errorRate, Measured v) →
      ∀ canvas,
        (∀ p ∈ Chart.categoryPoints c.throughput,
          (c.plane canvas).Shows (p.1 - StabilityChart.halfBar, 0) ∧
            (c.plane canvas).Shows (p.1 + StabilityChart.halfBar, p.2)) ∧
        ∀ p ∈ c.errorPoints, (c.errorPlane canvas).Shows p)
    ∧ (∀ c : ResourceChart, (∀ s ∈ c.samples, s.time.isFinite = true) →
      (∀ s ∈ c.samples, Measured s.cpu) → (∀ s ∈ c.samples, s.ram.isFinite = true) →
      ∀ canvas,
        (∀ p ∈ c.cpuPoints, (c.plane canvas).Shows p ∧ (c.plane canvas).Shows (p.1, 0)) ∧
        ∀ p ∈ c.ramPoints, (c.ramPlane canvas).Shows p)
    ∧ ∀ canvas, Spacious canvas → ∀ area ∈ plottingAreas canvas,
      ∀ rx ry : Range, rx.start < rx.stop → ry.start < ry.stop →
      ∀ p ∈ [Plane.inside area rx ry, Plane.onEdges area rx ry],
      ∀ point, p.Shows point → p.Keeps point := by
  refine ⟨?headroom, ?errorAxis, ?padded, ?categories, ?latency, ?stability, ?resources, ?pixels⟩
  case headroom =>
    intro values h
    exact ⟨headroom_pos values, fun v hv => (covers_mk_iff.mp (covers_headroom h hv)).2⟩
  case errorAxis =>
    intro rates h
    exact ⟨StabilityChart.five_le_errorAxisTop h,
      fun r hr => (covers_mk_iff.mp (StabilityChart.covers_errorAxisTop h hr)).2⟩
  case padded =>
    intro values h
    exact ⟨padded_start_le_stop h, fun v hv => covers_padded h hv⟩
  case categories =>
    intro n hpos hn
    refine ⟨categories_start_lt_stop hpos hn, fun width hmem => ?_⟩
    have hwidth : BarWidth width := by
      rcases List.mem_pair.mp hmem with hwidth | hwidth
      · rw [hwidth]
        exact LatencyChart.barWidth_barWidth
      · rw [hwidth]
        exact StabilityChart.barWidth_halfBar
    exact ⟨fun i hi => hwidth.covers hn hi, fun i j hij hj => hwidth.add_le_sub hn hij hj⟩
  case latency =>
    intro x c h hn hvalues canvas b hb
    exact LatencyChart.shows_of_mem_bars h hn hvalues canvas hb
  case stability =>
    intro x c h hn hvalues canvas
    obtain ⟨hthroughput, herror⟩ := List.forall_mem_append.mp hvalues
    exact ⟨fun p hp => StabilityChart.shows_bar h hn canvas hthroughput hp,
      fun p hp => StabilityChart.shows_errorPoint h hn canvas herror hp⟩
  case resources =>
    intro c htime hcpu hram canvas
    refine ⟨fun p hp => ?_, fun p hp => ?_⟩
    · obtain ⟨s, hs, rfl⟩ := List.mem_map.mp hp
      dsimp only
      exact c.shows_cpu canvas hs htime hcpu
    · obtain ⟨s, hs, rfl⟩ := List.mem_map.mp hp
      exact c.shows_ram canvas hs htime hram
  case pixels =>
    intro canvas hcanvas area harea rx ry hrx hry p hp point hpoint
    exact keeps_of_shows (extended_plottingAreas hcanvas area harea) hrx hry hp hpoint

/-- Two scenarios on the canvas of their chart, where no bar is moved. -/
theorem axes_cover_drawing_two_scenarios :
    let x : Scenarios :=
      { labels := ["base", "load"], averageLatency := [13.15, 0], p95Latency := [15.52, 48.58] }
    let c : LatencyChart := ⟨x.labels, x.averageLatency, x.p95Latency⟩
    let plane := c.plane LatencyChart.size
    LatencyChart.ofScenarios x = .ok c ∧ Spacious LatencyChart.size ∧
      (∀ v ∈ c.average ++ c.p95, Measured v) ∧ (categories 2).start < (categories 2).stop ∧
      c.responseRange.start < c.responseRange.stop ∧
      ∀ b ∈ c.bars, plane.Keeps (b.left, 0) ∧ plane.Keeps (b.right, b.height) := by
  intro x c plane
  obtain ⟨_, _, _, hcategories, hlatency, _, _, hpixels⟩ := axes_cover_drawing
  have hchart : LatencyChart.ofScenarios x = .ok c := rfl
  have hspacious : Spacious LatencyChart.size := spacious_size _ List.mem_cons_self
  have hvalues : ∀ v ∈ c.average ++ c.p95, Measured v := by
    have hdecided : ∀ v ∈ c.average ++ c.p95, v.isFinite = true ∧ 0 ≤ v := by decide +kernel
    exact fun v hv => ⟨(hdecided v hv).1, (hdecided v hv).2⟩
  have hslots : (categories 2).start < (categories 2).stop :=
    (hcategories 2 (by decide) (by decide)).1
  refine ⟨hchart, hspacious, hvalues, hslots, c.responseRange_start_lt_stop, fun b hb => ?_⟩
  have hbar := hlatency x c hchart (by decide) hvalues LatencyChart.size b hb
  have harea : (LatencyChart.layout LatencyChart.size).plot ∈ plottingAreas LatencyChart.size :=
    List.mem_cons_self
  have hkeeps := hpixels _ hspacious _ harea c.slots c.responseRange hslots
    c.responseRange_start_lt_stop (c.plane _) List.mem_cons_self
  exact ⟨hkeeps _ hbar.1, hkeeps _ hbar.2⟩

end BenchCharts
