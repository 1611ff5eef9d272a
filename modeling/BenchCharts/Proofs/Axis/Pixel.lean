import BenchCharts.Axis.Scale
import BenchCharts.Proofs.Axis.Cover
import BenchCharts.Proofs.Binary.Integer

/-!
# Pixels of covered values

A value that a range covers has a share of the range between zero and one
(`share_cases`); only where the arithmetic overflows the share is a NaN.  The distance that
belongs to a share is between nothing and the length of the line: the slack is less than
half a pixel, which rounding to a whole number takes away again (`distance_bounds`).  So the
pixel lies on the line (`Scale.covers_pixel`), and the rectangle of a plane does not move it
(`Plane.keeps_of_covers`).
-/

namespace BenchCharts.Axis

open Binary Format Canvas

theorem holdsWhole_binary64 : binary64.HoldsWhole := by
  unfold HoldsWhole
  decide

/-! ## Shares -/

/-- What an infinite or missing spread divides has no share, or none of the spread. -/
theorem div_of_not_isFinite {u d : Double} (hd : d.isFinite = false) :
    u / d = .nan ∨ (u / d).StandsAt 0 := by
  cases d with
  | finite => cases hd
  | nan => cases u <;> exact .inl rfl
  | infinite t =>
    cases u with
    | nan | infinite => exact .inl rfl
    | finite s =>
      right
      show (zero (s != t)).StandsAt 0
      cases s != t <;> exact ⟨rfl, rfl⟩

section

variable {low x high : Double} {lo b hi : Int} (hlow : low.StandsAt lo) (hx : x.StandsAt b)
  (hhigh : high.StandsAt hi) (hspread : (high - low).isFinite = true) (hlt : lo < hi)
  (hge : lo ≤ b) (hle : b ≤ hi)

include hlow hhigh hspread hlt

/-- The spread is a positive number of units. -/
theorem exists_standsAt_spread : ∃ n : Nat, (high - low).StandsAt n ∧ 0 < n ∧
    (n : Int) = binary64.nearest (hi - lo) 1 := by
  have hrank := rank_sub hhigh hlow
  have hunit : binary64.nearest 1 1 = 1 := by decide +kernel
  have hpos : 1 ≤ binary64.nearest (hi - lo) 1 := by
    rw [← hunit]
    exact nearest_mono Nat.one_pos (by omega)
  obtain ⟨n, hn⟩ := Int.eq_ofNat_of_zero_le (show 0 ≤ binary64.nearest (hi - lo) 1 by omega)
  rw [hn] at hrank hpos
  exact ⟨n, ⟨hrank, hspread⟩, by omega, hn.symm⟩

include hx hge hle

/-- The part of the spread that lies below a value between the two ends. -/
theorem exists_standsAt_share_of_spread :
    ∃ a, ((x - low) / (high - low)).StandsAt a ∧ 0 ≤ a ∧ a ≤ binary64.one := by
  obtain ⟨n, hspreadAt, hn, hspreadEq⟩ := exists_standsAt_spread hlow hhigh hspread hlt
  have hpartNonneg : 0 ≤ binary64.nearest (b - lo) 1 :=
    le_nearest_of_rank standsAt_zero.rank_eq Nat.one_pos (by omega)
  have hpartLe : binary64.nearest (b - lo) 1 ≤ n := by
    rw [hspreadEq]
    exact nearest_mono Nat.one_pos (by omega)
  have hpart : (x - low).StandsAt (binary64.nearest (b - lo) 1) := by
    have hfits := hspreadAt.fits.2
    exact standsAt_of_rank (rank_sub hx hlow) (by omega)
  have hshare := rank_div hpart hspreadAt hn
  generalize binary64.nearest (b - lo) 1 = part at *
  have hshareNonneg : 0 ≤ binary64.nearest (part * binary64.one) n := by
    apply le_nearest_of_rank standsAt_zero.rank_eq hn
    rw [Int.zero_mul]
    exact Int.mul_nonneg hpartNonneg (Int.natCast_nonneg _)
  have hshareLe : binary64.nearest (part * binary64.one) n ≤ binary64.one := by
    apply nearest_le_of_rank standsAt_one.rank_eq hn
    rw [Int.mul_comm part]
    exact Int.mul_le_mul_of_nonneg_left hpartLe (Int.natCast_nonneg _)
  have hone := standsAt_one.fits.2
  exact ⟨_, standsAt_of_rank hshare (by omega), hshareNonneg, hshareLe⟩

end

/-- The share of a covered value in its range. -/
theorem share_cases {r : Range} (hr : r.start < r.stop) {x : Double} (h : r.Covers x) :
    (x - r.start) / (r.stop - r.start) = .nan
      ∨ ∃ a, ((x - r.start) / (r.stop - r.start)).StandsAt a ∧ 0 ≤ a ∧ a ≤ binary64.one := by
  cases hspread : (r.stop - r.start).isFinite with
  | false =>
    refine (div_of_not_isFinite hspread).imp_right fun hzero => ⟨0, hzero, Int.le_refl 0, ?_⟩
    exact Int.natCast_nonneg _
  | true =>
    right
    obtain ⟨hstop, hstart⟩ := isFinite_of_isFinite_sub hspread
    obtain ⟨lo, hlo⟩ := exists_standsAt hstart
    obtain ⟨hi, hhi⟩ := exists_standsAt hstop
    obtain ⟨_, b, _, hb, _⟩ := le_iff.mp h.start_le
    have hge := (le_iff_of_rank hlo.rank_eq hb).mp h.start_le
    have hle := (le_iff_of_rank hb hhi.rank_eq).mp h.le_stop
    have hlt := (lt_iff_of_rank hlo.rank_eq hhi.rank_eq).mp hr
    have hx : x.StandsAt b := by
      have hlofits := hlo.fits.2
      have hhifits := hhi.fits.2
      exact standsAt_of_rank hb (by omega)
    exact exists_standsAt_share_of_spread hlo hx hhi hspread hlt hge hle

/-! ## Distances -/

theorem exists_standsAt_slack : ∃ n : Nat, Scale.slack.StandsAt n ∧ n ≤ halfUnits := by
  obtain ⟨a, ha⟩ := exists_standsAt (show Scale.slack.isFinite = true by decide +kernel)
  have hpos : (0 : Double) ≤ Scale.slack := by decide +kernel
  have hle : Scale.slack ≤ 0.5 := by decide +kernel
  rw [le_iff_of_rank standsAt_zero.rank_eq ha.rank_eq] at hpos
  rw [le_iff_of_rank ha.rank_eq standsAt_half.rank_eq] at hle
  obtain ⟨n, rfl⟩ := Int.eq_ofNat_of_zero_le hpos
  exact ⟨n, ha, by omega⟩

theorem mul_one_eq (k : Int) : k * binary64.one = 2 * k * halfUnits := by
  rw [← two_mul_halfUnits, Int.natCast_mul, Int.cast_ofNat_Int, ← Int.mul_assoc, Int.mul_comm k]

/-- Half a one more does not make a larger integer. -/
theorem ediv_one_le {a k : Int} (h : a ≤ (2 * k + 1) * halfUnits) : a / binary64.one ≤ k := by
  have hhalf : 0 < halfUnits := Nat.two_pow_pos _
  have hone : (0 : Int) < binary64.one := Int.natCast_pos.mpr binary64.one_pos
  rw [Int.ediv_le_iff_le_mul hone, mul_one_eq, ← two_mul_halfUnits]
  rw [Int.add_mul] at h
  omega

theorem distance_nan (length : Int) : Scale.distance length .nan = 0 := by
  have hexact : (ofInt length : Double) * .nan = .nan := by cases (ofInt length : Double) <;> rfl
  simp only [Scale.distance, hexact]
  split <;> rfl

section

variable {length : Int} (hlength : length.natAbs < 2 ^ 31) {t : Double} {a : Int}
  (ht : t.StandsAt a) (hlow : 0 ≤ a) (hhigh : a ≤ binary64.one)

include hlength ht hlow hhigh

/-- A share of a line, before the slack is added. -/
theorem exists_standsAt_exact : ∃ e, (ofInt length * t).StandsAt e ∧
    min 0 (2 * length * halfUnits) ≤ e ∧ e ≤ max 0 (2 * length * halfUnits) := by
  have hdigits : 2 ^ 31 ≤ 2 ^ binary64.digits := Nat.pow_le_pow_right (by decide) (by decide)
  have hlengthAt : (ofInt length : Double).StandsAt (length * binary64.one) :=
    standsAt_ofInt holdsWhole_binary64 (by omega)
  have hone := binary64.one_pos
  have hfits := hlengthAt.fits.2
  have hproduct := rank_mul hlengthAt ht
  rw [← mul_one_eq]
  generalize length * (binary64.one : Int) = whole at *
  have hbounds : min 0 whole ≤ binary64.nearest (whole * a) binary64.one ∧
      binary64.nearest (whole * a) binary64.one ≤ max 0 whole := by
    have hstart := (standsAt_zero (f := binary64)).rank_eq
    have hzero : (0 : Int) * binary64.one = 0 := Int.zero_mul _
    rcases Int.le_total 0 whole with hpos | hneg
    · have hge := le_nearest_of_rank hstart hone
        (hzero ▸ Int.mul_nonneg hpos hlow)
      have hle := nearest_le_of_rank hlengthAt.rank_eq hone
        (Int.mul_le_mul_of_nonneg_left hhigh hpos)
      omega
    · have hge := le_nearest_of_rank hlengthAt.rank_eq hone
        (Int.mul_le_mul_of_nonpos_left hneg hhigh)
      have hle := nearest_le_of_rank hstart hone
        (hzero ▸ Int.mul_nonpos_of_nonpos_of_nonneg hneg hlow)
      omega
  exact ⟨_, standsAt_of_rank hproduct (by omega), hbounds⟩

/-- A share of a line is a number of pixels between nothing and the length of the line. -/
theorem distance_bounds : min 0 length ≤ Scale.distance length t ∧
    Scale.distance length t ≤ max 0 length := by
  obtain ⟨e, he, hmin, hmax⟩ := exists_standsAt_exact hlength ht hlow hhigh
  obtain ⟨n, hslack, hhalf⟩ := exists_standsAt_slack
  have hone : (0 : Int) < binary64.one := Int.natCast_pos.mpr binary64.one_pos
  have hdigits : 2 ^ 53 = 2 ^ binary64.digits := rfl
  unfold Scale.distance
  dsimp only
  split
  · rename_i hpos
    have hline := mul_halfUnits_mono (show 0 ≤ 2 * length by omega)
    have hupper : binary64.nearest (e + n) 1 ≤ (2 * length + 1) * halfUnits := by
      apply nearest_le_mul_halfUnits (by omega)
      rw [Int.add_mul]
      omega
    have hlower : 0 ≤ binary64.nearest (e + n) 1 :=
      le_nearest_of_rank standsAt_zero.rank_eq Nat.one_pos (by omega)
    have hsum : (ofInt length * t + Scale.slack).StandsAt (binary64.nearest (e + n) 1) := by
      have hfits := natAbs_mul_halfUnits_lt (k := 2 * length + 1) (by omega)
      exact standsAt_of_rank (rank_add he hslack) (by omega)
    have hle := ediv_one_le hupper
    have hge := Int.ediv_nonneg hlower (Int.le_of_lt hone)
    rw [toInt32_floor holdsWhole_binary64 (by decide) hsum (by omega) (by omega)]
    omega
  · rename_i hneg
    have hline := mul_halfUnits_mono (show 2 * length ≤ 0 by omega)
    have hlower : (2 * length - 1) * halfUnits ≤ binary64.nearest (e - n) 1 := by
      apply mul_halfUnits_le_nearest (by omega)
      rw [Int.sub_mul]
      omega
    have hupper : binary64.nearest (e - n) 1 ≤ 0 :=
      nearest_le_of_rank standsAt_zero.rank_eq Nat.one_pos (by omega)
    have hsum : (ofInt length * t - Scale.slack).StandsAt (binary64.nearest (e - n) 1) := by
      have hfits := natAbs_mul_halfUnits_lt (k := 2 * length - 1) (by omega)
      exact standsAt_of_rank (rank_sub he hslack) (by omega)
    have hle : -binary64.nearest (e - n) 1 / binary64.one ≤ -length := by
      apply ediv_one_le
      have hmirror : (2 * -length + 1) * (halfUnits : Int) = -((2 * length - 1) * halfUnits) := by
        rw [← Int.neg_mul]
        congr 1
        omega
      omega
    have hge := Int.ediv_nonneg (show 0 ≤ -binary64.nearest (e - n) 1 by omega) (Int.le_of_lt hone)
    rw [toInt32_ceil holdsWhole_binary64 (by decide) hsum (by omega) (by omega)]
    omega

end

/-! ## Pixels -/

theorem wrap32_of_bounds {n : Int} (hlow : -2 ^ 31 ≤ n) (hhigh : n < 2 ^ 31) : Scale.wrap32 n = n :=
  Int.bmod_eq_of_le (by omega) (by omega)

/-- The pixel of a covered value lies between the two end pixels. -/
theorem Scale.covers_pixel {s : Scale} (hrange : s.range.start < s.range.stop) (hlow : 0 ≤ s.low)
    (hhigh : s.high < 2 ^ 31) {x : Double} (h : s.range.Covers x) :
    s.covers (s.pixel x) = true := by
  have hnot : s.range.stop.equals s.range.start = false := by
    obtain ⟨a, b, ha, hb, hlt⟩ := lt_iff.mp hrange
    rw [Bool.eq_false_iff, ne_eq, equals_iff_of_rank hb ha]
    omega
  have hdistance : ∀ t : Double, t = .nan ∨ (∃ a, t.StandsAt a ∧ 0 ≤ a ∧ a ≤ binary64.one) →
      s.low ≤ wrap32 (s.start + distance (s.stop - s.start) t) ∧
        wrap32 (s.start + distance (s.stop - s.start) t) ≤ s.high := by
    intro t ht
    have hbounds : min 0 (s.stop - s.start) ≤ distance (s.stop - s.start) t ∧
        distance (s.stop - s.start) t ≤ max 0 (s.stop - s.start) := by
      rcases ht with rfl | ⟨a, ha, hge, hle⟩
      · rw [distance_nan]
        omega
      · unfold low high at *
        exact distance_bounds (by omega) ha hge hle
    unfold low high at *
    rw [wrap32_of_bounds (by omega) (by omega)]
    omega
  have hshare := share_cases hrange h
  rw [pixel, hnot, if_neg Bool.false_ne_true]
  split
  · rename_i negative hinfinite
    rw [hinfinite] at hshare
    obtain hnan | ⟨_, hat, _⟩ := hshare
    · cases hnan
    · cases hat.isFinite
  · have hbounds := hdistance _ hshare
    simp only [covers, Bool.and_eq_true, decide_eq_true_eq]
    exact hbounds

/-- The rectangle has an extent in both directions, and pixel coordinates at its edges. -/
structure Extended (area : Rect) : Prop where
  left : 0 ≤ area.left
  width : area.left < area.right
  right : area.right < 2 ^ 31
  top : 0 ≤ area.top
  height : area.top < area.bottom
  bottom : area.bottom < 2 ^ 31

/-- The pixel of a point is the pair of the pixels of its coordinates, and none of them is
moved to an edge of the rectangle. -/
def Plane.Keeps (p : Plane) (point : Double × Double) : Prop :=
  p.pixel point = ⟨p.x.pixel point.1, p.y.pixel point.2⟩

/-- The scales of the plane end on pixels of its rectangle. -/
structure Plane.EndsInside (p : Plane) : Prop where
  left : p.area.left ≤ p.x.low
  right : p.x.high ≤ p.area.right
  top : p.area.top ≤ p.y.low
  bottom : p.y.high ≤ p.area.bottom

theorem Plane.endsInside_inside {area : Rect} (h : Extended area) (rx ry : Range) :
    (Plane.inside area rx ry).EndsInside := by
  obtain ⟨_, hwidth, _, _, hheight, _⟩ := h
  constructor <;> simp only [Plane.inside, Scale.low, Scale.high] <;> omega

theorem Plane.endsInside_onEdges {area : Rect} (h : Extended area) (rx ry : Range) :
    (Plane.onEdges area rx ry).EndsInside := by
  obtain ⟨_, hwidth, _, _, hheight, _⟩ := h
  constructor <;> simp only [Plane.onEdges, Scale.low, Scale.high] <;> omega

theorem Plane.keeps_of_covers {p : Plane} (harea : Extended p.area) (hends : p.EndsInside)
    (hrx : p.x.range.start < p.x.range.stop) (hry : p.y.range.start < p.y.range.stop)
    {point : Double × Double} (hx : p.x.range.Covers point.1) (hy : p.y.range.Covers point.2) :
    p.Keeps point := by
  obtain ⟨hleft, hright, htop, hbottom⟩ := hends
  have hxpixel := Scale.covers_pixel hrx (Int.le_trans harea.left hleft)
    (Int.lt_of_le_of_lt hright harea.right) hx
  have hypixel := Scale.covers_pixel hry (Int.le_trans harea.top htop)
    (Int.lt_of_le_of_lt hbottom harea.bottom) hy
  simp only [Scale.covers, Bool.and_eq_true, decide_eq_true_eq] at hxpixel hypixel
  rw [Keeps, Plane.pixel, Rect.clamp, Pixel.mk.injEq]
  dsimp only
  omega

end BenchCharts.Axis
