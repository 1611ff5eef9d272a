import BenchCharts.Proofs.Binary.Hypotenuse
import BenchCharts.Proofs.Binary.Integer
import BenchCharts.Proofs.Plot.Dash

/-!
# The pen of a dashed line arrives

The positions of a pen are single precision values, and on a canvas of many millions of pixels
its moves are lost in rounding.  Near enough to the origin they are not: a dash or a gap of
thirteen pixels or more takes the pen half a pixel nearer to its corner, whatever is rounded on
the way (`exists_isAt_toward`).  One step keeps the pen near (`Pen.step_cases`), so it comes to
its corner in two moves for each pixel (`Pen.exists_isAt_walk_of_zero`), and from there to all
other corners (`dashesEnd_of_isNear`).
-/

namespace BenchCharts.Plot

open Binary Canvas

/-- The units of one pixel. -/
def unit : Nat := Format.one .binary32

theorem two_pow_mul_unit (e : Nat) : 2 ^ e * unit = 2 ^ (e + 149) := by
  rw [unit, Format.one, ← Nat.pow_add]
  rfl

/-! ## One coordinate -/

/-- The arithmetic of a move along one axis. -/
theorem near_of_between {n x a w z u : Int} (hu : 0 < u) (ha : 2 * (a - (n - x)).natAbs ≤ u)
    (hw : 0 ≤ w ∧ w ≤ a ∧ x ≤ z ∨ a ≤ w ∧ w ≤ 0 ∧ z ≤ x)
    (hz : 2 * (z - (x + w)).natAbs ≤ u) :
    ((n - z).natAbs ≤ (n - x).natAbs ∨ (n - z).natAbs ≤ u) ∧
      (3 * u ≤ w.natAbs → 2 * (n - z).natAbs + 3 * u ≤ 2 * (n - x).natAbs) ∧
      (z.natAbs ≤ x.natAbs ∨ z.natAbs ≤ n.natAbs + u) := by
  omega

/-- A place within `2 ^ 24` pixels is moved by at most half a pixel. -/
theorem natAbs_nearest_sub_le_unit {a : Int} (h : a.natAbs < 2 ^ 24 * unit) :
    2 * (Format.nearest .binary32 a 1 - a).natAbs ≤ unit := by
  rw [two_pow_mul_unit] at h
  exact Format.natAbs_nearest_sub_le (f := .binary32) h (by decide)

theorem standsAt_of_natAbs_le {x : Single} {a : Int} (h : x.rank = some a)
    (ha : a.natAbs ≤ 2 ^ 25 * unit) : x.StandsAt a := by
  rw [two_pow_mul_unit] at ha
  exact standsAt_of_rank h (Nat.lt_of_le_of_lt ha (Nat.pow_lt_pow_right (by decide) (by decide)))

/-- Near the canvas a difference is rounded by at most half a pixel. -/
theorem exists_standsAt_sub {x y : Single} {a b : Int} (hx : x.StandsAt a) (hy : y.StandsAt b)
    (h : (a - b).natAbs < 2 ^ 24 * unit) :
    ∃ d, (x - y).StandsAt d ∧ 2 * (d - (a - b)).natAbs ≤ unit := by
  have hnear := natAbs_nearest_sub_le_unit h
  exact ⟨_, standsAt_of_natAbs_le (rank_sub hx hy) (by omega), hnear⟩

/-- The leg of a way along one axis. -/
theorem exists_standsAt_leg {x stop : Single} {p n : Int} (hx : x.StandsAt p)
    (hstop : stop.StandsAt n) (hp : p.natAbs ≤ 2 ^ 23 * unit)
    (hn : n.natAbs + unit ≤ 2 ^ 23 * unit) :
    ∃ a, (stop - x).StandsAt a ∧ 2 * (a - (n - p)).natAbs ≤ unit ∧ a.natAbs ≤ 2 ^ 25 * unit := by
  have hunit : 0 < unit := Format.one_pos _
  obtain ⟨a, ha, hnear⟩ := exists_standsAt_sub hstop hx (by omega)
  exact ⟨a, ha, hnear, by omega⟩

/-- A product with a share of the whole lies between nothing and the whole. -/
theorem exists_standsAt_mul {d share : Single} {a s : Int} (hd : d.StandsAt a)
    (hshare : share.StandsAt s) (hs : 0 ≤ s) (hs' : s ≤ unit) (ha : a.natAbs ≤ 2 ^ 25 * unit) :
    ∃ w, (d * share).StandsAt w ∧ (0 ≤ w ∧ w ≤ a ∨ a ≤ w ∧ w ≤ 0) ∧
      (3 * unit * unit ≤ a.natAbs * s.natAbs → 3 * unit ≤ w.natAbs) := by
  have hunit : 0 < unit := Format.one_pos _
  have hrank : (d * share).rank = some (Format.nearest .binary32 (a * s) unit) :=
    rank_mul hd hshare
  have hzero := nearest_mul_of_rank (f := .binary32) (x := zero false) (a := 0) rfl hunit
  have hwhole := nearest_mul_of_rank hd.rank_eq hunit
  have hbetween : 0 ≤ Format.nearest .binary32 (a * s) unit
      ∧ Format.nearest .binary32 (a * s) unit ≤ a
      ∨ a ≤ Format.nearest .binary32 (a * s) unit
        ∧ Format.nearest .binary32 (a * s) unit ≤ 0 := by
    rcases Int.le_total 0 a with hpos | hneg
    · have hlow : 0 * (unit : Int) ≤ a * s := by
        rw [Int.zero_mul]
        exact Int.mul_nonneg hpos hs
      have hlow := Format.nearest_mono (f := .binary32) hunit hlow
      have hhigh := Format.nearest_mono (f := .binary32) hunit
        (Int.mul_le_mul_of_nonneg_left hs' hpos)
      rw [hzero] at hlow
      rw [hwhole] at hhigh
      exact .inl ⟨hlow, hhigh⟩
    · have hhigh : a * s ≤ 0 * (unit : Int) := by
        rw [Int.zero_mul]
        exact Int.mul_nonpos_of_nonpos_of_nonneg hneg hs
      have hhigh := Format.nearest_mono (f := .binary32) hunit hhigh
      have hlow := Format.nearest_mono (f := .binary32) hunit
        (Int.mul_le_mul_of_nonpos_left hneg hs')
      rw [hzero] at hhigh
      rw [hwhole] at hlow
      exact .inr ⟨hlow, hhigh⟩
  refine ⟨_, standsAt_of_natAbs_le hrank (by omega), hbetween, fun hlarge => ?_⟩
  have hthree : (3 : Single).rank = some ((3 * unit : Nat) : Int) := by decide +kernel
  rw [Format.natAbs_nearest, Int.natAbs_mul]
  have hkept := Format.nearestUnits_mono (f := .binary32) hunit hlarge
  have hexact := nearest_mul_of_rank hthree hunit
  rw [← Int.natCast_mul, Format.nearest_natCast] at hexact
  omega

/-- A move along one axis.  It comes nearer unless the share of the way is small. -/
theorem exists_standsAt_toward {x stop share : Single} {p n a s : Int} (hx : x.StandsAt p)
    (hdiff : (stop - x).StandsAt a) (ha : 2 * (a - (n - p)).natAbs ≤ unit)
    (hshare : share.StandsAt s) (hs : 0 ≤ s) (hs' : s ≤ unit)
    (hp : p.natAbs ≤ 2 ^ 23 * unit) (hn : n.natAbs + unit ≤ 2 ^ 23 * unit) :
    ∃ z, (x + (stop - x) * share).StandsAt z ∧
      z.natAbs ≤ 2 ^ 23 * unit ∧ (n - z).natAbs ≤ (n - p).natAbs + unit ∧
      (3 * unit * unit ≤ a.natAbs * s.natAbs →
        2 * (n - z).natAbs + 3 * unit ≤ 2 * (n - p).natAbs) := by
  have hunit : 0 < unit := Format.one_pos _
  obtain ⟨w, hproduct, hbetween, hlarge⟩ := exists_standsAt_mul hdiff hshare hs hs' (by omega)
  have hz := natAbs_nearest_sub_le_unit (a := p + w) (by omega)
  have hsum := standsAt_of_natAbs_le (rank_add hx hproduct) (by omega)
  -- the sum is not rounded beyond the place where the move begins
  have hfrom : 0 ≤ w ∧ w ≤ a ∧ p ≤ Format.nearest .binary32 (p + w) 1
      ∨ a ≤ w ∧ w ≤ 0 ∧ Format.nearest .binary32 (p + w) 1 ≤ p := by
    rcases hbetween with ⟨hw, hwa⟩ | ⟨haw, hw⟩
    · exact .inl ⟨hw, hwa, le_nearest_of_rank hx.rank_eq Nat.one_pos (by omega)⟩
    · exact .inr ⟨haw, hw, nearest_le_of_rank hx.rank_eq Nat.one_pos (by omega)⟩
  generalize Format.nearest .binary32 (p + w) 1 = z at hz hsum hfrom
  obtain ⟨hnear, hfar, hbound⟩ := near_of_between (n := n) (u := unit) (by omega) (by omega) hfrom
    (by omega)
  refine ⟨z, hsum, by omega, by omega, fun hmany => ?_⟩
  have hstep := hlarge hmany
  omega

theorem standsAt_ofInt_of_lt {k : Int} (hk : k.natAbs < 2 ^ 23) :
    (Binary.ofInt k : Single).StandsAt (k * unit) := by
  have hwhole : Format.binary32.HoldsWhole := by
    unfold Format.HoldsWhole
    decide
  rw [unit]
  exact standsAt_ofInt hwhole (Nat.le_of_lt (Nat.lt_of_lt_of_le hk (by decide)))

/-! ## One stroke -/

/-- The place of a point, in units.  The single precision values up to `2 ^ 23` pixels are half a
pixel apart at most. -/
structure PenPoint.IsAt (p : PenPoint) (x y : Int) : Prop where
  standsAt_x : p.x.StandsAt x
  standsAt_y : p.y.StandsAt y
  natAbs_x_le : x.natAbs ≤ 2 ^ 23 * unit
  natAbs_y_le : y.natAbs ≤ 2 ^ 23 * unit

/-- The place of a corner is a pixel away from the bounds. -/
structure PenPoint.IsCornerAt (p : PenPoint) (x y : Int) : Prop where
  standsAt_x : p.x.StandsAt x
  standsAt_y : p.y.StandsAt y
  natAbs_x_add_le : x.natAbs + unit ≤ 2 ^ 23 * unit
  natAbs_y_add_le : y.natAbs + unit ≤ 2 ^ 23 * unit

theorem PenPoint.IsCornerAt.isAt {p : PenPoint} {x y : Int} (h : p.IsCornerAt x y) :
    p.IsAt x y where
  standsAt_x := h.standsAt_x
  standsAt_y := h.standsAt_y
  natAbs_x_le := Nat.le_of_add_right_le h.natAbs_x_add_le
  natAbs_y_le := Nat.le_of_add_right_le h.natAbs_y_add_le

/-- A length that a pen comes to: whatever is left of it completes it. -/
structure IsReached (length : Single) (t : Nat) : Prop where
  standsAt : length.StandsAt t
  long : 13 * unit ≤ t
  short : t ≤ 2 ^ 20 * unit
  reached : ∀ c < t, t ≤ Format.nearestUnits .binary32 (c + Format.nearestUnits .binary32 (t - c) 1) 1

theorem IsReached.pos {length : Single} {t : Nat} (h : IsReached length t) : 0 < t :=
  Nat.lt_of_lt_of_le (Nat.mul_pos (by decide) (Format.one_pos _)) h.long

theorem IsReached.not_le_zero {length : Single} {t : Nat} (h : IsReached length t) :
    ¬length ≤ 0 := by
  rw [le_iff_of_rank h.standsAt.rank_eq standsAt_zero.rank_eq]
  exact Int.not_le.mpr (Int.natCast_pos.mpr h.pos)

/-- What is left of a whole number of pixels is rounded by half of its lowest bit at most. -/
theorem isReached_ofInt {k e : Nat} (hlong : 13 ≤ k) (he : e ≤ 20) (hk : k < 2 ^ e)
    (hround : k * unit ≤ Format.nearestUnits .binary32 (k * unit - 2 ^ (e + 124)) 1) :
    IsReached (.ofInt k) (k * unit) := by
  have hshort : k < 2 ^ 20 := Nat.lt_of_lt_of_le hk (Nat.pow_le_pow_right (by decide) he)
  refine ⟨?_, Nat.mul_le_mul_right unit hlong, Nat.mul_le_mul_right unit (Nat.le_of_lt hshort),
    fun c hc => Nat.le_trans hround (Format.nearestUnits_mono Nat.one_pos ?_)⟩
  · rw [Int.natCast_mul]
    exact standsAt_ofInt_of_lt (by omega)
  · have hwhole : k * unit < 2 ^ (Format.digits .binary32 + (e + 125)) := by
      have hmul := Nat.mul_lt_mul_of_pos_right hk (Format.one_pos .binary32)
      rw [show Format.one .binary32 = unit from rfl, two_pow_mul_unit] at hmul
      rwa [show Format.digits .binary32 + (e + 125) = e + 149 by
        simp only [Format.binary32]
        omega]
    have hnear := Format.natAbs_nearest_sub_le (f := .binary32) (a := (k * unit - c : Nat))
      (Nat.lt_of_le_of_lt (Nat.sub_le _ _) hwhole) (by simp only [Format.binary32]; omega)
    rw [Format.nearest_natCast, Nat.pow_succ] at hnear
    omega

/-- What is left of a length. -/
theorem exists_standsAt_left {length covered : Single} {t c : Nat} (hlength : length.StandsAt t)
    (hcovered : covered.StandsAt c) (h : c ≤ t) :
    ∃ l : Nat, (length - covered).StandsAt l ∧ l = Format.nearestUnits .binary32 (t - c) 1 ∧
      l ≤ t ∧ (c = 0 → l = t) := by
  have hrank := rank_sub hlength hcovered
  have hself := nearest_mul_of_rank hlength.rank_eq Nat.one_pos
  rw [Int.natCast_one, Int.mul_one, Format.nearest_natCast] at hself
  have hself := Int.ofNat.inj hself
  rw [← Int.natCast_sub h, Format.nearest_natCast] at hrank
  have hle := Format.nearestUnits_mono (f := .binary32) Nat.one_pos (Nat.sub_le t c)
  rw [hself] at hle
  have hlimit := hlength.fits.2
  rw [Int.natAbs_natCast] at hlimit
  refine ⟨_, standsAt_of_rank hrank ?_, rfl, hle, ?_⟩
  · rw [Int.natAbs_natCast]
    exact Nat.lt_of_le_of_lt hle hlimit
  · rintro rfl
    rw [Nat.sub_zero, hself]

/-- The way between two points is not much longer than the longer one of its legs. -/
theorem exists_standsAt_distance {p q : PenPoint} {a b : Int} (ha : (q.x - p.x).StandsAt a)
    (hb : (q.y - p.y).StandsAt b) (hlimit : max a.natAbs b.natAbs ≤ 2 ^ 25 * unit) :
    ∃ d : Nat, (p.distance q).StandsAt d ∧ d ≤ 4 * max a.natAbs b.natAbs + 2 := by
  rw [two_pow_mul_unit] at hlimit
  generalize hm : max a.natAbs b.natAbs = m at hlimit
  rcases Nat.eq_zero_or_pos m with hzero | hpos
  · obtain ⟨d, hd, hle⟩ := exists_standsAt_hypotenuse (e := 0) ha hb (by omega) (by omega)
      (by decide)
    exact ⟨d, hd, by omega⟩
  · have hlog : m < 2 ^ (m.log2 + 1) := Nat.lt_log2_self
    have hlow := Nat.log2_self_le (Nat.ne_of_gt hpos)
    have he : m.log2 < 175 :=
      (Nat.log2_lt (Nat.ne_of_gt hpos)).mpr
        (Nat.lt_of_le_of_lt hlimit (Nat.pow_lt_pow_right (by decide) (by decide)))
    obtain ⟨d, hd, hle⟩ := exists_standsAt_hypotenuse (e := m.log2 + 1) ha hb (by omega) (by omega)
      (by omega)
    refine ⟨d, hd, ?_⟩
    rw [Nat.pow_succ, Nat.pow_succ] at hle
    omega

/-- The share that a length has of a longer one. -/
theorem exists_standsAt_share {length way : Single} {l d : Nat} (hlength : length.StandsAt l)
    (hway : way.StandsAt d) (h : l < d) :
    ∃ s : Nat, (length / way).StandsAt s ∧ s ≤ unit ∧
      (8 * d ≤ l * unit → 15 * (l * unit) ≤ 16 * (s * d)) := by
  have hpos : 0 < d := Nat.lt_of_le_of_lt (Nat.zero_le l) h
  have hrank := rank_div hlength hway hpos
  have hwhole : l * unit ≤ 2 ^ 149 * d := by
    rw [show unit = 2 ^ 149 from rfl, Nat.mul_comm]
    exact Nat.mul_le_mul_left _ (Nat.le_of_lt h)
  rw [show Format.one .binary32 = unit from rfl, ← Int.natCast_mul, Format.nearest_natCast] at hrank
  have hle : Format.nearestUnits .binary32 (l * unit) d ≤ unit :=
    Format.nearestUnits_le_two_pow_of_le hpos hwhole
  refine ⟨_, standsAt_of_natAbs_le hrank (by omega), hle, fun hlarge => ?_⟩
  exact Format.le_nearestUnits (by decide) hpos hlarge hwhole (by decide)

/-- A share of a way is large enough if its length is. -/
theorem three_units_le {l d m s : Nat} (hl : 13 * unit ≤ l) (hm : m ≤ 2 ^ 25 * unit)
    (hd : d ≤ 4 * m + 2) (hs : s ≤ unit)
    (h : 8 * d ≤ l * unit → 15 * (l * unit) ≤ 16 * (s * d)) : 3 * unit * unit ≤ m * s := by
  have hunit : 2 ^ 31 ≤ unit := by decide
  have hsquare := Nat.mul_le_mul_right unit hunit
  have hlength := Nat.mul_le_mul_right unit hl
  have hway := Nat.mul_le_mul_left s hd
  rw [Nat.mul_add, Nat.mul_left_comm, Nat.mul_comm s m] at hway
  rw [Nat.mul_assoc] at hlength ⊢
  have hlarge := h (by omega)
  omega

/-- The sum of the distances along both axes. -/
def away (nx ny x y : Int) : Nat := (nx - x).natAbs + (ny - y).natAbs

/-- The legs of the way from a place to a corner. -/
theorem exists_standsAt_legs {p corner : PenPoint} {x y nx ny : Int} (hp : p.IsAt x y)
    (hcorner : corner.IsCornerAt nx ny) :
    ∃ a b, (corner.x - p.x).StandsAt a ∧ (corner.y - p.y).StandsAt b ∧
      2 * (a - (nx - x)).natAbs ≤ unit ∧ 2 * (b - (ny - y)).natAbs ≤ unit ∧
      max a.natAbs b.natAbs ≤ 2 ^ 25 * unit := by
  obtain ⟨a, ha, hanear, hale⟩ := exists_standsAt_leg hp.standsAt_x hcorner.standsAt_x
    hp.natAbs_x_le hcorner.natAbs_x_add_le
  obtain ⟨b, hb, hbnear, hble⟩ := exists_standsAt_leg hp.standsAt_y hcorner.standsAt_y
    hp.natAbs_y_le hcorner.natAbs_y_add_le
  exact ⟨a, b, ha, hb, hanear, hbnear, Nat.max_le.mpr ⟨hale, hble⟩⟩

/-- A stroke that does not go to its corner comes nearer to it by half a pixel, if it is a whole
dash or gap. -/
theorem exists_isAt_toward {p corner : PenPoint} {left : Single} {x y nx ny : Int} {l : Nat}
    (hp : p.IsAt x y) (hcorner : corner.IsCornerAt nx ny) (hleft : left.StandsAt l)
    (h : left < p.distance corner) :
    ∃ x' y', (p.toward corner (left / p.distance corner)).IsAt x' y' ∧
      away nx ny x' y' ≤ away nx ny x y + 2 * unit ∧
      (13 * unit ≤ l → 2 * away nx ny x' y' + unit ≤ 2 * away nx ny x y) := by
  obtain ⟨a, b, ha, hb, hanear, hbnear, hlegs⟩ := exists_standsAt_legs hp hcorner
  obtain ⟨d, hd, hdle⟩ := exists_standsAt_distance ha hb hlegs
  have hlt : l < d := Int.ofNat_lt.mp ((lt_iff_of_rank hleft.rank_eq hd.rank_eq).mp h)
  obtain ⟨s, hs, hsle, hslarge⟩ := exists_standsAt_share hleft hd hlt
  obtain ⟨x', hx', hx'le, hx'away, hx'large⟩ := exists_standsAt_toward hp.standsAt_x ha
    hanear hs (Int.natCast_nonneg s) (Int.ofNat_le.mpr hsle) hp.natAbs_x_le
    hcorner.natAbs_x_add_le
  obtain ⟨y', hy', hy'le, hy'away, hy'large⟩ := exists_standsAt_toward hp.standsAt_y hb
    hbnear hs (Int.natCast_nonneg s) (Int.ofNat_le.mpr hsle) hp.natAbs_y_le
    hcorner.natAbs_y_add_le
  rw [Int.natAbs_natCast] at hx'large hy'large
  refine ⟨x', y', ⟨hx', hy', hx'le, hy'le⟩, ?_, fun hlong => ?_⟩
  · have hboth := Nat.add_le_add hx'away hy'away
    rwa [Nat.add_add_add_comm, ← Nat.two_mul] at hboth
  · have hmany := three_units_le hlong hlegs hdle hsle hslarge
    unfold away
    -- the longer leg becomes shorter by more than the other one can become longer
    rcases Nat.le_total a.natAbs b.natAbs with hab | hba
    · rw [Nat.max_eq_right hab] at hmany
      have hcloser := hy'large hmany
      clear hlegs hdle hx'large hy'large
      omega
    · rw [Nat.max_eq_left hba] at hmany
      have hcloser := hx'large hmany
      clear hlegs hdle hx'large hy'large
      omega

/-! ## One step -/

namespace Pen

variable {pattern : DashPattern} {pen : Pen} {corner : PenPoint} {x y nx ny : Int} {c : Nat}

/-- A pen at a place, with a part of its dash or gap behind it. -/
structure IsAt (pattern : DashPattern) (pen : Pen) (x y : Int) (c : Nat) : Prop where
  point : pen.point.IsAt x y
  covered : pen.covered.StandsAt c
  unfinished : ∃ t, IsReached (pattern.length pen.down) t ∧ c < t

/-- A dash or a gap that has its length is followed by the other one. -/
theorem isAt_step_of_le (hpattern : ∀ dash, ∃ t, IsReached (pattern.length dash) t)
    (hpoint : (pen.stroke pattern corner).stop.IsAt x y)
    (h : pattern.length pen.down ≤ pen.covered + (pen.stroke pattern corner).length) :
    (pen.step pattern corner).IsAt pattern x y 0 := by
  obtain ⟨hstop, hcovered, hdown⟩ := step_of_complete rfl h
  obtain ⟨t, ht⟩ := hpattern (!pen.down)
  exact {
    point := hstop ▸ hpoint
    covered := hcovered ▸ standsAt_zero
    unfinished := ⟨t, hdown ▸ ht, ht.pos⟩ }

/-- A dash or a gap goes on if it does not have its length. -/
theorem isAt_step_of_not_le {t : Nat} (hlength : IsReached (pattern.length pen.down) t)
    (hpoint : (pen.stroke pattern corner).stop.IsAt x y)
    (hcovered : (pen.covered + (pen.stroke pattern corner).length).StandsAt c)
    (h : ¬pattern.length pen.down ≤ pen.covered + (pen.stroke pattern corner).length) :
    (pen.step pattern corner).IsAt pattern x y c := by
  have hlt : c < t := by
    rw [Binary.le_iff_of_rank hlength.standsAt.rank_eq hcovered.rank_eq] at h
    exact Int.ofNat_lt.mp (Int.not_le.mp h)
  generalize hs : pen.stroke pattern corner = s at hpoint hcovered h
  rw [step_of_open hs h]
  exact ⟨hpoint, hcovered, t, hlength, hlt⟩

/-- A step takes the pen to its corner, or to the end of its dash or gap, and that is nearer to
the corner unless a part of the dash or gap lay behind. -/
theorem step_cases (hpattern : ∀ dash, ∃ t, IsReached (pattern.length dash) t)
    (h : pen.IsAt pattern x y c) (hcorner : corner.IsCornerAt nx ny) :
    (∃ c', (pen.step pattern corner).IsAt pattern nx ny c') ∨
      ∃ x' y', (pen.step pattern corner).IsAt pattern x' y' 0 ∧
        away nx ny x' y' ≤ away nx ny x y + 2 * unit ∧
        (c = 0 → 2 * away nx ny x' y' + unit ≤ 2 * away nx ny x y) := by
  obtain ⟨t, ht, hct⟩ := h.unfinished
  obtain ⟨l, hl, hleft, hle, hwhole⟩ :=
    exists_standsAt_left ht.standsAt h.covered (Nat.le_of_lt hct)
  by_cases hlt : pattern.length pen.down - pen.covered < pen.point.distance corner
  · right
    obtain ⟨x', y', hplace, haway, hcloser⟩ := exists_isAt_toward h.point hcorner hl hlt
    have hreached := ht.reached c hct
    have hcomplete : pattern.length pen.down
        ≤ pen.covered + (pattern.length pen.down - pen.covered) := by
      rw [Binary.le_iff_of_rank ht.standsAt.rank_eq (rank_add h.covered hl), ← Int.natCast_add,
        Format.nearest_natCast, hleft]
      exact Int.ofNat_le.mpr hreached
    refine ⟨x', y', isAt_step_of_le hpattern ?_ ?_, haway, fun hzero => hcloser ?_⟩
    · rwa [stroke, if_pos hlt, Stroke.stop, Stroke.way, if_pos hlt]
    · rwa [stroke, if_pos hlt]
    · rw [hwhole hzero]
      exact ht.long
  · left
    obtain ⟨a, b, ha, hb, -, -, hlegs⟩ := exists_standsAt_legs h.point hcorner
    obtain ⟨d, hd, -⟩ := exists_standsAt_distance ha hb hlegs
    have hdle : d ≤ l := by
      rw [Binary.lt_iff_of_rank hl.rank_eq hd.rank_eq] at hlt
      exact Int.ofNat_le.mp (Int.not_lt.mp hlt)
    have hshort := ht.short
    obtain ⟨c', hc', -⟩ := exists_standsAt_add_nat (e := 21 + 149) h.covered hd
      (by rw [← two_pow_mul_unit]; omega) (by decide)
    have hstop : (pen.stroke pattern corner).stop.IsAt nx ny := by
      rw [stroke, if_neg hlt, Stroke.stop, Stroke.way, if_neg (Binary.lt_irrefl _)]
      exact hcorner.isAt
    have hcovered : (pen.covered + (pen.stroke pattern corner).length).StandsAt c' := by
      rwa [stroke, if_neg hlt]
    by_cases hcomplete : pattern.length pen.down ≤ pen.covered + (pen.stroke pattern corner).length
    · exact ⟨0, isAt_step_of_le hpattern hstop hcomplete⟩
    · exact ⟨c', isAt_step_of_not_le ht hstop hcovered hcomplete⟩

/-! ## Arrival -/

theorem same_iff_of_isAt {p q : PenPoint} (hp : p.IsAt x y) (hq : q.IsAt nx ny) :
    p.same q = true ↔ x = nx ∧ y = ny := by
  rw [PenPoint.same, Bool.and_eq_true, Binary.equals_iff_of_rank hp.standsAt_x.rank_eq
    hq.standsAt_x.rank_eq, Binary.equals_iff_of_rank hp.standsAt_y.rank_eq hq.standsAt_y.rank_eq]

theorem walk_of_same (h : pen.point.same corner = true) (fuel : Nat) :
    pen.walk pattern corner fuel = pen := by
  cases fuel with
  | zero => rfl
  | succ fuel => rw [walk, if_pos h]

/-- A pen that begins a dash or a gap takes no more than two moves for each pixel. -/
theorem exists_isAt_walk_of_zero (hpattern : ∀ dash, ∃ t, IsReached (pattern.length dash) t)
    (hcorner : corner.IsCornerAt nx ny) {fuel : Nat} (h : pen.IsAt pattern x y 0)
    (hfuel : 2 * away nx ny x y < fuel * unit) :
    ∃ c', (pen.walk pattern corner fuel).IsAt pattern nx ny c' := by
  induction fuel generalizing pen x y with
  | zero => omega
  | succ fuel ih =>
    rw [walk]
    split
    · rename_i hsame
      obtain ⟨rfl, rfl⟩ := (same_iff_of_isAt h.point hcorner.isAt).mp hsame
      exact ⟨0, h⟩
    · rcases step_cases hpattern h hcorner with ⟨c', hthere⟩ | ⟨x', y', hstep, -, hcloser⟩
      · rw [walk_of_same ((same_iff_of_isAt hthere.point hcorner.isAt).mpr ⟨rfl, rfl⟩)]
        exact ⟨c', hthere⟩
      · refine ih hstep ?_
        have hmeasure := hcloser rfl
        rw [Nat.add_one_mul fuel unit] at hfuel
        omega

/-- The first move can end a dash or a gap that has begun before. -/
theorem exists_isAt_walk (hpattern : ∀ dash, ∃ t, IsReached (pattern.length dash) t)
    (hcorner : corner.IsCornerAt nx ny) {fuel : Nat} (h : pen.IsAt pattern x y c)
    (hfuel : 2 * away nx ny x y + 4 * unit < fuel * unit) :
    ∃ c', (pen.walk pattern corner (fuel + 1)).IsAt pattern nx ny c' := by
  rw [walk]
  split
  · rename_i hsame
    obtain ⟨rfl, rfl⟩ := (same_iff_of_isAt h.point hcorner.isAt).mp hsame
    exact ⟨c, h⟩
  · rcases step_cases hpattern h hcorner with ⟨c', hthere⟩ | ⟨x', y', hstep, haway, -⟩
    · rw [walk_of_same ((same_iff_of_isAt hthere.point hcorner.isAt).mpr ⟨rfl, rfl⟩)]
      exact ⟨c', hthere⟩
    · exact exists_isAt_walk_of_zero hpattern hcorner hstep (by omega)

end Pen

/-! ## Pixels -/

/-- The pixel is near enough for single precision. -/
def IsNear (p : Pixel) : Prop := p.x.natAbs < 2 ^ 23 ∧ p.y.natAbs < 2 ^ 23

theorem natAbs_mul_unit_add_le {k : Int} (hk : k.natAbs < 2 ^ 23) :
    (k * unit).natAbs + unit ≤ 2 ^ 23 * unit := by
  rw [Int.natAbs_mul, Int.natAbs_natCast, ← Nat.succ_mul]
  exact Nat.mul_le_mul_right unit hk

theorem isCornerAt_ofPixel {p : Pixel} (h : IsNear p) :
    (PenPoint.ofPixel p).IsCornerAt (p.x * unit) (p.y * unit) where
  standsAt_x := by
    simp only [PenPoint.ofPixel]
    exact standsAt_ofInt_of_lt h.1
  standsAt_y := by
    simp only [PenPoint.ofPixel]
    exact standsAt_ofInt_of_lt h.2
  natAbs_x_add_le := natAbs_mul_unit_add_le h.1
  natAbs_y_add_le := natAbs_mul_unit_add_le h.2

theorem away_pixels (p q : Pixel) :
    away (q.x * unit) (q.y * unit) (p.x * unit) (p.y * unit)
      = ((q.x - p.x).natAbs + (q.y - p.y).natAbs) * unit := by
  rw [away, ← Int.sub_mul, ← Int.sub_mul, Int.natAbs_mul, Int.natAbs_mul, Int.natAbs_natCast,
    Nat.add_mul]

/-- A pen comes to all pixels that are near. -/
theorem Pen.arrives_of_isNear {pattern : DashPattern}
    (hpattern : ∀ dash, ∃ t, IsReached (pattern.length dash) t) {pen : Pen} {last : Pixel}
    {pixels : List Pixel} {c : Nat} (h : pen.IsAt pattern (last.x * unit) (last.y * unit) c)
    (hpixels : ∀ p ∈ pixels, IsNear p) : pen.arrives pattern last pixels = true := by
  induction pixels generalizing pen last c with
  | nil => rfl
  | cons p pixels ih =>
    have hcorner := isCornerAt_ofPixel (hpixels p List.mem_cons_self)
    have hunit : 0 < unit := Format.one_pos _
    have hfuel : 2 * away (p.x * unit) (p.y * unit) (last.x * unit) (last.y * unit) + 4 * unit
        < (8 * ((p.x - last.x).natAbs + (p.y - last.y).natAbs) + 15) * unit := by
      rw [away_pixels]
      generalize (p.x - last.x).natAbs + (p.y - last.y).natAbs = n
      rw [Nat.add_mul, Nat.mul_assoc]
      omega
    obtain ⟨c', hthere⟩ := exists_isAt_walk hpattern hcorner h hfuel
    rw [arrives, Bool.and_eq_true]
    exact ⟨(same_iff_of_isAt hthere.point hcorner.isAt).mpr ⟨rfl, rfl⟩,
      ih hthere fun q hq => hpixels q (List.mem_cons_of_mem _ hq)⟩

theorem dashesEnd_of_isNear {pattern : DashPattern}
    (hpattern : ∀ dash, ∃ t, IsReached (pattern.length dash) t) {pixels : List Pixel}
    (hpixels : ∀ p ∈ pixels, IsNear p) : dashesEnd pattern pixels = true := by
  cases pixels with
  | nil => rfl
  | cons first rest =>
    obtain ⟨t, ht⟩ := hpattern true
    have hcorner := isCornerAt_ofPixel (hpixels first List.mem_cons_self)
    have hstart : (Pen.lowered first).IsAt pattern (first.x * unit) (first.y * unit) 0 :=
      { point := hcorner.isAt, covered := standsAt_zero, unfinished := ⟨t, ht, ht.pos⟩ }
    exact Pen.arrives_of_isNear hpattern hstart fun p hp =>
      hpixels p (List.mem_cons_of_mem _ hp)

/-! ## Far away -/

/-- A dash and a gap on the way to a corner do not take a pen off its point. -/
def Stays (pattern : DashPattern) (p corner : PenPoint) : Prop :=
  ∀ dash,
    let left := pattern.length dash - 0
    left < p.distance corner ∧ p.toward corner (left / p.distance corner) = p
      ∧ pattern.length dash ≤ 0 + left

instance (pattern : DashPattern) (p corner : PenPoint) : Decidable (Stays pattern p corner) :=
  inferInstanceAs (Decidable (∀ _, _ ∧ _ ∧ _))

/-- The pen draws one dash after another and never comes to its corner. -/
theorem Pen.point_walk_of_stays {pattern : DashPattern} {p corner : PenPoint}
    (h : Stays pattern p corner) (fuel : Nat) {pen : Pen} (hpoint : pen.point = p)
    (hcovered : pen.covered = 0) : (pen.walk pattern corner fuel).point = p := by
  induction fuel generalizing pen with
  | zero => exact hpoint
  | succ fuel ih =>
    rw [walk]
    split
    · exact hpoint
    · obtain ⟨hlt, htoward, hcomplete⟩ := h pen.down
      have hstop : (pen.stroke pattern corner).stop = p := by
        rw [stroke, hpoint, hcovered, if_pos hlt, Stroke.stop, Stroke.way, if_pos hlt]
        exact htoward
      have hlength : pattern.length pen.down
          ≤ pen.covered + (pen.stroke pattern corner).length := by
        rwa [stroke, hpoint, hcovered, if_pos hlt]
      obtain ⟨hpoint, hcovered, -⟩ := step_of_complete rfl hlength
      exact ih (hpoint.trans hstop) hcovered

theorem dashesEnd_eq_false_of_stays {pattern : DashPattern} {first p : Pixel} {rest : List Pixel}
    (h : Stays pattern (.ofPixel first) (.ofPixel p))
    (haway : (PenPoint.ofPixel first).same (.ofPixel p) = false) :
    dashesEnd pattern (first :: p :: rest) = false := by
  have hstart : (Pen.lowered first).point = .ofPixel first := rfl
  have hpoint := Pen.point_walk_of_stays h (Pen.moves first p) hstart rfl
  rw [dashesEnd, Pen.arrives, hpoint, haway, Bool.false_and]

end BenchCharts.Plot
