import BenchCharts.Axis.Range
import BenchCharts.Proofs.Binary.Rank

/-!
# Ranges with finite bounds that are apart

A range is drawable if its bounds are finite and the second one is above the first
(`Range.Drawable`).  Without this no axis can be drawn over it; for the ticks the distance
of the bounds must be finite as well (`Range.FiniteSpan`).  `drawable_headroom_iff` and `drawable_padded_iff` say for
which series the ranges are of this kind.  An axis up from zero fails for a value that
overflows with its tenth.  A padded axis fails in two ways: the only value of a series
is the same number with one more and with one less (`KeepsOne`), or the margins on both
sides of two values overflow (`MarginsFit`).

The margins grow with the spread (`MarginsFit.mono`), so the extremes of a series decide
for all of its values.
-/

namespace BenchCharts.Axis

open Binary Format

/-- Both bounds are finite, and the second one is above the first. -/
structure Range.Drawable (r : Range) : Prop where
  start_finite : r.start.isFinite = true
  stop_finite : r.stop.isFinite = true
  start_lt_stop : r.start < r.stop

theorem Range.drawable_iff (r : Range) :
    r.Drawable ↔ r.start.isFinite = true ∧ r.stop.isFinite = true ∧ r.start < r.stop :=
  ⟨fun h => ⟨h.1, h.2, h.3⟩, fun h => ⟨h.1, h.2.1, h.2.2⟩⟩

instance (r : Range) : Decidable r.Drawable :=
  decidable_of_iff _ r.drawable_iff.symm

/-- All values of a series that count are equal to `v`. -/
structure Flat (values : List Double) (v : Double) : Prop where
  mem : v ∈ values
  isNaN_eq_false : v.isNaN = false
  equals : ∀ w ∈ values, w.isNaN = false → w.equals v = true

/-- A value that is not the same with one more and with one less: it is at most
`2 ^ 53`, or it is no multiple of four. -/
def KeepsOne : Double → Prop
  | .finite _ magnitude _ =>
      magnitude ≤ 2 ^ binary64.digits * binary64.one ∨ ¬4 * binary64.one ∣ magnitude
  | _ => False

/-- A twentieth of the spread between two values does not overflow when it is put on
both sides. -/
def MarginsFit (low high : Double) : Prop :=
  (low - (high - low) * 0.05).isFinite = true ∧ (high + (high - low) * 0.05).isFinite = true

/-- What a series needs so that an axis can be drawn over its padded range. -/
structure Paddable (values : List Double) : Prop where
  keepsOne : ∀ v, Flat values v → KeepsOne v
  marginsFit : ∀ low ∈ values, ∀ high ∈ values, low < high → MarginsFit low high

/-! ## Literals -/

theorem standsAt_one : (1 : Double).StandsAt binary64.one :=
  ⟨by decide +kernel, by decide +kernel⟩

/-- The factor of an axis up from zero. -/
theorem exists_standsAt_headroom : ∃ n : Nat, (1.1 : Double).StandsAt n ∧ binary64.one ≤ n := by
  obtain ⟨a, ha⟩ := exists_standsAt (show (1.1 : Double).isFinite = true by decide +kernel)
  have hlt : (1 : Double) < 1.1 := by decide +kernel
  rw [lt_iff_of_rank standsAt_one.rank_eq ha.rank_eq] at hlt
  obtain ⟨n, rfl⟩ := Int.eq_ofNat_of_zero_le (show 0 ≤ a by omega)
  exact ⟨n, ha, by omega⟩

/-- The share of the spread that a margin has. -/
theorem exists_standsAt_share : ∃ n : Nat, (0.05 : Double).StandsAt n ∧ n ≤ binary64.one := by
  obtain ⟨a, ha⟩ := exists_standsAt (show (0.05 : Double).isFinite = true by decide +kernel)
  have hpos : (0 : Double) < 0.05 := by decide +kernel
  have hlt : (0.05 : Double) < 1 := by decide +kernel
  rw [lt_iff_of_rank standsAt_zero.rank_eq ha.rank_eq] at hpos
  rw [lt_iff_of_rank ha.rank_eq standsAt_one.rank_eq] at hlt
  obtain ⟨n, rfl⟩ := Int.eq_ofNat_of_zero_le (Int.le_of_lt hpos)
  exact ⟨n, ha, by omega⟩

/-! ## Ranges in ranks -/

theorem drawable_iff_of_rank {x y : Double} {a b : Int} (ha : x.rank = some a)
    (hb : y.rank = some b) :
    (Range.mk x y).Drawable ↔ a.natAbs < 2 ^ binary64.limit ∧
      b.natAbs < 2 ^ binary64.limit ∧ a < b := by
  rw [← isFinite_iff_of_rank ha, ← isFinite_iff_of_rank hb, ← lt_iff_of_rank ha hb]
  exact Range.drawable_iff _

/-! ## Headroom -/

/-- No value of a series overflows with its tenth if the largest one does not. -/
theorem forall_mul_ne_infinite_iff {values : List Double} {top c : Double} {r : Int} {n : Nat}
    (htop : IsBest (· ≤ ·) 0 values top r) (hc : c.StandsAt n) (hn : binary64.one ≤ n) :
    (∀ v ∈ values, v * c ≠ .infinite false)
      ↔ binary64.nearest (r * n) binary64.one < (2 ^ binary64.limit : Nat) := by
  constructor
  · intro h
    rcases htop.eq_or_mem with hzero | hmem
    · have hr := htop.rank_eq
      rw [hzero, standsAt_zero.rank_eq] at hr
      rw [← Option.some.inj hr, Int.zero_mul, nearest_zero]
      exact Int.natCast_pos.mpr (Nat.two_pow_pos _)
    · exact (mul_ne_infinite_iff hc hn).mp (h top hmem) r htop.rank_eq
  · intro h v hv
    apply (mul_ne_infinite_iff hc hn).mpr
    intro a ha
    refine Int.lt_of_le_of_lt (nearest_mono binary64.one_pos ?_) h
    exact Int.mul_le_mul_of_nonneg_right (htop.le_of_mem v hv a ha) (Int.natCast_nonneg n)

/-- An axis up from zero can be drawn if and only if no value overflows together with a
tenth of it. -/
theorem drawable_headroom_iff (values : List Double) :
    (Range.mk 0 (headroom values)).Drawable ↔ ∀ v ∈ values, v * 1.1 ≠ .infinite false := by
  obtain ⟨n, hn, hone⟩ := exists_standsAt_headroom
  obtain ⟨r, htop⟩ := exists_isBest_foldl (· ≤ ·) Int.le_refl Int.le_trans isBest_maximum
    values (0 : Double) 0 standsAt_zero.rank_eq
  have hnonneg : 0 ≤ r := htop.le_first 0 standsAt_zero.rank_eq
  rw [forall_mul_ne_infinite_iff htop hn hone]
  unfold headroom
  simp only
  split
  · rename_i hpos
    rw [lt_iff_of_rank standsAt_zero.rank_eq htop.rank_eq] at hpos
    have hproduct := rank_mul_of_one_le htop.rank_eq hn hone
    have hlimit := natAbs_rank_le hproduct
    have hup : r ≤ binary64.nearest (r * n) binary64.one :=
      le_nearest_of_rank htop.rank_eq binary64.one_pos
        (Int.mul_le_mul_of_nonneg_left (Int.ofNat_le.mpr hone) hnonneg)
    have hcapacity := Nat.two_pow_pos binary64.limit
    rw [drawable_iff_of_rank standsAt_zero.rank_eq hproduct]
    omega
  · rename_i hzero
    rw [lt_iff_of_rank standsAt_zero.rank_eq htop.rank_eq] at hzero
    have hr : r = 0 := by omega
    rw [drawable_iff_of_rank standsAt_zero.rank_eq standsAt_one.rank_eq, hr, Int.zero_mul, nearest_zero]
    decide +kernel

/-! ## Flat series -/

theorem keepsOne_iff_of_rank {v : Double} {a : Int} (h : v.rank = some a) :
    KeepsOne v ↔ a.natAbs < 2 ^ binary64.limit ∧
      (a.natAbs ≤ 2 ^ binary64.digits * binary64.one ∨ ¬4 * binary64.one ∣ a.natAbs) := by
  cases v with
  | nan => cases h
  | infinite negative =>
    rw [← Option.some.inj h, natAbs_signed]
    exact ⟨nofun, fun hlt => absurd hlt.1 (Nat.lt_irrefl _)⟩
  | finite negative m fits =>
    rw [← Option.some.inj h, natAbs_signed]
    exact ⟨fun hkeeps => ⟨fits.2, hkeeps⟩, And.right⟩

/-- Around a single value there is a range to draw over if and only if the value keeps
one. -/
theorem drawable_flat_iff {low high v : Double} {a : Int} (hlow : low.rank = some a)
    (hhigh : high.rank = some a) (hv : v.rank = some a) :
    (Range.mk (low - 1) (high + 1)).Drawable ↔ KeepsOne v := by
  rw [keepsOne_iff_of_rank hv, ← isFinite_iff_of_rank hlow]
  cases hfinite : low.isFinite with
  | false =>
    constructor
    · intro hdrawable
      have hterms := isFinite_of_isFinite_sub hdrawable.start_finite
      rw [hfinite] at hterms
      cases hterms.1
    · exact nofun
  | true =>
    have hfits := (StandsAt.mk hlow hfinite).fits
    have hstart := rank_sub (standsAt_of_rank hlow hfits.2) standsAt_one
    have hstop := rank_add (standsAt_of_rank hhigh hfits.2) standsAt_one
    rw [drawable_iff_of_rank hstart hstop, nearest_sub_lt_add_iff hfits]
    constructor
    · exact fun h => ⟨rfl, h.2.2⟩
    · intro h
      have hbound := natAbs_nearest_lt_of_keeps hfits h.2 (by decide)
      exact ⟨hbound _ (by omega), hbound _ (by omega), h.2⟩

/-! ## Series with a spread -/

/-- The units of the margin of a spread, where `n` units are the share of one. -/
def marginUnits (n spread : Nat) : Nat :=
  binary64.nearestUnits (binary64.nearestUnits spread 1 * n) binary64.one

theorem marginUnits_mono {n w w' : Nat} (h : w ≤ w') : marginUnits n w ≤ marginUnits n w' := by
  apply nearestUnits_mono binary64.one_pos
  exact Nat.mul_le_mul_right n (nearestUnits_mono Nat.one_pos h)

/-- A margin is not wider than the spread. -/
theorem marginUnits_le {n : Nat} (h : n ≤ binary64.one) (w : Nat) :
    marginUnits n w ≤ binary64.nearestUnits w 1 := by
  have hmono := binary64.nearestUnits_mono binary64.one_pos
    (Nat.mul_le_mul_left (binary64.nearestUnits w 1) h)
  rwa [nearestUnits_mul binary64.one_pos
    (excess_nearestUnits_dvd w 1) (nearestUnits_le w 1)] at hmono

/-- Margins that fit are those of a finite spread. -/
theorem MarginsFit.isFinite {low high : Double} (h : MarginsFit low high) :
    low.isFinite = true ∧ high.isFinite = true ∧ (high - low).isFinite = true :=
  ⟨(isFinite_of_isFinite_sub h.1).1, (isFinite_of_isFinite_add h.2).1,
    (isFinite_of_isFinite_mul (isFinite_of_isFinite_sub h.1).2).1⟩

section

variable {n : Nat} (hn : (0.05 : Double).StandsAt n) (hone : n ≤ binary64.one)
  {low high : Double} {a b : Int} (hlow : low.StandsAt a) (hhigh : high.StandsAt b) (hab : a ≤ b)

include hn hone hlow hhigh hab

/-- The spread, and the bounds of a range with margins if the spread is finite. -/
theorem rank_margins :
    (high - low).rank = some (binary64.nearestUnits (b - a).toNat 1 : Int) ∧
      ((high - low).isFinite = true →
        (low - (high - low) * 0.05).rank
          = some (binary64.nearest (a - marginUnits n (b - a).toNat) 1) ∧
        (high + (high - low) * 0.05).rank
          = some (binary64.nearest (b + marginUnits n (b - a).toNat) 1)) := by
  obtain ⟨w, hw⟩ := Int.eq_ofNat_of_zero_le (show 0 ≤ b - a by omega)
  have hspread := rank_sub hhigh hlow
  rw [hw, nearest_natCast] at hspread
  rw [hw, Int.toNat_natCast]
  refine ⟨hspread, ?_⟩
  intro hspreadf
  generalize (0.05 : Double) = share at *
  have hpad := rank_mul ⟨hspread, hspreadf⟩ hn
  rw [← Int.natCast_mul, nearest_natCast] at hpad
  have hfits : (marginUnits n w : Int).natAbs < 2 ^ binary64.limit :=
    Nat.lt_of_le_of_lt (marginUnits_le hone w) ((isFinite_iff_of_rank hspread).mp hspreadf)
  have hpadAt := standsAt_of_rank hpad hfits
  exact ⟨rank_sub hlow hpadAt, rank_add hhigh hpadAt⟩

/-- What overflows when there are margins: the spread, the lower bound or the upper one. -/
theorem marginsFit_iff_of_standsAt :
    MarginsFit low high ↔
      binary64.nearestUnits (b - a).toNat 1 < 2 ^ binary64.limit ∧
      (binary64.nearest (a - marginUnits n (b - a).toNat) 1).natAbs < 2 ^ binary64.limit ∧
      (binary64.nearest (b + marginUnits n (b - a).toNat) 1).natAbs < 2 ^ binary64.limit := by
  obtain ⟨hspread, hbounds⟩ := rank_margins hn hone hlow hhigh hab
  have hfinite := isFinite_iff_of_rank hspread
  rw [Int.natAbs_natCast] at hfinite
  rw [← hfinite]
  constructor
  · intro hfit
    have hspreadf := hfit.isFinite.2.2
    obtain ⟨hstart, hstop⟩ := hbounds hspreadf
    exact ⟨hspreadf, (isFinite_iff_of_rank hstart).mp hfit.1,
      (isFinite_iff_of_rank hstop).mp hfit.2⟩
  · intro h
    obtain ⟨hstart, hstop⟩ := hbounds h.1
    exact ⟨(isFinite_iff_of_rank hstart).mpr h.2.1, (isFinite_iff_of_rank hstop).mpr h.2.2⟩

end

section

variable {low high : Double} {a b : Int} (hlow : low.rank = some a) (hhigh : high.rank = some b)

include hlow hhigh

/-- If the margins of an interval fit, so do those of an interval inside it. -/
theorem MarginsFit.mono {low' high' : Double} {a' b' : Int} (hfit : MarginsFit low high)
    (hlow' : low'.rank = some a') (hhigh' : high'.rank = some b') (ha : a ≤ a') (hab : a' ≤ b')
    (hb : b' ≤ b) : MarginsFit low' high' := by
  obtain ⟨n, hn, hone⟩ := exists_standsAt_share
  obtain ⟨hlowf, hhighf, _⟩ := hfit.isFinite
  have hlowlimit := (isFinite_iff_of_rank hlow).mp hlowf
  have hhighlimit := (isFinite_iff_of_rank hhigh).mp hhighf
  rw [marginsFit_iff_of_standsAt hn hone ⟨hlow, hlowf⟩ ⟨hhigh, hhighf⟩ (by omega)] at hfit
  rw [marginsFit_iff_of_standsAt hn hone (standsAt_of_rank hlow' (by omega))
    (standsAt_of_rank hhigh' (by omega)) hab]
  have hspread : (b' - a').toNat ≤ (b - a).toNat := by omega
  have hunits := binary64.nearestUnits_mono Nat.one_pos hspread
  have hmargin := marginUnits_mono (n := n) hspread
  have hstart := binary64.nearest_mono Nat.one_pos
    (show a - marginUnits n (b - a).toNat ≤ a' - marginUnits n (b' - a').toNat by omega)
  have hmiddle := binary64.nearest_mono Nat.one_pos
    (show a' - marginUnits n (b' - a').toNat ≤ b' + marginUnits n (b' - a').toNat by omega)
  have hstop := binary64.nearest_mono Nat.one_pos
    (show b' + marginUnits n (b' - a').toNat ≤ b + marginUnits n (b - a).toNat by omega)
  omega

/-- Margins of values that are far from the limit fit. -/
theorem marginsFit_of_natAbs_le (hab : a ≤ b) {e : Nat} (he : e + 2 < binary64.limit)
    (ha : a.natAbs ≤ 2 ^ e) (hb : b.natAbs ≤ 2 ^ e) : MarginsFit low high := by
  obtain ⟨n, hn, hone⟩ := exists_standsAt_share
  have hlimit : 2 ^ (e + 2) < 2 ^ binary64.limit := Nat.pow_lt_pow_right (by decide) he
  have hdouble : 2 ^ (e + 1) = 2 * 2 ^ e := Nat.pow_succ'
  have hfour : 2 ^ (e + 2) = 2 * 2 ^ (e + 1) := Nat.pow_succ'
  have hspread : binary64.nearestUnits (b - a).toNat 1 ≤ 2 ^ (e + 1) :=
    nearestUnits_le_two_pow (by omega)
  have hmargin := Nat.le_trans (marginUnits_le hone (b - a).toNat) hspread
  rw [marginsFit_iff_of_standsAt hn hone (standsAt_of_rank hlow (by omega))
    (standsAt_of_rank hhigh (by omega)) hab, natAbs_nearest, natAbs_nearest]
  have hstart : binary64.nearestUnits (a - marginUnits n (b - a).toNat).natAbs 1 ≤ 2 ^ (e + 2) :=
    nearestUnits_le_two_pow (by omega)
  have hstop : binary64.nearestUnits (b + marginUnits n (b - a).toNat).natAbs 1 ≤ 2 ^ (e + 2) :=
    nearestUnits_le_two_pow (by omega)
  omega

/-- With margins that fit, a range is never empty. -/
theorem drawable_spread_iff (hab : a < b) :
    (Range.mk (low - (high - low) * 0.05) (high + (high - low) * 0.05)).Drawable
      ↔ MarginsFit low high := by
  constructor
  · exact fun h => ⟨h.start_finite, h.stop_finite⟩
  · intro hfit
    obtain ⟨n, hn, hone⟩ := exists_standsAt_share
    obtain ⟨hlowf, hhighf, hspreadf⟩ := hfit.isFinite
    obtain ⟨hstart, hstop⟩ := (rank_margins hn hone ⟨hlow, hlowf⟩ ⟨hhigh, hhighf⟩
      (Int.le_of_lt hab)).2 hspreadf
    have hbelow := binary64.nearest_mono Nat.one_pos
      (show a - marginUnits n (b - a).toNat ≤ a * (1 : Nat) by omega)
    have habove := binary64.nearest_mono Nat.one_pos
      (show b * (1 : Nat) ≤ b + marginUnits n (b - a).toNat by omega)
    rw [nearest_mul_of_rank hlow Nat.one_pos] at hbelow
    rw [nearest_mul_of_rank hhigh Nat.one_pos] at habove
    refine ⟨hfit.1, hfit.2, (lt_iff_of_rank hstart hstop).mpr ?_⟩
    omega

end

/-! ## Padded ranges -/

theorem exists_isBest_extremes (values : List Double) : ∃ lo hi,
    IsBest (· ≥ ·) (.infinite false) values (extremes values).1 lo ∧
      IsBest (· ≤ ·) (.infinite true) values (extremes values).2 hi := by
  obtain ⟨lo, hlo⟩ := exists_isBest_foldl (· ≥ ·) Int.le_refl
    (fun h h' => Int.le_trans h' h) isBest_minimum values (.infinite false) _ rfl
  obtain ⟨hi, hhi⟩ := exists_isBest_foldl (· ≤ ·) Int.le_refl Int.le_trans isBest_maximum
    values (.infinite true) _ rfl
  exact ⟨lo, hi, hlo, hhi⟩

theorem Flat.exists_rank {values : List Double} {v : Double} (h : Flat values v) :
    ∃ a, v.rank = some a ∧ ∀ w ∈ values, ∀ b, w.rank = some b → b = a := by
  obtain ⟨a, ha⟩ := isNaN_eq_false_iff.mp h.isNaN_eq_false
  refine ⟨a, ha, ?_⟩
  intro w hw b hb
  exact (equals_iff_of_rank hb ha).mp (h.equals w hw (isNaN_eq_false_iff.mpr ⟨b, hb⟩))

section

variable {values : List Double} {low high : Double} {lo hi : Int}
  (hlow : IsBest (· ≥ ·) (.infinite false) values low lo)
  (hhigh : IsBest (· ≤ ·) (.infinite true) values high hi)

include hlow in
theorem mem_or_of_isBest_low : low ∈ values ∨ lo = (2 ^ binary64.limit : Nat) := by
  rcases hlow.eq_or_mem with h | h
  · exact .inr ((eq_infinite_iff_of_rank hlow.rank_eq false).mp h)
  · exact .inl h

include hhigh in
theorem mem_or_of_isBest_high : high ∈ values ∨ hi = -(2 ^ binary64.limit : Nat) := by
  rcases hhigh.eq_or_mem with h | h
  · exact .inr ((eq_infinite_iff_of_rank hhigh.rank_eq true).mp h)
  · exact .inl h

include hlow hhigh

theorem rank_between {v : Double} (hv : v ∈ values) {a : Int} (ha : v.rank = some a) :
    lo ≤ a ∧ a ≤ hi :=
  ⟨hlow.le_of_mem v hv a ha, hhigh.le_of_mem v hv a ha⟩

/-- The extremes cross if no value counts. -/
theorem paddable_of_empty (h : hi < lo) : Paddable values := by
  have hnone : ∀ v ∈ values, ∀ a, v.rank = some a → False := by
    intro v hv a ha
    have hbetween := rank_between hlow hhigh hv ha
    omega
  constructor
  · intro v hflat
    obtain ⟨a, ha, _⟩ := hflat.exists_rank
    exact (hnone v hflat.mem a ha).elim
  · intro x hx y _ hlt
    obtain ⟨a, _, ha, _⟩ := lt_iff.mp hlt
    exact (hnone x hx a ha).elim

/-- The extremes meet if all values that count are equal. -/
theorem drawable_iff_paddable_of_eq (h : lo = hi) :
    (Range.mk (low - 1) (high + 1)).Drawable ↔ Paddable values := by
  subst h
  have hsame : ∀ v ∈ values, ∀ a, v.rank = some a → a = lo := by
    intro v hv a ha
    have hbetween := rank_between hlow hhigh hv ha
    omega
  have hpos := Nat.two_pow_pos binary64.limit
  have hvalue : ∃ v ∈ values, v.rank = some lo := by
    rcases mem_or_of_isBest_low hlow with hmem | hlimit
    · exact ⟨low, hmem, hlow.rank_eq⟩
    · rcases mem_or_of_isBest_high hhigh with hmem | hlimit'
      · exact ⟨high, hmem, hhigh.rank_eq⟩
      · omega
  obtain ⟨v, hv, hrank⟩ := hvalue
  rw [drawable_flat_iff hlow.rank_eq hhigh.rank_eq hrank]
  constructor
  · intro hkeeps
    constructor
    · intro w hflat
      obtain ⟨a, ha, _⟩ := hflat.exists_rank
      rw [hsame w hflat.mem a ha] at ha
      rw [keepsOne_iff_of_rank ha]
      exact (keepsOne_iff_of_rank hrank).mp hkeeps
    · intro x hx y hy hlt
      obtain ⟨a, b, ha, hb, hab⟩ := lt_iff.mp hlt
      have hxlo := hsame x hx a ha
      have hylo := hsame y hy b hb
      omega
  · intro hpaddable
    apply hpaddable.keepsOne v
    refine ⟨hv, isNaN_eq_false_iff.mpr ⟨lo, hrank⟩, ?_⟩
    intro w hw hcounts
    obtain ⟨b, hb⟩ := isNaN_eq_false_iff.mp hcounts
    exact (equals_iff_of_rank hb hrank).mpr (hsame w hw b hb)

/-- Otherwise the margins of the extremes are the widest. -/
theorem marginsFit_iff_paddable (h : lo < hi) : MarginsFit low high ↔ Paddable values := by
  have hlimit := natAbs_rank_le hlow.rank_eq
  have hlimit' := natAbs_rank_le hhigh.rank_eq
  have hlowmem : low ∈ values := by
    rcases mem_or_of_isBest_low hlow with hmem | hlo
    · exact hmem
    · omega
  have hhighmem : high ∈ values := by
    rcases mem_or_of_isBest_high hhigh with hmem | hhi
    · exact hmem
    · omega
  constructor
  · intro hfit
    constructor
    · intro v hflat
      obtain ⟨a, _, hsame⟩ := hflat.exists_rank
      have hlo := hsame low hlowmem lo hlow.rank_eq
      have hhi := hsame high hhighmem hi hhigh.rank_eq
      omega
    · intro x hx y hy hlt
      obtain ⟨a, b, ha, hb, hab⟩ := lt_iff.mp hlt
      exact MarginsFit.mono hlow.rank_eq hhigh.rank_eq hfit ha hb (rank_between hlow hhigh hx ha).1
        (Int.le_of_lt hab) (rank_between hlow hhigh hy hb).2
  · intro hpaddable
    exact hpaddable.marginsFit low hlowmem high hhighmem
      ((lt_iff_of_rank hlow.rank_eq hhigh.rank_eq).mpr h)

end

/-- A padded range can be drawn over if and only if the value of a flat series keeps one
and the margins of any two values fit. -/
theorem drawable_padded_iff (values : List Double) :
    (padded values).Drawable ↔ Paddable values := by
  obtain ⟨lo, hi, hlow, hhigh⟩ := exists_isBest_extremes values
  unfold padded
  generalize extremes values = bounds at *
  obtain ⟨low, high⟩ := bounds
  simp only at hlow hhigh ⊢
  simp only [lt_iff_of_rank hhigh.rank_eq hlow.rank_eq,
    equals_iff_of_rank hlow.rank_eq hhigh.rank_eq]
  rcases Int.lt_trichotomy hi lo with hlt | heq | hgt
  · rw [if_pos hlt, drawable_iff_of_rank standsAt_zero.rank_eq standsAt_one.rank_eq]
    exact iff_of_true (by decide +kernel) (paddable_of_empty hlow hhigh hlt)
  · rw [if_neg (by omega), if_pos heq.symm]
    exact drawable_iff_paddable_of_eq hlow hhigh heq.symm
  · rw [if_neg (by omega), if_neg (by omega), drawable_spread_iff hlow.rank_eq hhigh.rank_eq hgt]
    exact marginsFit_iff_paddable hlow hhigh hgt

end BenchCharts.Axis
