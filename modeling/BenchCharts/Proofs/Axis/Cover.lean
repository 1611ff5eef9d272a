import BenchCharts.Proofs.Axis.Drawable

/-!
# Axes cover what is drawn on them

Rounding keeps every bound that is itself a value (`nearest_le_of_rank`,
`le_nearest_of_rank`), so
an axis that covers its values in exact arithmetic covers them in the arithmetic of doubles
too: a tenth more is not less (`rank_headroom`), and a margin moves a bound outwards
(`covers_padded`), also where it overflows.

On an axis of categories the bounds are the borders of the slots.  They are whole numbers
of halves, so up to `2 ^ 52` categories none of them is rounded, and what stands half a slot
or less from its category stays in the slot of that category (`inSlot_add`, `inSlot_sub`).
-/

namespace BenchCharts.Axis

open Binary Format

/-- The value lies on the axis. -/
structure Range.Covers (r : Range) (v : Double) : Prop where
  start_le : r.start ≤ v
  le_stop : v ≤ r.stop

theorem covers_mk_iff {x y v : Double} : (Range.mk x y).Covers v ↔ x ≤ v ∧ v ≤ y :=
  ⟨fun h => ⟨h.1, h.2⟩, fun h => ⟨h.1, h.2⟩⟩

theorem covers_of_rank {x y v : Double} {a b c : Int} (hx : x.rank = some a)
    (hv : v.rank = some b) (hy : y.rank = some c) (hab : a ≤ b) (hbc : b ≤ c) :
    (Range.mk x y).Covers v :=
  ⟨(le_iff_of_rank hx hv).mpr hab, (le_iff_of_rank hv hy).mpr hbc⟩

/-! ## Headroom -/

/-- The end of an axis up from zero is above zero and not below any value. -/
theorem rank_headroom (values : List Double) : ∃ top : Int, (headroom values).rank = some top ∧
    0 < top ∧ ∀ v ∈ values, ∀ a, v.rank = some a → a ≤ top := by
  obtain ⟨n, hn, hone⟩ := exists_standsAt_headroom
  obtain ⟨r, htop⟩ := exists_isBest_foldl (· ≤ ·) Int.le_refl Int.le_trans isBest_maximum
    values (0 : Double) 0 standsAt_zero.rank_eq
  unfold headroom
  simp only [lt_iff_of_rank standsAt_zero.rank_eq htop.rank_eq]
  split
  · rename_i hpos
    have hup : r ≤ binary64.nearest (r * n) binary64.one :=
      le_nearest_of_rank htop.rank_eq binary64.one_pos
        (Int.mul_le_mul_of_nonneg_left (Int.ofNat_le.mpr hone) (Int.le_of_lt hpos))
    refine ⟨_, rank_mul_of_one_le htop.rank_eq hn hone, by omega, fun v hv a ha => ?_⟩
    exact Int.le_trans (htop.le_of_mem v hv a ha) hup
  · rename_i hzero
    have hpos := binary64.one_pos
    refine ⟨_, standsAt_one.rank_eq, by omega, fun v hv a ha => ?_⟩
    have hle := htop.le_of_mem v hv a ha
    omega

theorem headroom_pos (values : List Double) : 0 < headroom values := by
  obtain ⟨top, htop, hpos, _⟩ := rank_headroom values
  exact (lt_iff_of_rank standsAt_zero.rank_eq htop).mpr hpos

theorem le_headroom {values : List Double} {v : Double} (hv : v ∈ values)
    (hnan : v.isNaN = false) : v ≤ headroom values := by
  obtain ⟨top, htop, _, hle⟩ := rank_headroom values
  obtain ⟨a, ha⟩ := isNaN_eq_false_iff.mp hnan
  exact (le_iff_of_rank ha htop).mpr (hle v hv a ha)

/-! ## Padded ranges -/

/-- A margin that overflows goes to the infinities. -/
theorem margins_of_infinite {low high : Double} (hlow : low.isFinite = true)
    (hhigh : high.isFinite = true) (hspread : high - low = .infinite false) :
    low - (high - low) * 0.05 = .infinite true ∧ high + (high - low) * 0.05 = .infinite false := by
  have hpad : (.infinite false : Double) * 0.05 = .infinite false := by decide +kernel
  rw [hspread, hpad]
  cases low with
  | nan | infinite => cases hlow
  | finite =>
    cases high with
    | nan | infinite => cases hhigh
    | finite => exact ⟨rfl, rfl⟩

/-- Margins on both sides of two values do not move the bounds inwards. -/
theorem rank_spread {low high : Double} {lo hi : Int} (hlow : low.StandsAt lo)
    (hhigh : high.StandsAt hi) (h : lo < hi) :
    ∃ start stop, (low - (high - low) * 0.05).rank = some start ∧
      (high + (high - low) * 0.05).rank = some stop ∧ start ≤ lo ∧ hi ≤ stop := by
  obtain ⟨n, hn, hone⟩ := exists_standsAt_share
  obtain ⟨hspread, hbounds⟩ := rank_margins hn hone hlow hhigh (Int.le_of_lt h)
  cases hfinite : (high - low).isFinite with
  | true =>
    obtain ⟨hstart, hstop⟩ := hbounds hfinite
    refine ⟨_, _, hstart, hstop, ?_, ?_⟩
    · exact nearest_le_of_rank hlow.rank_eq Nat.one_pos (by omega)
    · exact le_nearest_of_rank hhigh.rank_eq Nat.one_pos (by omega)
  | false =>
    have hlowle := natAbs_rank_le hlow.rank_eq
    have hhighle := natAbs_rank_le hhigh.rank_eq
    have hlimit : binary64.nearestUnits (hi - lo).toNat 1 = 2 ^ binary64.limit := by
      have hle := binary64.nearestUnits_le (hi - lo).toNat 1
      have hnot := (not_congr (isFinite_iff_of_rank hspread)).mp (by rw [hfinite]; decide)
      omega
    rw [hlimit] at hspread
    obtain ⟨hstart, hstop⟩ := margins_of_infinite hlow.isFinite hhigh.isFinite
      ((eq_infinite_iff_of_rank hspread false).mpr rfl)
    rw [hstart, hstop]
    refine ⟨_, _, rfl, rfl, ?_, ?_⟩
    · rw [signed_true]
      omega
    · rw [signed_false]
      omega

section

variable {values : List Double} (hfinite : ∀ v ∈ values, v.isFinite = true)
  {low high : Double} {lo hi : Int} (hlow : IsBest (· ≥ ·) (.infinite false) values low lo)
  (hhigh : IsBest (· ≤ ·) (.infinite true) values high hi) (h : lo ≤ hi)

include hfinite hlow hhigh h

/-- If any value counts, both extremes of finite values are finite. -/
theorem standsAt_extremes : low.StandsAt lo ∧ high.StandsAt hi := by
  have hpos := Nat.two_pow_pos binary64.limit
  have hlowle := natAbs_rank_le hlow.rank_eq
  have hhighle := natAbs_rank_le hhigh.rank_eq
  have hlowlt : low ∈ values → lo.natAbs < 2 ^ binary64.limit := fun hmem =>
    (isFinite_iff_of_rank hlow.rank_eq).mp (hfinite low hmem)
  have hhighlt : high ∈ values → hi.natAbs < 2 ^ binary64.limit := fun hmem =>
    (isFinite_iff_of_rank hhigh.rank_eq).mp (hfinite high hmem)
  rcases mem_or_of_isBest_low hlow with hmem | hlimit
  · have hlo := hlowlt hmem
    have hbetween := rank_between hlow hhigh hmem hlow.rank_eq
    refine ⟨standsAt_of_rank hlow.rank_eq hlo, standsAt_of_rank hhigh.rank_eq ?_⟩
    rcases mem_or_of_isBest_high hhigh with hmem' | hlimit'
    · exact hhighlt hmem'
    · omega
  · rcases mem_or_of_isBest_high hhigh with hmem' | hlimit'
    · have hhi := hhighlt hmem'
      omega
    · omega

end

/-- A padded range of finite values is not inverted, and every value lies in it. -/
theorem rank_padded {values : List Double} (hfinite : ∀ v ∈ values, v.isFinite = true) :
    ∃ start stop, (padded values).start.rank = some start ∧
      (padded values).stop.rank = some stop ∧ start ≤ stop ∧
      ∀ v ∈ values, ∀ a, v.rank = some a → start ≤ a ∧ a ≤ stop := by
  obtain ⟨lo, hi, hlow, hhigh⟩ := exists_isBest_extremes values
  have hbetween : ∀ v ∈ values, ∀ a, v.rank = some a → lo ≤ a ∧ a ≤ hi :=
    fun v hv a ha => rank_between hlow hhigh hv ha
  unfold padded
  generalize extremes values = bounds at *
  obtain ⟨low, high⟩ := bounds
  simp only at hlow hhigh ⊢
  simp only [lt_iff_of_rank hhigh.rank_eq hlow.rank_eq,
    equals_iff_of_rank hlow.rank_eq hhigh.rank_eq]
  rcases Int.lt_trichotomy hi lo with hlt | heq | hgt
  · rw [if_pos hlt]
    refine ⟨_, _, standsAt_zero.rank_eq, standsAt_one.rank_eq, Int.natCast_nonneg _, ?_⟩
    intro v hv a ha
    have hempty := hbetween v hv a ha
    omega
  · obtain ⟨hlowAt, hhighAt⟩ := standsAt_extremes hfinite hlow hhigh (Int.le_of_eq heq.symm)
    rw [if_neg (by omega), if_pos heq.symm]
    have hstart : binary64.nearest (lo - binary64.one) 1 ≤ lo :=
      nearest_le_of_rank hlow.rank_eq Nat.one_pos (by omega)
    have hstop : hi ≤ binary64.nearest (hi + binary64.one) 1 :=
      le_nearest_of_rank hhigh.rank_eq Nat.one_pos (by omega)
    refine ⟨_, _, rank_sub hlowAt standsAt_one, rank_add hhighAt standsAt_one, by omega, ?_⟩
    intro v hv a ha
    have hmiddle := hbetween v hv a ha
    omega
  · obtain ⟨hlowAt, hhighAt⟩ := standsAt_extremes hfinite hlow hhigh (Int.le_of_lt hgt)
    obtain ⟨start, stop, hstart, hstop, hle, hle'⟩ := rank_spread hlowAt hhighAt hgt
    rw [if_neg (by omega), if_neg (by omega)]
    refine ⟨start, stop, hstart, hstop, by omega, ?_⟩
    intro v hv a ha
    have hmiddle := hbetween v hv a ha
    omega

theorem padded_start_le_stop {values : List Double} (hfinite : ∀ v ∈ values, v.isFinite = true) :
    (padded values).start ≤ (padded values).stop := by
  obtain ⟨start, stop, hstart, hstop, hle, _⟩ := rank_padded hfinite
  exact (le_iff_of_rank hstart hstop).mpr hle

theorem covers_padded {values : List Double} (hfinite : ∀ v ∈ values, v.isFinite = true)
    {v : Double} (hv : v ∈ values) : (padded values).Covers v := by
  obtain ⟨start, stop, hstart, hstop, _, hle⟩ := rank_padded hfinite
  obtain ⟨a, ha⟩ := exists_standsAt (hfinite v hv)
  obtain ⟨hbelow, habove⟩ := hle v hv a ha.rank_eq
  exact covers_of_rank hstart ha.rank_eq hstop hbelow habove

/-! ## Categories -/

/-- The slot of a category. -/
def slot (i : Nat) : Range :=
  ⟨ofNat i - 0.5, ofNat i + 0.5⟩

/-- The units of a half. -/
def halfUnits : Nat := 2 ^ (binary64.scale - 1)

theorem two_mul_halfUnits : 2 * halfUnits = binary64.one := by
  rw [halfUnits, ← Nat.pow_succ', Nat.succ_eq_add_one, Nat.sub_add_cancel (by decide), Format.one]

theorem standsAt_half : (0.5 : Double).StandsAt halfUnits :=
  ⟨by decide +kernel, by decide +kernel⟩

section

variable {k : Int} (h : k.natAbs ≤ 2 ^ binary64.digits)

include h

theorem natAbs_mul_halfUnits_lt : (k * halfUnits).natAbs < 2 ^ binary64.limit := by
  rw [Int.natAbs_mul, Int.natAbs_natCast, halfUnits]
  refine Nat.lt_of_le_of_lt (Nat.mul_le_mul_right _ h) ?_
  rw [← Nat.pow_add]
  exact Nat.pow_lt_pow_right (by decide) (by decide)

/-- Up to `2 ^ 53` halves are not rounded. -/
theorem nearest_mul_halfUnits : binary64.nearest (k * halfUnits) 1 = k * halfUnits := by
  rw [halfUnits]
  exact nearest_mul_two_pow h (by decide)

/-- Rounding does not go beyond such a number of halves. -/
theorem nearest_le_mul_halfUnits {a : Int} (hle : a ≤ k * halfUnits) :
    binary64.nearest a 1 ≤ k * halfUnits := by
  rw [← nearest_mul_halfUnits h]
  exact nearest_mono Nat.one_pos hle

theorem mul_halfUnits_le_nearest {a : Int} (hle : k * halfUnits ≤ a) :
    k * halfUnits ≤ binary64.nearest a 1 := by
  rw [← nearest_mul_halfUnits h]
  exact nearest_mono Nat.one_pos hle

theorem standsAt_mul_halfUnits {x : Double}
    (hx : x.rank = some (binary64.nearest (k * halfUnits) 1)) : x.StandsAt (k * halfUnits) := by
  rw [nearest_mul_halfUnits h] at hx
  exact standsAt_of_rank hx (natAbs_mul_halfUnits_lt h)

end

section

variable {i : Nat} (h : i ≤ 2 ^ 52)

include h

theorem standsAt_category : (ofNat i : Double).StandsAt (2 * i * halfUnits : Int) := by
  have hunits : ((i * binary64.one : Nat) : Int) = 2 * i * halfUnits := by
    rw [← two_mul_halfUnits, Int.natCast_mul, Int.natCast_mul, Int.cast_ofNat_Int,
      ← Int.mul_assoc, Int.mul_comm i 2]
  have hbits : 2 ^ binary64.digits = 2 * 2 ^ 52 := rfl
  have hrank := rank_ofUnits (f := binary64) false (i * binary64.one) 1
  rw [signed_false, hunits] at hrank
  exact standsAt_mul_halfUnits (by omega) hrank

theorem standsAt_lower_border :
    (ofNat i - 0.5 : Double).StandsAt ((2 * i - 1 : Int) * halfUnits) := by
  have hbits : 2 ^ binary64.digits = 2 * 2 ^ 52 := rfl
  apply standsAt_mul_halfUnits (by omega)
  rw [Int.sub_mul, Int.one_mul]
  exact rank_sub (standsAt_category h) standsAt_half

end

theorem standsAt_upper_border {i : Nat} (h : i < 2 ^ 52) :
    (ofNat i + 0.5 : Double).StandsAt ((2 * i + 1 : Int) * halfUnits) := by
  have hbits : 2 ^ binary64.digits = 2 * 2 ^ 52 := rfl
  apply standsAt_mul_halfUnits (by omega)
  rw [Int.add_mul, Int.one_mul]
  exact rank_add (standsAt_category (Nat.le_of_lt h)) standsAt_half

/-- What lies in a slot, in ranks. -/
theorem slot_covers_iff {i : Nat} (h : i < 2 ^ 52) {v : Double} :
    (slot i).Covers v ↔ ∃ a, v.rank = some a ∧
      (2 * i - 1 : Int) * halfUnits ≤ a ∧ a ≤ (2 * i + 1 : Int) * halfUnits := by
  have hlower := standsAt_lower_border (Nat.le_of_lt h)
  have hupper := standsAt_upper_border h
  constructor
  · intro hcovers
    obtain ⟨_, a, _, ha, _⟩ := le_iff.mp hcovers.start_le
    refine ⟨a, ha, ?_, ?_⟩
    · exact (le_iff_of_rank hlower.rank_eq ha).mp hcovers.start_le
    · exact (le_iff_of_rank ha hupper.rank_eq).mp hcovers.le_stop
  · rintro ⟨a, ha, hle, hle'⟩
    exact covers_of_rank hlower.rank_eq ha hupper.rank_eq hle hle'

theorem mul_halfUnits_mono {k l : Int} (h : k ≤ l) : k * halfUnits ≤ l * halfUnits :=
  Int.mul_le_mul_of_nonneg_right h (Int.natCast_nonneg _)

/-- What lies in different slots does not overlap. -/
theorem le_of_slot_covers {i j : Nat} (hij : i < j) (hj : j < 2 ^ 52) {v w : Double}
    (hv : (slot i).Covers v) (hw : (slot j).Covers w) : v ≤ w := by
  obtain ⟨a, ha, _, hle⟩ := (slot_covers_iff (by omega)).mp hv
  obtain ⟨b, hb, hle', _⟩ := (slot_covers_iff hj).mp hw
  have hborder := mul_halfUnits_mono (show (2 * i + 1 : Int) ≤ 2 * j - 1 by omega)
  exact (le_iff_of_rank ha hb).mpr (by omega)

/-- What is at most half a slot away from a category lies in its slot, before rounding and
after it. -/
theorem slot_covers_of_rank {i : Nat} (h : i < 2 ^ 52) {v : Double} {d : Int}
    (hv : v.rank = some (binary64.nearest (2 * i * halfUnits + d) 1))
    (hd : -(halfUnits : Int) ≤ d) (hd' : d ≤ halfUnits) : (slot i).Covers v := by
  have hbits : 2 ^ binary64.digits = 2 * 2 ^ 52 := rfl
  refine (slot_covers_iff h).mpr ⟨_, hv, ?_, ?_⟩
  · apply mul_halfUnits_le_nearest (by omega)
    rw [Int.sub_mul]
    omega
  · apply nearest_le_mul_halfUnits (by omega)
    rw [Int.add_mul]
    omega

/-- A category lies in its slot, and so do both ends of a bar that is not wider. -/
theorem slot_covers {i : Nat} (h : i < 2 ^ 52) {width : Double} (hwidth : 0 ≤ width)
    (hhalf : width ≤ 0.5) : (slot i).Covers (ofNat i) ∧
      (slot i).Covers (ofNat i - width) ∧ (slot i).Covers (ofNat i + width) := by
  have hcategory := standsAt_category (Nat.le_of_lt h)
  obtain ⟨_, d, _, hd, _⟩ := le_iff.mp hwidth
  have hpos := (le_iff_of_rank standsAt_zero.rank_eq hd).mp hwidth
  have hle := (le_iff_of_rank hd standsAt_half.rank_eq).mp hhalf
  have hfits := natAbs_mul_halfUnits_lt (k := 1) (by decide)
  rw [Int.one_mul] at hfits
  have hwidthAt := standsAt_of_rank hd (by omega)
  refine ⟨slot_covers_of_rank h (d := 0) ?_ (by omega) (by omega),
    slot_covers_of_rank h (rank_sub hcategory hwidthAt) (by omega) (by omega),
    slot_covers_of_rank h (rank_add hcategory hwidthAt) (by omega) (by omega)⟩
  have hbits : 2 ^ binary64.digits = 2 * 2 ^ 52 := rfl
  rw [Int.add_zero, nearest_mul_halfUnits (by omega)]
  exact hcategory.rank_eq

theorem categories_start_lt_stop {n : Nat} (hpos : 1 ≤ n) (hn : n ≤ 2 ^ 52) :
    (categories n).start < (categories n).stop := by
  have hstart := standsAt_half.neg.rank_eq
  have hstop := (standsAt_lower_border hn).rank_eq
  have hhalf : 0 < halfUnits := Nat.two_pow_pos _
  have hfirst := mul_halfUnits_mono (show (1 : Int) ≤ 2 * n - 1 by omega)
  exact (lt_iff_of_rank hstart hstop).mpr (by omega)

/-- The axis of `n` categories covers the slots of all of them. -/
theorem covers_categories {i n : Nat} (hi : i < n) (hn : n ≤ 2 ^ 52) {v : Double}
    (hv : (slot i).Covers v) : (categories n).Covers v := by
  obtain ⟨a, ha, hle, hle'⟩ := (slot_covers_iff (by omega)).mp hv
  have hstart := standsAt_half.neg.rank_eq
  have hstop := (standsAt_lower_border hn).rank_eq
  have hfirst := mul_halfUnits_mono (show (-1 : Int) ≤ 2 * i - 1 by omega)
  have hlast := mul_halfUnits_mono (show (2 * i + 1 : Int) ≤ 2 * n - 1 by omega)
  exact covers_of_rank hstart ha hstop (by omega) (by omega)

end BenchCharts.Axis
