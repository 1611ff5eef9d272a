import BenchCharts.Axis.Tick
import BenchCharts.Chart.Basic
import BenchCharts.Proofs.Binary.Error
import BenchCharts.Proofs.Binary.Integer
import BenchCharts.Proofs.Axis.Pixel

/-!
# The search for ticks

`RefinesTo` is the search for the distance of ticks without a bound on its rounds.  The
rounds of the model are enough for it: if it ends, it ends at the answer of the model
(`refine_eq_of_refinesTo`).  It never ends from a distance that is zero, infinite or a NaN,
since there are never too many ticks then (`not_refinesTo_of_isLost`).  In a range whose span
is not finite it begins with such a distance, so nothing is answered only where it never ends
(`not_refinesTo_of_ticks?_eq_none`).
-/

namespace BenchCharts

open Binary

/-! ## Divisions without a result -/

namespace Binary

variable {f : Format} {x width : Binary f}

theorem add_nan (x : Binary f) : x + .nan = .nan := by
  cases x <;> rfl

theorem sub_nan (x : Binary f) : x - .nan = .nan :=
  add_nan x

theorem nan_div (x : Binary f) : .nan / x = (.nan : Binary f) := by
  cases x <;> rfl

theorem nan_mul (x : Binary f) : .nan * x = (.nan : Binary f) := by
  cases x <;> rfl

theorem round_nan : (.nan : Binary f).round = .nan := rfl

/-- Neither finite nor away from zero: what does not divide anything. -/
def IsLost (width : Binary f) : Prop := width.isFinite = false ∨ width.rank = some 0

theorem magnitude_eq_zero {s : Bool} {n : Nat} {fits : f.Fits n}
    (h : (finite s n fits).rank = some 0) : n = 0 := by
  have hsigned : signed s n = 0 := Option.some.inj h
  rw [← natAbs_signed s n, hsigned, Int.natAbs_zero]

theorem standsAt_zero_of_sign (negative : Bool) : (zero negative : Binary f).StandsAt 0 := by
  refine ⟨?_, rfl⟩
  cases negative <;> rfl

theorem infinite_mul_zero (s t : Bool) (fits : f.Fits 0) :
    (infinite s : Binary f) * finite t 0 fits = .nan := by
  show (if 0 = 0 then .nan else .infinite (s != t) : Binary f) = .nan
  exact if_pos rfl

/-- An infinity has no product with zero. -/
theorem StandsAt.mul_infinite (h : x.StandsAt 0) (t : Bool) : x * .infinite t = .nan := by
  cases x with
  | nan | infinite => cases h.isFinite
  | finite s m fits => exact if_pos (magnitude_eq_zero h.rank_eq)

theorem IsLost.floor_div_mul (hf : f.HoldsWhole) (h : IsLost width) (x : Binary f) :
    (x / width).floor * width = .nan := by
  cases width with
  | nan => cases x <;> rfl
  | infinite t =>
    cases x with
    | nan | infinite => rfl
    | finite s m fits =>
      have hfloor := standsAt_floor hf (standsAt_zero_of_sign (s != t)) (by simp)
      rw [Int.zero_ediv, Int.zero_mul] at hfloor
      exact hfloor.mul_infinite t
  | finite t n fits =>
    obtain rfl := magnitude_eq_zero (h.resolve_left Bool.noConfusion)
    cases x with
    | nan => rfl
    | infinite s => exact infinite_mul_zero (s != t) t _
    | finite s m fits =>
      show (if 0 = 0 then if m = 0 then .nan else .infinite (s != t)
        else ofUnits (s != t) (m * f.one) 0 : Binary f).floor * _ = _
      rw [if_pos rfl]
      split
      · rfl
      · exact infinite_mul_zero (s != t) t _

/-- A tenth of nothing is nothing, and a tenth of an infinity is one. -/
theorem IsLost.div {n : Nat} (hn : 0 < n) {divisor : Binary f} (h : IsLost width)
    (hdivisor : divisor.StandsAt n) : IsLost (width / divisor) := by
  obtain ⟨_, rfl⟩ := hdivisor.eq_finite hn
  cases width with
  | nan | infinite => exact .inl rfl
  | finite s m fits =>
    have hzero : (finite s m fits).StandsAt 0 := ⟨h.resolve_left Bool.noConfusion, rfl⟩
    have hrank := rank_div hzero hdivisor hn
    rw [Int.zero_mul, Format.nearest_zero] at hrank
    exact .inr hrank

theorem isFinite_mul_eq_false {n : Nat} {factor : Binary f} (h : width.isFinite = false)
    (hn : 0 < n) (hfactor : factor.StandsAt n) : (width * factor).isFinite = false := by
  obtain ⟨_, rfl⟩ := hfactor.eq_finite hn
  cases width with
  | nan => rfl
  | infinite s =>
    show (if n = 0 then .nan else .infinite (s != false) : Binary f).isFinite = false
    rw [if_neg (Nat.ne_of_gt hn)]
    rfl
  | finite => cases h

theorem sub_self_ne_infinite (x : Binary f) : x - x ≠ .infinite true := by
  cases x with
  | nan => exact nofun
  | infinite s => cases s <;> exact nofun
  | finite s m fits =>
    have hrank := rank_sub (x := finite s m fits) (y := finite s m fits) ⟨rfl, rfl⟩ ⟨rfl, rfl⟩
    rw [Int.sub_self, Format.nearest_zero] at hrank
    intro hsub
    rw [hsub] at hrank
    have hlimit := Nat.two_pow_pos f.limit
    have hzero : signed true (2 ^ f.limit) = 0 := Option.some.inj hrank
    rw [signed_true] at hzero
    omega

/-- A difference is not negative if the subtrahend is not above. -/
theorem sub_ne_infinite_true {y : Binary f} {a b : Int} (hx : x.rank = some a)
    (hy : y.rank = some b) (h : a ≤ b) : y - x ≠ .infinite true := by
  have hlimit := Nat.two_pow_pos f.limit
  cases y with
  | nan => cases hy
  | infinite s =>
    cases x with
    | nan => cases hx
    | infinite t =>
      cases s with
      | false => cases t <;> exact nofun
      | true =>
        cases t with
        | true => exact nofun
        | false =>
          have ha : ((2 ^ f.limit : Nat) : Int) = a := Option.some.inj hx
          have hb : -((2 ^ f.limit : Nat) : Int) = b := Option.some.inj hy
          omega
    | finite t n fits =>
      cases s with
      | false => exact nofun
      | true =>
        have hb : -((2 ^ f.limit : Nat) : Int) = b := Option.some.inj hy
        have hn := (StandsAt.fits ⟨hx, rfl⟩).2
        omega
  | finite s m fits =>
    cases x with
    | nan => cases hx
    | infinite t =>
      cases t with
      | true => exact nofun
      | false =>
        have ha : ((2 ^ f.limit : Nat) : Int) = a := Option.some.inj hx
        have hm := (StandsAt.fits ⟨hy, rfl⟩).2
        omega
    | finite t n fits' =>
      have hrank := rank_sub (x := finite s m fits) (y := finite t n fits') ⟨hy, rfl⟩ ⟨hx, rfl⟩
      have hpos := f.nearest_mono Nat.one_pos (Int.sub_nonneg_of_le h)
      rw [Format.nearest_zero] at hpos
      intro hsub
      rw [hsub] at hrank
      have hnegative : -((2 ^ f.limit : Nat) : Int) = f.nearest (b - a) 1 :=
        Option.some.inj hrank
      omega

end Binary

namespace Axis

open Format

/-- From a candidate the search ends at a result. -/
inductive RefinesTo (range : Range) (limit : Nat) : Step → Step → Prop
  | found {step : Step} {width : Double}
      (h : divide range limit step.width step.width [2, 5, 10] = (width, true)) :
      RefinesTo range limit step { step with width }
  | deeper {step result : Step} {width : Double}
      (h : divide range limit step.width step.width [2, 5, 10] = (width, false))
      (hrest : RefinesTo range limit { width := step.width / 10, grain := step.grain / 10 } result) :
      RefinesTo range limit step result

variable {range : Range} {limit : Nat}

variable {range : Range} {limit : Nat}

/-! ## Lost distances -/

theorem remainder_eq_nan {width : Double} (h : IsLost width) (x : Double) :
    remainder x width = .nan := by
  rw [remainder, h.floor_div_mul holdsWhole_binary64, sub_nan]
  exact if_neg (not_nan_lt _)

/-- With a lost distance there are never too many ticks. -/
theorem tooMany_eq_false {old divisor : Double} (h : IsLost (old / divisor)) :
    tooMany range limit old divisor = false := by
  have hleft : firstMultiple range.start (old / divisor) = .nan := by
    rw [firstMultiple, remainder_eq_nan h, sub_nan]
    exact if_neg (not_nan_lt _)
  have hright : lastMultiple range.stop (old / divisor) = .nan := by
    rw [lastMultiple, remainder_eq_nan h, sub_nan]
  rw [tooMany, hleft, hright, sub_nan, nan_div, nan_mul, add_nan, round_nan]
  exact decide_eq_false (not_lt_nan _)

theorem standsAt_two : (2 : Double).StandsAt (2 * binary64.one : Nat) :=
  ⟨by decide +kernel, by decide +kernel⟩

theorem standsAt_five : (5 : Double).StandsAt (5 * binary64.one : Nat) :=
  ⟨by decide +kernel, by decide +kernel⟩

theorem standsAt_ten : (10 : Double).StandsAt (10 * binary64.one : Nat) :=
  ⟨by decide +kernel, by decide +kernel⟩

theorem divide_of_isLost {old width : Double} (h : IsLost old) :
    divide range limit old width [2, 5, 10] = (old / 10, false) := by
  have hlost {divisor : Double} {k : Nat} (hk : 0 < k)
      (hdivisor : divisor.StandsAt (k * binary64.one : Nat)) :
      tooMany range limit old divisor = false :=
    tooMany_eq_false (h.div (Nat.mul_pos hk (Format.one_pos _)) hdivisor)
  simp only [divide, hlost (by decide) standsAt_two, hlost (by decide) standsAt_five,
    hlost (by decide) standsAt_ten, Bool.false_eq_true, ↓reduceIte]

/-- From a lost distance the search goes on for ever. -/
theorem not_refinesTo_of_isLost {step result : Step} (h : IsLost step.width) :
    ¬RefinesTo range limit step result := by
  intro hrefines
  induction hrefines with
  | found hfound =>
    rw [divide_of_isLost h] at hfound
    cases hfound
  | deeper _ _ ih => exact ih (h.div (Nat.mul_pos (by decide) (Format.one_pos _)) standsAt_ten)

/-! ## Enough rounds -/

/-- A tenth has three binary digits less. -/
theorem exists_standsAt_tenth {x : Double} {a : Int} {e : Nat} (hx : x.StandsAt a)
    (h : a.natAbs ≤ 2 ^ (e + 3)) (he : e < 2098) :
    ∃ b, (x / 10).StandsAt b ∧ b.natAbs ≤ 2 ^ e := by
  have hrank := rank_div hx standsAt_ten (Nat.mul_pos (by decide) (Format.one_pos _))
  have hle : (a * binary64.one).natAbs ≤ 2 ^ e * (10 * binary64.one) := by
    rw [Int.natAbs_mul, Int.natAbs_natCast, ← Nat.mul_assoc]
    refine Nat.mul_le_mul_right _ (Nat.le_trans h ?_)
    rw [Nat.pow_add]
    exact Nat.mul_le_mul_left _ (by decide)
  have hbound : (Format.nearest .binary64 (a * binary64.one) (10 * binary64.one)).natAbs
      ≤ 2 ^ e := by
    rw [Format.natAbs_nearest]
    exact Format.nearestUnits_le_two_pow_of_le (Nat.mul_pos (by decide) (Format.one_pos _)) hle
  exact ⟨_, standsAt_of_rank hrank
    (Nat.lt_of_le_of_lt hbound (Nat.pow_lt_pow_right (by decide) he)), hbound⟩

/-- A tenth of four units is nothing. -/
theorem isLost_tenth {x : Double} {a : Int} (hx : x.StandsAt a) (h : a.natAbs ≤ 4) :
    IsLost (x / 10) := by
  have hrank := rank_div hx standsAt_ten (Nat.mul_pos (by decide) (Format.one_pos _))
  have hzero : (Format.nearest .binary64 (a * binary64.one) (10 * binary64.one)).natAbs = 0 := by
    rw [Format.natAbs_nearest, Int.natAbs_mul, Int.natAbs_natCast]
    have hone := Format.one_pos .binary64
    generalize Format.one .binary64 = one at hone
    have hsmall : a.natAbs * one < 10 * one := Nat.mul_lt_mul_of_pos_right (by omega) hone
    have hten : 0 < 10 * one := Nat.mul_pos (by decide) hone
    have hnear := (roundRatio_near (digits .binary64) (a.natAbs * one) hten).1
    have hexcess : excess (digits .binary64) 0 = 0 := by decide
    rw [Nat.div_eq_of_lt hsmall, hexcess, Nat.pow_zero, Nat.mul_one] at hnear
    have hfour : a.natAbs * one ≤ 4 * one := Nat.mul_le_mul_right one h
    have hround : roundRatio (digits .binary64) (a.natAbs * one) (10 * one) = 0 := by
      refine Nat.eq_zero_of_not_pos fun hpos => ?_
      have hmul := Nat.mul_le_mul_right (10 * one) hpos
      omega
    rw [nearestUnits, hround, Nat.zero_min]
  rw [Int.natAbs_eq_zero.mp hzero] at hrank
  exact .inr hrank

section

variable {fuel : Nat} {step : Step} {width : Double}

theorem refine_of_found
    (h : divide range limit step.width step.width [2, 5, 10] = (width, true)) :
    refine range limit (fuel + 1) step = { step with width } := by
  rw [refine, h]
  rfl

theorem refine_of_deeper
    (h : divide range limit step.width step.width [2, 5, 10] = (width, false)) :
    refine range limit (fuel + 1) step
      = refine range limit fuel { width := step.width / 10, grain := step.grain / 10 } := by
  rw [refine, h]
  rfl

end

theorem refine_of_natAbs_le {step result : Step} {a : Int} {rounds : Nat}
    (hstep : step.width.StandsAt a) (ha : a.natAbs ≤ 2 ^ (3 * rounds + 2)) (hrounds : rounds < 700)
    (h : RefinesTo range limit step result) :
    refine range limit (rounds + 1) step = result := by
  induction rounds generalizing step a with
  | zero =>
    cases h with
    | found hfound => exact refine_of_found hfound
    | deeper hdivide hrest => exact absurd hrest (not_refinesTo_of_isLost (isLost_tenth hstep ha))
  | succ rounds ih =>
    cases h with
    | found hfound => exact refine_of_found hfound
    | deeper hdivide hrest =>
      rw [refine_of_deeper hdivide]
      obtain ⟨b, hb, hle⟩ := exists_standsAt_tenth (e := 3 * rounds + 2) hstep ha (by omega)
      exact ih hb hle (by omega) hrest

/-- If the search ends, it ends at the answer. -/
theorem refine_eq_of_refinesTo {step result : Step} (h : RefinesTo range limit step result) :
    refine range limit decades step = result := by
  cases hfinite : step.width.isFinite with
  | true =>
    obtain ⟨a, ha⟩ := exists_standsAt hfinite
    have hle := Nat.le_trans (natAbs_rank_le ha.rank_eq)
      (Nat.pow_le_pow_right (by decide) (by decide : Format.limit .binary64 ≤ 3 * 699 + 2))
    exact refine_of_natAbs_le ha hle (by decide) h
  | false => exact absurd h (not_refinesTo_of_isLost (.inl hfinite))

/-! ## Spans that are not finite -/

/-- The lesser end of an ordered range comes first. -/
theorem ordered_cases (r : Range) :
    r.ordered.start = r.ordered.stop ∨ ∃ a b, r.ordered.start.rank = some a ∧
      r.ordered.stop.rank = some b ∧ a ≤ b := by
  cases hstart : r.start with
  | nan =>
    left
    rw [Range.ordered, hstart]
    rfl
  | infinite | finite =>
    right
    obtain ⟨a, ha⟩ := isNaN_eq_false_iff.mp (show r.start.isNaN = false by rw [hstart]; rfl)
    obtain ⟨low, hlow⟩ := isBest_minimum ha r.stop
    obtain ⟨high, hhigh⟩ := isBest_maximum ha r.stop
    exact ⟨low, high, hlow.rank_eq, hhigh.rank_eq,
      Int.le_trans (hlow.le_first a ha) (hhigh.le_first a ha)⟩

theorem span_ne_infinite_true (r : Range) : r.span ≠ .infinite true := by
  rw [Range.span]
  rcases ordered_cases r with heq | ⟨a, b, ha, hb, hab⟩
  · rw [heq]
    exact sub_self_ne_infinite _
  · exact sub_ne_infinite_true ha hb hab

theorem decade_infinite : (Binary.infinite false : Double).decade = .infinite false := by
  decide +kernel

/-- In a range without a finite span the search begins with a lost distance. -/
theorem isLost_firstStep {r : Range} (h : ¬r.FiniteSpan) :
    IsLost (firstStep r.ordered limit).width := by
  have hdecade : r.span.decade.isFinite = false := by
    rw [Range.FiniteSpan] at h
    cases hspan : r.span with
    | nan => rfl
    | infinite negative =>
      cases negative with
      | false => rw [decade_infinite]; rfl
      | true => exact absurd hspan (span_ne_infinite_true r)
    | finite => exact absurd (by rw [hspan]; rfl) h
  rw [Range.span] at hdecade
  rw [firstStep]
  dsimp only
  split
  · exact .inl (isFinite_mul_eq_false hdecade (Nat.mul_pos (by decide) (Format.one_pos _))
      standsAt_ten)
  · exact .inl hdecade

/-- Nothing is answered only where the search goes on for ever. -/
theorem not_refinesTo_of_ticks?_eq_none {r : Range} (h : ticks? r limit = none) (result : Step) :
    ¬RefinesTo r.ordered limit (firstStep r.ordered limit) result := by
  refine not_refinesTo_of_isLost (isLost_firstStep fun hspan => ?_)
  rw [ticks?, if_pos hspan] at h
  split at h <;> cases h

end Axis

/-- A chart is not drawn because the ticks of an axis are looked for without end, or because a
dashed line does not come to its end. -/
theorem Chart.exists_of_drawOn?_eq_none {c : Chart} {canvas : Nat × Nat}
    (h : c.drawOn? canvas = none) :
    (∃ r ∈ c.ranges, ∀ limit result,
      ¬Axis.RefinesTo r.ordered limit (Axis.firstStep r.ordered limit) result)
    ∨ c.dashesEnd canvas = false := by
  by_cases hspans : c.FiniteSpans
  · right
    refine Bool.not_eq_true _ ▸ fun hdashes => ?_
    rw [drawOn?, if_pos ⟨hspans, hdashes⟩] at h
    cases h
  · left
    obtain ⟨r, hr, hspan⟩ : ∃ r ∈ c.ranges, ¬r.FiniteSpan := by
      simpa [FiniteSpans] using hspans
    exact ⟨r, hr, fun limit result =>
      Axis.not_refinesTo_of_isLost (Axis.isLost_firstStep hspan)⟩

end BenchCharts
