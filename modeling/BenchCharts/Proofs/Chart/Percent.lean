import BenchCharts.Chart.Stability
import BenchCharts.Proofs.Decimal.Numeral

/-!
# Percent labels

The label of an error rate is an exact numeral of it.  A whole number is written with a zero
behind the point, and any other value as its shortest decimal.  That decimal has digits
behind the point, since a whole number would be read as a whole value
(`exponent_neg_of_not_isWhole`), so the two ways of writing never give the same text.
-/

namespace BenchCharts

open Binary Scientific

/-- Digits with a point between them, and a minus sign in front of a negative number. -/
def IsNumeral (negative : Bool) (cs : List Char) : Prop :=
  ∃ whole part, cs = signChars negative ++ whole ++ '.' :: part ∧ whole ≠ [] ∧ part ≠ [] ∧
    (∀ c ∈ whole, c.isDigit = true) ∧ ∀ c ∈ part, c.isDigit = true

/-- The numeral is one of the value, and only of it: it is read as the value, shows whether
it is whole, and otherwise has as few significant digits as any text that is read as it. -/
structure ExactNumeral (numeral : List Char) (v : Double) : Prop where
  isNumeral : IsNumeral v.isNegative numeral
  reads : readNumber numeral = .ok v
  endsInZero_iff : ['.', '0'] <:+ numeral ↔ v.isWhole = true
  shortest : v.isWhole = false → ∀ text : List Char, readNumber text = .ok v →
    digitCount numeral ≤ digitCount text

/-! ## Whole values -/

section

variable {f : Format} {negative : Bool} {m : Nat} {fits : f.Fits m}

theorem isDigit_zero : ∀ c ∈ ['0'], c.isDigit = true :=
  List.forall_mem_singleton.mpr (by decide)

theorem fixedChars_one_of_dvd (hwhole : f.one ∣ m) : (finite negative m fits).fixedChars 1
    = signChars negative ++ Nat.toDigits 10 (m / f.one) ++ ['.', '0'] := by
  obtain ⟨q, rfl⟩ := hwhole
  have hround : roundHalfEven (f.one * q * 10 ^ 1) f.one = q * 10 := by
    rw [Nat.mul_assoc, Nat.mul_comm f.one, roundHalfEven_mul _ _ f.one_pos, Nat.pow_one]
  have hplaces : places 1 (q * 10) = (Nat.toDigits 10 q, ['0']) := by
    have hzero : paddedDigits 1 0 = ['0'] := by decide
    rw [places, if_neg (by decide), Nat.pow_one, Nat.mul_div_cancel q (by decide),
      Nat.mul_mod_left, hzero]
  rw [Nat.mul_div_cancel_left q f.one_pos, List.append_assoc]
  show signChars negative ++ withPoint (places 1 (roundHalfEven (f.one * q * 10 ^ 1) f.one)) = _
  rw [hround, hplaces]
  rfl

/-- Digits and a zero behind the point are read as the whole value. -/
theorem readNumber_of_dvd (hwhole : f.one ∣ m) :
    readNumber (signChars negative ++ Nat.toDigits 10 (m / f.one) ++ ['.', '0'])
      = .ok (finite negative m fits) := by
  obtain ⟨q, rfl⟩ := hwhole
  rw [Nat.mul_div_cancel_left q f.one_pos]
  apply readNumber_numeral Nat.toDigits_ne_nil (fun c => isDigit_of_mem_toDigits) isDigit_zero
  have hvalue : (Nat.ofDigitChars 10 (Nat.toDigits 10 q ++ ['0']) 0 : ℚ)
      * 10 ^ (-(['0'] : List Char).length : Int) = (f.one * q : Nat) / f.one := by
    have hone : (f.one : ℚ) ≠ 0 := Nat.cast_ne_zero.mpr (Nat.ne_of_gt f.one_pos)
    have hzero : dropTrailingZeros ['0'] = [] := by decide
    rw [value_dropTrailingZeros, hzero, List.append_nil, Nat.ofDigitChars_ten_toDigits,
      Nat.cast_mul, mul_div_cancel_left₀ _ hone]
    simp
  rw [hvalue]
  exact Format.magnitude_div_one fits

/-! ## Other values -/

/-- A whole number is not read as a value that is not whole. -/
theorem magnitude_natCast_ne (hnot : ¬f.one ∣ m) (n : Nat) : f.magnitude n ≠ m :=
  fun heq => hnot (heq ▸ Format.one_dvd_magnitude n)

section

variable {x : Scientific} (hread : f.magnitude x.value = m) (hnot : ¬f.one ∣ m)

include hread hnot

theorem exponent_neg_of_not_dvd : x.exponent < 0 := by
  by_contra hge
  obtain ⟨n, hn⟩ := Int.eq_ofNat_of_zero_le (Int.not_lt.mp hge)
  refine magnitude_natCast_ne hnot (x.mantissa * 10 ^ n) ?_
  rw [← hread, value, hn, zpow_natCast]
  push_cast
  rfl

/-- The digits of a decimal that is not read as a whole value stand on both sides of a
point, and the last of them is not zero. -/
theorem exists_positional : ∃ whole part, x.positional = whole ++ '.' :: part ∧
    whole ≠ [] ∧ part ≠ [] ∧ (∀ c ∈ whole, c.isDigit = true) ∧ (∀ c ∈ part, c.isDigit = true) ∧
    (∀ ds c, part = ds ++ [c] → c ≠ '0') ∧
    x.value = Nat.ofDigitChars 10 (whole ++ part) 0 * 10 ^ (-part.length : Int) := by
  have hneg := exponent_neg_of_not_dvd hread hnot
  obtain ⟨hdigits, hlength⟩ := places_spec (show 0 < x.exponent.natAbs by omega) x.mantissa
  have hisDigit := isDigit_of_mem_places (n := x.exponent.natAbs) (m := x.mantissa)
  have hwhole : (places x.exponent.natAbs x.mantissa).1 ≠ [] := Nat.toDigits_ne_nil
  have hpositional : x.positional = withPoint ((places x.exponent.natAbs x.mantissa).1,
      dropTrailingZeros (places x.exponent.natAbs x.mantissa).2) := by
    rw [positional, if_neg (by omega)]
  generalize (places x.exponent.natAbs x.mantissa).1 = whole at *
  generalize (places x.exponent.natAbs x.mantissa).2 = part at *
  have hvalue : x.value = Nat.ofDigitChars 10 (whole ++ dropTrailingZeros part) 0
      * 10 ^ (-(dropTrailingZeros part).length : Int) := by
    have hexponent : x.exponent = -part.length := by omega
    rw [← value_dropTrailingZeros, hdigits, value, hexponent]
  have hpart : dropTrailingZeros part ≠ [] := by
    intro hnil
    refine magnitude_natCast_ne hnot (Nat.ofDigitChars 10 whole 0) ?_
    rw [← hread, hvalue, hnil]
    simp
  refine ⟨whole, dropTrailingZeros part, ?_, hwhole, hpart, hisDigit.1, ?_, ?_, hvalue⟩
  · rw [hpositional, withPoint_of_ne_nil _ hpart]
  · exact fun c hc => hisDigit.2 c (mem_of_mem_dropTrailingZeros hc)
  · exact fun ds c => ne_zero_of_concat_dropTrailingZeros

end

end

/-! ## Labels -/

section

variable {negative : Bool} {m : Nat} {fits : Format.binary64.Fits m}

theorem isWhole_finite_iff :
    (finite negative m fits).isWhole = true ↔ Format.binary64.one ∣ m := by
  rw [isWhole, decide_eq_true_eq, Nat.dvd_iff_mod_eq_zero]

theorem exactNumeral_of_dvd (hwhole : Format.binary64.one ∣ m) :
    ExactNumeral ((finite negative m fits).fixedChars 1) (.finite negative m fits) := by
  have htrue : (finite negative m fits).isWhole = true := isWhole_finite_iff.mpr hwhole
  rw [fixedChars_one_of_dvd hwhole]
  exact {
    isNumeral := ⟨_, _, rfl, Nat.toDigits_ne_nil, List.cons_ne_nil _ _,
      fun c => isDigit_of_mem_toDigits, isDigit_zero⟩
    reads := readNumber_of_dvd hwhole
    endsInZero_iff := iff_of_true (List.suffix_append _ _) htrue
    shortest := fun hfalse => absurd (htrue.symm.trans hfalse) (by decide) }

theorem exactNumeral_of_not_dvd (hnot : ¬Format.binary64.one ∣ m) :
    ExactNumeral ((finite negative m fits).shortestChars) (.finite negative m fits) := by
  have hpos : 0 < m := Nat.pos_of_ne_zero fun hzero => hnot (hzero ▸ Nat.dvd_zero _)
  obtain ⟨_, _, _, hread, _⟩ := shortestDecimal_spec fits hpos
  obtain ⟨whole, part, htext, hwhole, hpart, hwholeDigits, hpartDigits, hlast, hvalue⟩ :=
    exists_positional hread hnot
  have hchars : (finite negative m fits).shortestChars
      = signChars negative ++ whole ++ '.' :: part := by
    rw [List.append_assoc, ← htext]
    show signChars negative ++ (if m = 0 then _ else _) = _
    rw [if_neg (Nat.ne_of_gt hpos)]
  rw [hchars]
  exact {
    isNumeral := ⟨whole, part, rfl, hwhole, hpart, hwholeDigits, hpartDigits⟩
    reads := readNumber_numeral hwhole hwholeDigits hpartDigits (hvalue ▸ hread)
    endsInZero_iff := by
      refine iff_of_false ?_ fun htrue => hnot (isWhole_finite_iff.mp htrue)
      rintro ⟨before, hends⟩
      obtain hnil | ⟨ds, c, hconcat⟩ := List.eq_nil_or_concat part
      · exact hpart hnil
      · rw [List.concat_eq_append] at hconcat
        have hend : (before ++ ['.', '0']).getLast? = some c := by
          rw [hends, hconcat, ← List.cons_append, ← List.append_assoc, List.getLast?_concat]
        rw [List.getLast?_append_cons] at hend
        exact hlast ds c hconcat (Option.some.inj hend).symm
    shortest := by
      intro _ text htextRead
      obtain ⟨q, hdigits, hq⟩ := exists_of_readNumber htextRead
      have hshortest := shortestDecimal_hasDigits fits hpos hdigits hq
      rw [hvalue, hasDigits_digits_iff (List.forall_mem_append.mpr ⟨hwholeDigits, hpartDigits⟩)]
        at hshortest
      rwa [digitCount, significand_numeral hwholeDigits hpartDigits] }

end

namespace StabilityChart

theorem toList_percentLabel (v : Double) : (percentLabel v).toList
    = (if v.isWhole then v.fixedChars 1 else v.shortestChars) ++ ['%'] := by
  rw [percentLabel]
  split <;> simp [fixed, shortest]

theorem exists_exactNumeral {v : Double} (h : v.isFinite = true) :
    ∃ numeral, (percentLabel v).toList = numeral ++ ['%'] ∧ ExactNumeral numeral v := by
  refine ⟨_, toList_percentLabel v, ?_⟩
  cases v with
  | nan | infinite => cases h
  | finite negative m fits =>
    split
    · rename_i hwhole
      exact exactNumeral_of_dvd (isWhole_finite_iff.mp hwhole)
    · rename_i hwhole
      exact exactNumeral_of_not_dvd fun hdvd => hwhole (isWhole_finite_iff.mpr hdvd)

/-- The label of an error rate is an exact numeral of it and a percent sign.  So different
error rates have different labels. -/
theorem percentLabel_exact {v : Double} (h : v.isFinite = true) :
    (∃ numeral, (percentLabel v).toList = numeral ++ ['%'] ∧ ExactNumeral numeral v) ∧
      ∀ w : Double, w.isFinite = true → percentLabel w = percentLabel v → w = v := by
  refine ⟨exists_exactNumeral h, fun w hw hlabel => ?_⟩
  obtain ⟨numeral, htext, hexact⟩ := exists_exactNumeral h
  obtain ⟨numeral', htext', hexact'⟩ := exists_exactNumeral hw
  have hsame : numeral' = numeral := by
    rw [hlabel, htext] at htext'
    exact (List.append_cancel_right htext').symm
  have hread := hexact'.reads
  rw [hsame, hexact.reads] at hread
  exact (Except.ok.inj hread).symm

theorem percentLabel_exact_fraction : (13.89 : Double).isFinite = true ∧
    percentLabel 13.89 = "13.89%" ∧ ExactNumeral ['1', '3', '.', '8', '9'] 13.89 := by
  have hfinite : (13.89 : Double).isFinite = true := by decide +kernel
  have hlabel : percentLabel 13.89 = "13.89%" := by decide +kernel
  obtain ⟨⟨numeral, htext, hexact⟩, _⟩ := percentLabel_exact hfinite
  rw [hlabel] at htext
  have hnumeral : ['1', '3', '.', '8', '9'] = numeral := List.append_cancel_right htext
  exact ⟨hfinite, hlabel, hnumeral ▸ hexact⟩

end StabilityChart

end BenchCharts
