import BenchCharts.Proofs.Decimal.Literal
import BenchCharts.Proofs.Decimal.Search
import BenchCharts.Proofs.Decimal.Shortest

/-!
# Numerals

A numeral is digits with a point among them.  Its digits are significant from the first to
the last that is not a zero; their number is the least number of digits that its value has
(`hasDigits_digits_iff`).
-/

namespace BenchCharts

open Binary

/-! ## Values of digits -/

section

variable {cs : List Char}

theorem ofDigitChars_lt (h : ∀ c ∈ cs, c.isDigit = true) :
    Nat.ofDigitChars 10 cs 0 < 10 ^ cs.length := by
  induction cs with
  | nil => decide
  | cons c cs ih =>
    obtain ⟨hc, hcs⟩ := List.forall_mem_cons.mp h
    have hnine : c.toNat ≤ 57 := (Char.isDigit_iff_toNat.mp hc).2
    have hdigit : c.toNat - '0'.toNat ≤ 9 := by
      show c.toNat - 48 ≤ 9
      omega
    have hscaled := Nat.mul_le_mul_left (10 ^ cs.length) hdigit
    have htail := ih hcs
    rw [Nat.ofDigitChars_cons, Nat.ofDigitChars_eq_ofDigitChars_zero, List.length_cons,
      Nat.mul_zero, Nat.zero_add, Nat.pow_succ]
    omega

theorem le_ofDigitChars_of_head {c : Char} (hc : c.isDigit = true) (hzero : c ≠ '0') :
    10 ^ cs.length ≤ Nat.ofDigitChars 10 (c :: cs) 0 := by
  have hge : 48 ≤ c.toNat := (Char.isDigit_iff_toNat.mp hc).1
  have hne : c.toNat ≠ 48 := fun heq => hzero (Char.toNat_inj.mp heq)
  have hdigit : 1 ≤ c.toNat - '0'.toNat := by
    show 1 ≤ c.toNat - 48
    omega
  have hscaled := Nat.mul_le_mul_left (10 ^ cs.length) hdigit
  rw [Nat.ofDigitChars_cons, Nat.ofDigitChars_eq_ofDigitChars_zero, Nat.mul_zero, Nat.zero_add]
  omega

/-- The last digit is the rest over ten. -/
theorem ofDigitChars_concat_mod {c : Char} (hc : c.isDigit = true) (hzero : c ≠ '0') :
    Nat.ofDigitChars 10 (cs ++ [c]) 0 % 10 ≠ 0 := by
  obtain ⟨hge, hle⟩ : 48 ≤ c.toNat ∧ c.toNat ≤ 57 := Char.isDigit_iff_toNat.mp hc
  have hne : c.toNat ≠ 48 := fun heq => hzero (Char.toNat_inj.mp heq)
  rw [Nat.ofDigitChars_append, Nat.ofDigitChars_cons, Nat.ofDigitChars_nil]
  show (10 * _ + (c.toNat - 48)) % 10 ≠ 0
  omega

theorem exists_eq_replicate_append (cs : List Char) :
    ∃ n, cs = List.replicate n '0' ++ cs.dropWhile (· = '0') := by
  have hzeros : cs.takeWhile (· = '0') = List.replicate (cs.takeWhile (· = '0')).length '0' := by
    apply List.eq_replicate_of_mem
    intro c hc
    exact of_decide_eq_true (List.all_eq_true.mp List.all_takeWhile c hc)
  refine ⟨(cs.takeWhile (· = '0')).length, ?_⟩
  rw [← hzeros, List.takeWhile_append_dropWhile]

namespace Scientific

theorem exists_eq_append_replicate (cs : List Char) :
    ∃ n, cs = dropTrailingZeros cs ++ List.replicate n '0' := by
  obtain ⟨n, hn⟩ := exists_eq_replicate_append cs.reverse
  refine ⟨n, ?_⟩
  have hreversed := congrArg List.reverse hn
  rwa [List.reverse_reverse, List.reverse_append, List.reverse_replicate] at hreversed

/-- What is left does not end in a zero. -/
theorem ne_zero_of_concat_dropTrailingZeros {ds : List Char} {c : Char}
    (h : dropTrailingZeros cs = ds ++ [c]) : c ≠ '0' := by
  have hhead := List.head?_dropWhile_not (· = '0') cs.reverse
  have hreversed : cs.reverse.dropWhile (· = '0') = c :: ds.reverse := by
    rw [← List.reverse_inj, ← dropTrailingZeros, h]
    simp
  rw [hreversed, List.head?_cons] at hhead
  exact of_decide_eq_false hhead

/-- The digits from the first to the last that is not a zero. -/
def significant (cs : List Char) : List Char :=
  dropTrailingZeros (cs.dropWhile (· = '0'))

theorem exists_ofDigitChars_eq (cs : List Char) :
    ∃ n : Nat, Nat.ofDigitChars 10 cs 0 = 10 ^ n * Nat.ofDigitChars 10 (significant cs) 0 := by
  obtain ⟨_, hleading⟩ := exists_eq_replicate_append cs
  obtain ⟨n, htrailing⟩ := exists_eq_append_replicate (cs.dropWhile (· = '0'))
  refine ⟨n, ?_⟩
  calc Nat.ofDigitChars 10 cs 0 = Nat.ofDigitChars 10 (cs.dropWhile (· = '0')) 0 := by
        conv_lhs => rw [hleading]
        rw [Nat.ofDigitChars_append, Nat.ofDigitChars_replicate_zero, Nat.mul_zero]
    _ = 10 ^ n * Nat.ofDigitChars 10 (significant cs) 0 := by
        conv_lhs => rw [htrailing]
        rw [Nat.ofDigitChars_append, Nat.ofDigitChars_replicate_zero, significant]

section

variable (h : ∀ c ∈ cs, c.isDigit = true)

include h

theorem isDigit_of_mem_significant {c : Char} (hc : c ∈ significant cs) : c.isDigit = true :=
  h c ((List.dropWhile_suffix _).subset (mem_of_mem_dropTrailingZeros hc))

/-- Significant digits begin and end with a digit that is not zero. -/
theorem significant_bounds (hne : significant cs ≠ []) :
    10 ^ ((significant cs).length - 1) ≤ Nat.ofDigitChars 10 (significant cs) 0 ∧
      Nat.ofDigitChars 10 (significant cs) 0 % 10 ≠ 0 := by
  constructor
  · obtain ⟨c, ds, hcons⟩ := List.exists_cons_of_ne_nil hne
    have hc := isDigit_of_mem_significant h (hcons ▸ List.mem_cons_self)
    have hzero : c ≠ '0' := by
      obtain ⟨_, htrailing⟩ := exists_eq_append_replicate (cs.dropWhile (· = '0'))
      have hhead := List.head?_dropWhile_not (· = '0') cs
      rw [← significant, hcons, List.cons_append] at htrailing
      rw [htrailing, List.head?_cons] at hhead
      exact of_decide_eq_false hhead
    rw [hcons]
    exact le_ofDigitChars_of_head hc hzero
  · obtain hnil | ⟨ds, c, hconcat⟩ := List.eq_nil_or_concat (significant cs)
    · exact absurd hnil hne
    · rw [List.concat_eq_append] at hconcat
      have hc := isDigit_of_mem_significant h (hconcat ▸ List.mem_concat_self)
      have hzero := ne_zero_of_concat_dropTrailingZeros hconcat
      rw [hconcat]
      exact ofDigitChars_concat_mod hc hzero

/-- The number of significant digits is the least number of digits that the value has. -/
theorem hasDigits_digits_iff {e : Int} {n : Nat} :
    HasDigits n (Nat.ofDigitChars 10 cs 0 * 10 ^ e) ↔ (significant cs).length ≤ n := by
  obtain ⟨i, hi⟩ := exists_ofDigitChars_eq cs
  have hvalue : (Nat.ofDigitChars 10 cs 0 : ℚ) * 10 ^ e
      = Nat.ofDigitChars 10 (significant cs) 0 * 10 ^ (i + e) := by
    rw [hi, Nat.mul_comm, Nat.cast_mul, mul_assoc, ten_zpow_add]
  rw [hvalue]
  constructor
  · rintro ⟨k, e', hk, hsame⟩
    rcases eq_or_ne (significant cs) [] with hnil | hne
    · rw [hnil]
      exact Nat.zero_le n
    obtain ⟨hlow, hlast⟩ := significant_bounds h hne
    have hmost : Nat.ofDigitChars 10 (significant cs) 0 ≤ k := by
      rcases Int.le_total e' (i + e) with hle | hle
      · -- the other number has zeros behind the significant digits
        obtain ⟨j, rfl⟩ := exists_eq_mul_ten_pow hsame hle
        exact Nat.le_mul_of_pos_right _ (Nat.pow_pos (by decide))
      · -- the significant digits do not end in a zero
        obtain ⟨j, hj⟩ := exists_eq_mul_ten_pow hsame.symm hle
        rcases Nat.eq_zero_or_pos j with rfl | hpos
        · rw [hj, Nat.pow_zero, Nat.mul_one]
        · refine absurd ?_ hlast
          rw [hj]
          exact Nat.mod_eq_zero_of_dvd (Nat.dvd_mul_left_of_dvd (dvd_pow_self 10 (by omega)) k)
    have hlength := (Nat.pow_lt_pow_iff_right (by decide)).mp
      (Nat.lt_of_le_of_lt (Nat.le_trans hlow hmost) hk)
    omega
  · intro hle
    refine ⟨_, _, ?_, rfl⟩
    exact Nat.lt_of_lt_of_le (ofDigitChars_lt fun c => isDigit_of_mem_significant h)
      (Nat.pow_le_pow_right (by decide) hle)

end

end Scientific

end

/-! ## Reading numerals -/

/-- A numeral with a sign is read as the magnitude of its value. -/
theorem readNumber_numeral {f : Format} {negative : Bool} {m : Nat} {fits : f.Fits m}
    {whole part : List Char} (hne : whole ≠ []) (hwhole : ∀ c ∈ whole, c.isDigit = true)
    (hpart : ∀ c ∈ part, c.isDigit = true)
    (hvalue : f.magnitude (Nat.ofDigitChars 10 (whole ++ part) 0 * 10 ^ (-part.length : Int)) = m) :
    readNumber (signChars negative ++ whole ++ '.' :: part) = .ok (.finite negative m fits) := by
  have hdecimal := Scientific.DecimalText.point (.inl hne) hwhole hpart .none
  rw [List.append_nil, Int.zero_sub] at hdecimal
  have hbinary : (Scientific.mk (Nat.ofDigitChars 10 (whole ++ part) 0) (-part.length)).toBinary
      negative = .finite negative m fits :=
    (Scientific.toBinary_eq_finite_iff _).mpr ⟨rfl, hvalue⟩
  have hmagnitude : MagnitudeText negative (whole ++ '.' :: part) (.finite negative m fits) :=
    hbinary ▸ .decimal hdecimal
  apply readNumber_eq_ok_iff.mpr
  rw [List.append_assoc]
  cases negative with
  | true => exact .minus hmagnitude
  | false => exact .unsigned hmagnitude

/-! ## Significant digits of a text -/

/-- The digits of a text in front of its exponent. -/
def significand (cs : List Char) : List Char :=
  (cs.takeWhile fun c => c ≠ 'e' ∧ c ≠ 'E').filter Char.isDigit

/-- The number of significant digits of a text. -/
def digitCount (cs : List Char) : Nat :=
  (Scientific.significant (significand cs)).length

theorem significand_cons_of_ne {c : Char} (hdigit : c.isDigit = false) (he : c ≠ 'e')
    (hE : c ≠ 'E') (cs : List Char) : significand (c :: cs) = significand cs := by
  simp [significand, hdigit, he, hE]

theorem significand_append {ds : List Char} (hds : ∀ c ∈ ds, c.isDigit = true) (cs : List Char) :
    significand (ds ++ cs) = ds ++ significand cs := by
  have hmark : ∀ c ∈ ds, decide (c ≠ 'e' ∧ c ≠ 'E') = true := by
    intro c hc
    have hdigit := hds c hc
    refine decide_eq_true ⟨?_, ?_⟩ <;>
    · rintro rfl
      cases hdigit
  rw [significand, List.takeWhile_append_of_pos hmark, List.filter_append,
    List.filter_eq_self.mpr hds, significand]

theorem significand_signChars (negative : Bool) (cs : List Char) :
    significand (signChars negative ++ cs) = significand cs := by
  cases negative with
  | false => rfl
  | true => exact significand_cons_of_ne (by decide) (by decide) (by decide) cs

/-- The digits of a numeral are those on both sides of its point. -/
theorem significand_numeral {negative : Bool} {whole part : List Char}
    (hwhole : ∀ c ∈ whole, c.isDigit = true) (hpart : ∀ c ∈ part, c.isDigit = true) :
    significand (signChars negative ++ whole ++ '.' :: part) = whole ++ part := by
  have hnil := significand_append hpart []
  rw [List.append_nil] at hnil
  rw [List.append_assoc, significand_signChars, significand_append hwhole,
    significand_cons_of_ne (by decide) (by decide) (by decide), hnil]
  congr 1
  exact List.append_nil part

namespace Scientific

theorem significand_of_exponent? {cs : List Char} {e : Int} (h : exponent? cs = some e) :
    significand cs = [] := by
  cases cs with
  | nil => rfl
  | cons c cs =>
    rw [exponent?] at h
    split at h
    · rename_i hletter
      rcases hletter with rfl | rfl <;> rfl
    · cases h

theorem significand_spanDigits (cs : List Char) :
    significand cs = (spanDigits cs).1 ++ significand (spanDigits cs).2 := by
  rw [← significand_append isDigit_of_mem_spanDigits, spanDigits_fst_append_snd]

theorem significand_fraction (cs : List Char) :
    (∀ c ∈ (fraction cs).1, c.isDigit = true) ∧
      significand cs = (fraction cs).1 ++ significand (fraction cs).2 := by
  unfold fraction
  split
  · rename_i cs
    refine ⟨isDigit_of_mem_spanDigits, ?_⟩
    rw [significand_cons_of_ne (by decide) (by decide) (by decide), significand_spanDigits]
  · exact ⟨nofun, rfl⟩

/-- A text has at least as many significant digits as its value. -/
theorem hasDigits_of_ofChars? {cs : List Char} {x : Scientific} (h : ofChars? cs = some x) :
    HasDigits (digitCount cs) x.value := by
  unfold ofChars? at h
  simp only at h
  split at h
  · cases h
  · obtain ⟨e, he, rfl⟩ := Option.map_eq_some_iff.mp h
    obtain ⟨hpart, hfraction⟩ := significand_fraction (spanDigits cs).2
    have hdigits : ∀ c ∈ (spanDigits cs).1 ++ (fraction (spanDigits cs).2).1, c.isDigit = true :=
      List.forall_mem_append.mpr ⟨isDigit_of_mem_spanDigits, hpart⟩
    apply (hasDigits_digits_iff hdigits).mpr
    rw [digitCount, significand_spanDigits, hfraction, significand_of_exponent? he,
      List.append_nil]

end Scientific

/-- What is read as a finite value has digits. -/
theorem exists_of_readNumber {f : Format} {cs : List Char} {negative : Bool} {m : Nat}
    {fits : f.Fits m} (h : readNumber cs = .ok (.finite negative m fits)) :
    ∃ q, HasDigits (digitCount cs) q ∧ f.magnitude q = m := by
  have hread : ∀ (sign : Bool) (ds : List Char),
      (readMagnitude? sign ds).elim (Except.error NumberError.malformed) Except.ok
        = .ok (.finite negative m fits) →
      ∃ q, HasDigits (digitCount ds) q ∧ f.magnitude q = m := by
    intro sign ds hds
    unfold readMagnitude? at hds
    split at hds
    · rename_i x hx
      exact ⟨x.value, Scientific.hasDigits_of_ofChars? hx,
        (x.toBinary_eq_finite_iff.mp (Except.ok.inj hds)).2⟩
    · simp only at hds
      split at hds
      · cases hds
      · split at hds <;> cases hds
  unfold readNumber at h
  simp only at h
  split at h
  · cases h
  · rename_i rest
    rw [digitCount, significand_cons_of_ne (by decide) (by decide) (by decide)]
    exact hread false rest h
  · rename_i rest
    rw [digitCount, significand_cons_of_ne (by decide) (by decide) (by decide)]
    exact hread true rest h
  · exact hread false cs h

/-! ## Writing numerals -/

namespace Scientific

theorem ofDigitChars_paddedDigits (width n : Nat) :
    Nat.ofDigitChars 10 (paddedDigits width n) 0 = n := by
  rw [paddedDigits, Nat.ofDigitChars_append, Nat.ofDigitChars_replicate_zero, Nat.mul_zero,
    Nat.ofDigitChars_ten_toDigits]

theorem length_paddedDigits {width n : Nat} (hwidth : 0 < width) (h : n < 10 ^ width) :
    (paddedDigits width n).length = width := by
  have hlength := (Nat.length_toDigits_le_iff (by decide) hwidth).mpr h
  rw [paddedDigits, List.length_append, List.length_replicate]
  omega

/-- The digits on both sides of a point are those of the number. -/
theorem places_spec {count : Nat} (hcount : 0 < count) (n : Nat) :
    Nat.ofDigitChars 10 ((places count n).1 ++ (places count n).2) 0 = n ∧
      (places count n).2.length = count := by
  have hlt : n % 10 ^ count < 10 ^ count := Nat.mod_lt n (Nat.pow_pos (by decide))
  rw [places, if_neg (Nat.ne_of_gt hcount)]
  refine ⟨?_, length_paddedDigits hcount hlt⟩
  rw [Nat.ofDigitChars_append, Nat.ofDigitChars_ten_toDigits,
    Nat.ofDigitChars_eq_ofDigitChars_zero, ofDigitChars_paddedDigits,
    length_paddedDigits hcount hlt]
  exact Nat.div_add_mod n (10 ^ count)

theorem withPoint_of_ne_nil (whole : List Char) {part : List Char} (h : part ≠ []) :
    withPoint (whole, part) = whole ++ '.' :: part := by
  obtain ⟨c, cs, rfl⟩ := List.exists_cons_of_ne_nil h
  rfl

/-- Zeros at the end of a fraction do not change the value. -/
theorem value_dropTrailingZeros (whole part : List Char) :
    (Nat.ofDigitChars 10 (whole ++ part) 0 : ℚ) * 10 ^ (-part.length : Int)
      = Nat.ofDigitChars 10 (whole ++ dropTrailingZeros part) 0
        * 10 ^ (-(dropTrailingZeros part).length : Int) := by
  obtain ⟨n, hn⟩ := exists_eq_append_replicate part
  have hlength : part.length = (dropTrailingZeros part).length + n := by
    conv_lhs => rw [hn]
    rw [List.length_append, List.length_replicate]
  have hdigits : Nat.ofDigitChars 10 (whole ++ part) 0
      = Nat.ofDigitChars 10 (whole ++ dropTrailingZeros part) 0 * 10 ^ n := by
    conv_lhs => rw [hn]
    rw [← List.append_assoc, Nat.ofDigitChars_append, Nat.ofDigitChars_replicate_zero,
      Nat.mul_comm]
  rw [hdigits, Nat.cast_mul, mul_assoc, ten_zpow_add, hlength]
  congr 2
  omega

end Scientific

end BenchCharts
