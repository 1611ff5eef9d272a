import BenchCharts.Proofs.Binary.Rank
import BenchCharts.Proofs.Decimal.Value

/-!
# Literals

The texts of floating-point values, said without a reader.  `DecimalText` relates digits
with a point and an exponent to the decimal number that they write, `NumberText` a whole
text to its value.

`readNumber` answers the value of a literal and refuses every other text
(`readNumber_eq_ok_iff`, `readNumber_eq_error_iff`); a text has one value at most.  The value
of a decimal number is the nearest one that the format holds, or the infinity of its sign if
it is too large (`rank_toBinary`).
-/

namespace BenchCharts

open Binary

namespace Scientific

/-! ## Decimal numbers -/

/-- Nothing, or the letter of an exponent and an integer. -/
inductive ExponentText : List Char → Int → Prop where
  | none : ExponentText [] 0
  | unsigned {letter : Char} {ds : List Char} : letter = 'e' ∨ letter = 'E' → ds ≠ [] →
      (∀ c ∈ ds, c.isDigit = true) → ExponentText (letter :: ds) (Nat.ofDigitChars 10 ds 0)
  | plus {letter : Char} {ds : List Char} : letter = 'e' ∨ letter = 'E' → ds ≠ [] →
      (∀ c ∈ ds, c.isDigit = true) → ExponentText (letter :: '+' :: ds) (Nat.ofDigitChars 10 ds 0)
  | minus {letter : Char} {ds : List Char} : letter = 'e' ∨ letter = 'E' → ds ≠ [] →
      (∀ c ∈ ds, c.isDigit = true) →
      ExponentText (letter :: '-' :: ds) (-(Nat.ofDigitChars 10 ds 0 : Int))

/-- Digits, with a point among them or without one, and an exponent.  A point can stand in
front of all digits or behind them. -/
inductive DecimalText : List Char → Scientific → Prop where
  | whole {whole exponent : List Char} {e : Int} : whole ≠ [] →
      (∀ c ∈ whole, c.isDigit = true) → ExponentText exponent e →
      DecimalText (whole ++ exponent) ⟨Nat.ofDigitChars 10 whole 0, e⟩
  | point {whole part exponent : List Char} {e : Int} : whole ≠ [] ∨ part ≠ [] →
      (∀ c ∈ whole, c.isDigit = true) → (∀ c ∈ part, c.isDigit = true) →
      ExponentText exponent e →
      DecimalText (whole ++ '.' :: (part ++ exponent))
        ⟨Nat.ofDigitChars 10 (whole ++ part) 0, e - part.length⟩

/-! ## Reading decimal numbers -/

variable {cs ds : List Char} {e : Int} {n : Nat}

theorem digits?_eq_some_iff : digits? cs = some n ↔
    cs ≠ [] ∧ (∀ c ∈ cs, c.isDigit = true) ∧ n = Nat.ofDigitChars 10 cs 0 := by
  simp only [digits?, List.all_eq_true, Option.ite_none_right_eq_some, Option.some.injEq,
    @eq_comm _ _ n, and_assoc]

/-- Digits begin with no sign. -/
theorem signedDigits?_of_digits (hds : ∀ c ∈ ds, c.isDigit = true) :
    signedDigits? ds = (digits? ds).map Int.ofNat := by
  unfold signedDigits?
  split
  · exact absurd (hds _ List.mem_cons_self) (by decide)
  · exact absurd (hds _ List.mem_cons_self) (by decide)
  · rfl

theorem exponent?_of_text (h : ExponentText cs e) : exponent? cs = some e := by
  cases h with
  | none => rfl
  | unsigned hletter hne hds =>
    rw [exponent?, if_pos hletter, signedDigits?_of_digits hds,
      digits?_eq_some_iff.mpr ⟨hne, hds, rfl⟩]
    rfl
  | plus hletter hne hds =>
    rw [exponent?, if_pos hletter, signedDigits?, digits?_eq_some_iff.mpr ⟨hne, hds, rfl⟩]
    rfl
  | minus hletter hne hds =>
    rw [exponent?, if_pos hletter, signedDigits?, digits?_eq_some_iff.mpr ⟨hne, hds, rfl⟩]
    rfl

theorem exponentText_of_signedDigits? {letter : Char} (hletter : letter = 'e' ∨ letter = 'E')
    (h : signedDigits? cs = some e) : ExponentText (letter :: cs) e := by
  unfold signedDigits? at h
  split at h <;>
    obtain ⟨n, hn, rfl⟩ := Option.map_eq_some_iff.mp h <;>
    obtain ⟨hne, hds, rfl⟩ := digits?_eq_some_iff.mp hn
  · exact .plus hletter hne hds
  · exact .minus hletter hne hds
  · exact .unsigned hletter hne hds

theorem exponent?_eq_some_iff : exponent? cs = some e ↔ ExponentText cs e := by
  refine ⟨fun h => ?_, exponent?_of_text⟩
  cases cs with
  | nil =>
    cases h
    exact .none
  | cons letter cs =>
    rw [exponent?] at h
    split at h
    · next hletter => exact exponentText_of_signedDigits? hletter h
    · cases h

/-- An exponent begins with its letter. -/
theorem ExponentText.head (h : ExponentText cs e) {c : Char} {rest : List Char}
    (hcs : cs = c :: rest) : c = 'e' ∨ c = 'E' := by
  subst hcs
  cases h <;> assumption

theorem spanDigits_append (hds : ∀ c ∈ ds, c.isDigit = true) {rest : List Char}
    (hrest : ∀ c cs, rest = c :: cs → c.isDigit = false) :
    spanDigits (ds ++ rest) = (ds, rest) := by
  rw [spanDigits, List.takeWhile_append_of_pos hds, List.dropWhile_append_of_pos hds]
  cases rest with
  | nil => simp
  | cons c cs => simp [hrest c cs rfl]

theorem spanDigits_append_exponent (hds : ∀ c ∈ ds, c.isDigit = true) (h : ExponentText cs e) :
    spanDigits (ds ++ cs) = (ds, cs) := by
  refine spanDigits_append hds fun c rest hcs => ?_
  rcases h.head hcs with rfl | rfl <;> decide

theorem ofChars?_of_text {x : Scientific} (h : DecimalText cs x) : ofChars? cs = some x := by
  cases h with
  | @whole whole exponent e hne hwhole hexponent =>
    have hfraction : fraction exponent = ([], exponent) := by
      unfold fraction
      split
      · rcases hexponent.head rfl with hletter | hletter <;> cases hletter
      · rfl
    simp only [ofChars?, spanDigits_append_exponent hwhole hexponent, hfraction, hne, false_and,
      if_false, exponent?_of_text hexponent, List.append_nil]
    simp
  | @point whole part exponent e hne hwhole hpart hexponent =>
    have hspan : spanDigits (whole ++ '.' :: (part ++ exponent))
        = (whole, '.' :: (part ++ exponent)) := by
      apply spanDigits_append hwhole
      rintro c cs ⟨rfl, rfl⟩
      decide
    have hfraction : fraction ('.' :: (part ++ exponent)) = (part, exponent) :=
      spanDigits_append_exponent hpart hexponent
    have hsome : ¬(whole = [] ∧ part = []) := fun hnone => hne.elim (· hnone.1) (· hnone.2)
    simp only [ofChars?, hspan, hfraction, if_neg hsome, exponent?_of_text hexponent]
    rfl

theorem isDigit_of_mem_spanDigits : ∀ c ∈ (spanDigits cs).1, c.isDigit = true :=
  List.all_eq_true.mp List.all_takeWhile

theorem spanDigits_fst_append_snd (cs : List Char) :
    (spanDigits cs).1 ++ (spanDigits cs).2 = cs :=
  List.takeWhile_append_dropWhile

theorem fraction_cases (cs : List Char) :
    (∃ part, cs = '.' :: part ∧ fraction cs = spanDigits part) ∨ fraction cs = ([], cs) := by
  unfold fraction
  split
  · next part => exact .inl ⟨part, rfl, rfl⟩
  · exact .inr rfl

/-- A decimal number is read from the texts that write it. -/
theorem ofChars?_eq_some_iff {x : Scientific} : ofChars? cs = some x ↔ DecimalText cs x := by
  refine ⟨fun h => ?_, ofChars?_of_text⟩
  have hcs := spanDigits_fst_append_snd cs
  have hwhole : ∀ c ∈ (spanDigits cs).1, c.isDigit = true := isDigit_of_mem_spanDigits
  simp only [ofChars?] at h
  split at h
  · cases h
  · next hsome =>
    obtain ⟨e, he, rfl⟩ := Option.map_eq_some_iff.mp h
    have hexponent := exponent?_eq_some_iff.mp he
    generalize (spanDigits cs).1 = whole at *
    generalize (spanDigits cs).2 = rest at *
    rcases fraction_cases rest with ⟨part, rfl, hfraction⟩ | hfraction <;>
      rw [hfraction] at hsome hexponent ⊢
    · have hpoint := DecimalText.point (not_and_or.mp hsome) hwhole isDigit_of_mem_spanDigits
        hexponent
      rwa [spanDigits_fst_append_snd, hcs] at hpoint
    · have hne : whole ≠ [] := fun hnil => hsome ⟨hnil, rfl⟩
      rw [← hcs, List.append_nil, List.length_nil, Int.natCast_zero, Int.sub_zero]
      exact .whole hne hwhole hexponent

/-! ## Values -/

/-- What a decimal number is read as: the nearest value, and from the overflow limit on the
infinity. -/
theorem rank_toBinary {f : Format} (negative : Bool) (x : Scientific) :
    (x.toBinary negative : Binary f).rank
        = some (signed negative (min (f.magnitude x.value) (2 ^ f.limit))) ∧
      (x.toBinary negative : Binary f).isNegative = negative := by
  rw [toBinary_eq_ofUnits]
  constructor
  · rw [rank_ofUnits, ← signed_nearestUnits, Format.nearestUnits, units,
      Format.magnitude_of_eq_div (Nat.pow_pos (by decide)) x.value_eq_div]
  · unfold ofUnits
    dsimp only
    split <;> rfl

end Scientific

/-! ## Numbers -/

open Scientific

section

variable {f : Format}

/-- A number behind its sign. -/
inductive MagnitudeText (negative : Bool) : List Char → Binary f → Prop where
  | decimal {cs : List Char} {x : Scientific} : DecimalText cs x →
      MagnitudeText negative cs (x.toBinary negative)
  | infinite {cs : List Char} : lowerCase cs = ['i', 'n', 'f'] ∨
      lowerCase cs = ['i', 'n', 'f', 'i', 'n', 'i', 't', 'y'] →
      MagnitudeText negative cs (.infinite negative)
  | nan {cs : List Char} : lowerCase cs = ['n', 'a', 'n'] → MagnitudeText negative cs .nan

/-- A floating-point value with a sign in front of it or without one. -/
inductive NumberText : List Char → Binary f → Prop where
  | unsigned {cs : List Char} {x : Binary f} : MagnitudeText false cs x → NumberText cs x
  | plus {cs : List Char} {x : Binary f} : MagnitudeText false cs x → NumberText ('+' :: cs) x
  | minus {cs : List Char} {x : Binary f} : MagnitudeText true cs x → NumberText ('-' :: cs) x

/-- What is wrong with a text that is no number. -/
def NumberFails (f : Format) (cs : List Char) (e : NumberError) : Prop :=
  (∀ x : Binary f, ¬NumberText cs x) ∧ e = if cs = [] then .empty else .malformed

variable {negative : Bool} {c : Char} {cs : List Char} {x : Binary f}

/-! ## Reading numbers -/

theorem decimalText_head {x : Scientific} (h : DecimalText (c :: cs) x) :
    c.isDigit = true ∨ c = '.' := by
  generalize hcs : c :: cs = text at h
  cases h with
  | whole hne hwhole =>
    obtain ⟨d, ds, rfl⟩ := List.exists_cons_of_ne_nil hne
    exact .inl ((List.cons.inj hcs).1 ▸ hwhole d List.mem_cons_self)
  | @point whole _ _ _ _ hwhole =>
    cases whole with
    | nil => exact .inr (List.cons.inj hcs).1
    | cons d ds => exact .inl ((List.cons.inj hcs).1 ▸ hwhole d List.mem_cons_self)

theorem ne_sign_of_magnitudeText (h : MagnitudeText negative (c :: cs) x) :
    c ≠ '+' ∧ c ≠ '-' := by
  have hname : ∀ {letter : Char} {name : List Char}, lowerCase (c :: cs) = letter :: name →
      letter ≠ '+' ∧ letter ≠ '-' → c ≠ '+' ∧ c ≠ '-' := by
    intro letter name hlower hletter
    obtain rfl : c.toLower = letter := (List.cons.inj hlower).1
    refine ⟨?_, ?_⟩ <;> rintro rfl
    · exact hletter.1 rfl
    · exact hletter.2 rfl
  cases h with
  | decimal hdecimal =>
    rcases decimalText_head hdecimal with hdigit | rfl
    · refine ⟨?_, ?_⟩ <;> rintro rfl <;> cases hdigit
    · decide
  | infinite hlower => rcases hlower with hlower | hlower <;> exact hname hlower (by decide)
  | nan hlower => exact hname hlower (by decide)

/-- A name begins with a letter, and a decimal number does not. -/
theorem ofChars?_of_lowerCase {letter : Char} {name : List Char}
    (hletter : letter = 'i' ∨ letter = 'n') (h : lowerCase cs = letter :: name) :
    ofChars? cs = none := by
  obtain ⟨c, rest, rfl, hc, -⟩ := List.map_eq_cons_iff.mp h
  apply Option.eq_none_iff_forall_ne_some.mpr
  intro x hx
  rcases decimalText_head (ofChars?_eq_some_iff.mp hx) with hdigit | rfl
  · have hlow : c.toNat ≤ 57 := (Char.isDigit_iff_toNat.mp hdigit).2
    have hlower : c.toLower = c := by
      refine dif_neg fun hupper => ?_
      have hle : 65 ≤ c.toNat := UInt32.le_iff_toNat_le.mp hupper.1
      omega
    obtain rfl : c = letter := hlower.symm.trans hc
    rcases hletter with rfl | rfl <;> cases hdigit
  · rcases hletter with rfl | rfl <;> cases hc

theorem readMagnitude?_of_text (h : MagnitudeText negative cs x) :
    readMagnitude? negative cs = some x := by
  cases h with
  | decimal hdecimal => rw [readMagnitude?, ofChars?_of_text hdecimal]
  | infinite hname =>
    have hnone : ofChars? cs = none := by
      rcases hname with hname | hname <;> exact ofChars?_of_lowerCase (.inl rfl) hname
    simp only [readMagnitude?, hnone, if_pos hname]
  | nan hname =>
    simp only [readMagnitude?, ofChars?_of_lowerCase (.inr rfl) hname, hname]
    simp

theorem readMagnitude?_eq_some_iff :
    readMagnitude? negative cs = some x ↔ MagnitudeText negative cs x := by
  refine ⟨fun h => ?_, readMagnitude?_of_text⟩
  unfold readMagnitude? at h
  split at h
  · next hdecimal =>
    cases h
    exact .decimal (ofChars?_eq_some_iff.mp hdecimal)
  · simp only at h
    split at h
    · next hname =>
      cases h
      exact .infinite hname
    · split at h
      · next hname =>
        cases h
        exact .nan hname
      · cases h

/-- Text of a magnitude is read, and no other is. -/
theorem elim_readMagnitude?_eq_ok_iff :
    (readMagnitude? negative cs).elim (Except.error NumberError.malformed) Except.ok = .ok x
      ↔ MagnitudeText negative cs x := by
  rw [← readMagnitude?_eq_some_iff]
  cases (readMagnitude? negative cs : Option (Binary f)) <;> simp

/-- A text is read as the value that it writes. -/
theorem readNumber_eq_ok_iff : readNumber cs = .ok x ↔ NumberText cs x := by
  unfold readNumber
  simp only
  split
  · refine iff_of_false nofun ?_
    rintro ⟨hmagnitude⟩
    exact nomatch readMagnitude?_of_text hmagnitude
  · rw [elim_readMagnitude?_eq_ok_iff]
    refine ⟨.plus, ?_⟩
    rintro (hmagnitude | hmagnitude)
    · exact absurd rfl (ne_sign_of_magnitudeText hmagnitude).1
    · exact hmagnitude
  · rw [elim_readMagnitude?_eq_ok_iff]
    refine ⟨.minus, ?_⟩
    rintro (hmagnitude | _ | hmagnitude)
    · exact absurd rfl (ne_sign_of_magnitudeText hmagnitude).2
    · exact hmagnitude
  · next hplus hminus =>
    rw [elim_readMagnitude?_eq_ok_iff]
    refine ⟨.unsigned, ?_⟩
    rintro (hmagnitude | _ | _)
    · exact hmagnitude
    · exact absurd rfl (hplus _)
    · exact absurd rfl (hminus _)

theorem eq_of_readNumber_error {e : NumberError}
    (h : (readNumber cs : Except NumberError (Binary f)) = .error e) :
    e = if cs = [] then .empty else .malformed := by
  have hkind : ∀ {o : Option (Binary f)},
      o.elim (Except.error NumberError.malformed) Except.ok = .error e → e = .malformed := by
    intro o ho
    cases o <;> cases ho
    rfl
  unfold readNumber at h
  simp only at h
  split at h
  · cases h
    rfl
  · exact hkind h
  · exact hkind h
  · next hnil _ _ => rw [if_neg hnil, hkind h]

/-- Every other text is refused. -/
theorem readNumber_eq_error_iff {e : NumberError} :
    (readNumber cs : Except NumberError (Binary f)) = .error e ↔ NumberFails f cs e := by
  constructor
  · intro h
    refine ⟨fun x hx => ?_, eq_of_readNumber_error h⟩
    cases h.symm.trans (readNumber_eq_ok_iff.mpr hx)
  · rintro ⟨hnone, rfl⟩
    cases hread : (readNumber cs : Except NumberError (Binary f)) with
    | ok x => exact absurd (readNumber_eq_ok_iff.mp hread) (hnone x)
    | error e => rw [eq_of_readNumber_error hread]

end

end BenchCharts
