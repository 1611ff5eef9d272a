import Mathlib.Data.List.Forall2
import Mathlib.Data.Nat.Digits.Defs
import BenchCharts.Proofs.Except
import BenchCharts.ResourceLog.Field

/-!
# Reading seconds

A text is a number of seconds if it is a numeral (`IsSeconds`), and it is read if that number
is below `2 ^ 64` (`readSeconds_eq_ok_iff`).

The accumulator of `readDigits` is the value of the digits read so far, and each digit only
makes it larger; so a numeral is refused as too large exactly when its value is, whatever
stands in front of the digit at which it overflows (`readDigits_eq_ok_iff`).  Every number of
seconds is read back from its decimal numeral (`readSeconds_toDigits`).
-/

namespace BenchCharts.ResourceLog

/-! ## Numerals -/

/-- The character is a digit of that value; the letters of either case go on behind the
nine. -/
def IsDigit (radix : Nat) (c : Char) (d : Nat) : Prop :=
  d < radix ∧ (c = Nat.digitChar d ∨ c = (Nat.digitChar d).toUpper)

/-- The characters are digits, the most significant one first, of a number of that value. -/
def HasValue (radix : Nat) (cs : List Char) (n : Nat) : Prop :=
  ∃ digits, List.Forall₂ (IsDigit radix) cs digits ∧ n = Nat.ofDigits radix digits.reverse

/-- One or more digits, after a plus sign or without one. -/
def IsNumeral (radix : Nat) (text : List Char) (n : Nat) : Prop :=
  ∃ sign cs, text = sign ++ cs ∧ (sign = [] ∨ sign = ['+']) ∧ cs ≠ [] ∧ HasValue radix cs n

/-- A decimal numeral, or a hexadecimal one after `0x`. -/
def IsSeconds (text : List Char) (n : Nat) : Prop :=
  IsNumeral 10 text n ∨ ∃ rest, text = '0' :: 'x' :: rest ∧ IsNumeral 16 rest n

/-! ## Faults of numerals -/

/-- What is wrong with digits behind an accumulator: the first character that is none, or
the first digits whose number does not fit, whichever comes first. -/
inductive DigitsFail (radix acc : Nat) : List Char → IntegerError → Prop where
  | invalidDigit {front back : List Char} {c : Char} {m : Nat} : HasValue radix front m →
      acc * radix ^ front.length + m < 2 ^ 64 → (∀ d, ¬IsDigit radix c d) →
      DigitsFail radix acc (front ++ c :: back) .invalidDigit
  | tooLarge {front back : List Char} {m : Nat} : HasValue radix front m →
      2 ^ 64 ≤ acc * radix ^ front.length + m → DigitsFail radix acc (front ++ back) .tooLarge

/-- What is wrong with a text that is no numeral, or one of too large a number. -/
inductive NumeralFails (radix : Nat) : List Char → IntegerError → Prop where
  | empty : NumeralFails radix [] .empty
  | signAlone : NumeralFails radix ['+'] .invalidDigit
  | signed {cs : List Char} {e : IntegerError} : DigitsFail radix 0 cs e →
      NumeralFails radix ('+' :: cs) e
  | unsigned {cs : List Char} {e : IntegerError} : (∀ ds, cs ≠ '+' :: ds) →
      DigitsFail radix 0 cs e → NumeralFails radix cs e

/-- What is wrong with a text that is no number of seconds below `2 ^ 64`. -/
inductive SecondsFail : List Char → IntegerError → Prop where
  | decimal {text : List Char} {e : IntegerError} : (∀ rest, text ≠ '0' :: 'x' :: rest) →
      NumeralFails 10 text e → SecondsFail text e
  | hexadecimal {rest : List Char} {e : IntegerError} : NumeralFails 16 rest e →
      SecondsFail ('0' :: 'x' :: rest) e

/-! ## Digits -/

theorem toNat_digitChar {d : Nat} (h : d < 16) :
    (Nat.digitChar d).toNat = (if d < 10 then 48 + d else 87 + d) ∧
      (Nat.digitChar d).toUpper.toNat = (if d < 10 then 48 + d else 55 + d) := by
  revert d
  decide

theorem isLower_iff_toNat {c : Char} : c.isLower = true ↔ 97 ≤ c.toNat ∧ c.toNat ≤ 122 := by
  refine Bool.and_eq_true_iff.trans (and_congr ?_ ?_)
  · exact decide_eq_true_iff.trans UInt32.le_iff_toNat_le
  · exact decide_eq_true_iff.trans UInt32.le_iff_toNat_le

theorem isUpper_iff_toNat {c : Char} : c.isUpper = true ↔ 65 ≤ c.toNat ∧ c.toNat ≤ 90 := by
  refine decide_eq_true_iff.trans (and_congr ?_ ?_)
  · exact UInt32.le_iff_toNat_le
  · exact UInt32.le_iff_toNat_le

variable {radix : Nat} {c : Char} {cs : List Char} {d n : Nat}

section

variable (hradix : radix ≤ 16)

include hradix

theorem isDigit_iff_toNat : IsDigit radix c d ↔ d < radix ∧
    (c.toNat = (if d < 10 then 48 + d else 87 + d) ∨
      c.toNat = (if d < 10 then 48 + d else 55 + d)) := by
  refine and_congr_right fun hd => ?_
  obtain ⟨hlower, hupper⟩ := toNat_digitChar (Nat.lt_of_lt_of_le hd hradix)
  rw [← hlower, ← hupper, Char.toNat_inj, Char.toNat_inj]

theorem digit?_eq_some_iff : digit? radix c = some d ↔ IsDigit radix c d := by
  rw [isDigit_iff_toNat hradix]
  have hdecimal : c.isDigit = true ↔ 48 ≤ c.toNat ∧ c.toNat ≤ 57 := Char.isDigit_iff_toNat
  simp only [digit?, hdecimal, isLower_iff_toNat, isUpper_iff_toNat, Char.reduceToNat,
    Option.ite_none_right_eq_some, Option.some.injEq]
  generalize c.toNat = n
  repeat' split
  all_goals omega

theorem IsDigit.unique {d' : Nat} (h : IsDigit radix c d) (h' : IsDigit radix c d') : d = d' := by
  rw [← digit?_eq_some_iff hradix] at h h'
  exact Option.some.inj (h.symm.trans h')

/-- Digits are neither a sign nor the letter of the prefix. -/
theorem ne_plus_of_isDigit (h : IsDigit radix c d) : c ≠ '+' := by
  rintro rfl
  obtain ⟨_, hplus | hplus⟩ := (isDigit_iff_toNat hradix).mp h <;>
  · rw [show '+'.toNat = 43 from rfl] at hplus
    split at hplus <;> omega

end

theorem ne_x_of_isDigit (h : IsDigit 10 c d) : c ≠ 'x' := by
  rintro rfl
  obtain ⟨hd, hletter | hletter⟩ := (isDigit_iff_toNat (by decide)).mp h <;>
  · rw [if_pos hd, show 'x'.toNat = 120 from rfl] at hletter
    omega

/-! ## Values of digits -/

theorem hasValue_nil_iff : HasValue radix [] n ↔ n = 0 := by
  constructor
  · rintro ⟨digits, hdigits, rfl⟩
    rw [List.forall₂_nil_left_iff.mp hdigits]
    rfl
  · rintro rfl
    exact ⟨[], .nil, rfl⟩

/-- The first digit counts once for each number that the others can be. -/
theorem hasValue_cons_iff : HasValue radix (c :: cs) n ↔
    ∃ d m, IsDigit radix c d ∧ HasValue radix cs m ∧ n = d * radix ^ cs.length + m := by
  constructor
  · rintro ⟨digits, hdigits, rfl⟩
    obtain ⟨d, ds, hd, hds, rfl⟩ := List.forall₂_cons_left_iff.mp hdigits
    refine ⟨d, _, hd, ⟨ds, hds, rfl⟩, ?_⟩
    rw [Nat.ofDigits_reverse_cons, hds.length_eq, Nat.add_comm, Nat.mul_comm]
  · rintro ⟨d, m, hd, ⟨ds, hds, rfl⟩, rfl⟩
    refine ⟨d :: ds, .cons hd hds, ?_⟩
    rw [Nat.ofDigits_reverse_cons, hds.length_eq, Nat.add_comm, Nat.mul_comm]

theorem HasValue.unique (hradix : radix ≤ 16) {m : Nat} (h : HasValue radix cs n)
    (h' : HasValue radix cs m) : n = m := by
  induction cs generalizing n m with
  | nil => rw [hasValue_nil_iff.mp h, hasValue_nil_iff.mp h']
  | cons c cs ih =>
    obtain ⟨d, k, hd, hk, rfl⟩ := hasValue_cons_iff.mp h
    obtain ⟨d', k', hd', hk', rfl⟩ := hasValue_cons_iff.mp h'
    rw [hd.unique hradix hd', ih hk hk']

/-- Decimal digits have the value by which they are read elsewhere. -/
theorem hasValue_ofDigitChars (h : ∀ c ∈ cs, c.isDigit = true) :
    HasValue 10 cs (Nat.ofDigitChars 10 cs 0) := by
  induction cs with
  | nil => exact hasValue_nil_iff.mpr Nat.ofDigitChars_nil
  | cons c cs ih =>
    obtain ⟨hc, hcs⟩ := List.forall_mem_cons.mp h
    obtain ⟨hlow, hhigh⟩ : 48 ≤ c.toNat ∧ c.toNat ≤ 57 := Char.isDigit_iff_toNat.mp hc
    have hdigit : IsDigit 10 c (c.toNat - 48) := by
      apply (isDigit_iff_toNat (by decide)).mpr
      rw [if_pos (by omega)]
      omega
    refine hasValue_cons_iff.mpr ⟨_, _, hdigit, ih hcs, ?_⟩
    rw [Nat.ofDigitChars_cons, Nat.ofDigitChars_eq_ofDigitChars_zero, Nat.mul_zero, Nat.zero_add,
      Nat.mul_comm]
    rfl

/-! ## Reading digits -/

/-- Digits behind an accumulator are read if the whole value fits; no accumulator on the way
is larger than that. -/
theorem readDigits_eq_ok_iff (hradix : radix ≤ 16) (hpos : 0 < radix) {acc : Nat}
    (hacc : acc < 2 ^ 64) : readDigits radix acc cs = .ok n ↔
      ∃ m, HasValue radix cs m ∧ n = acc * radix ^ cs.length + m ∧ n < 2 ^ 64 := by
  induction cs generalizing acc with
  | nil =>
    simp only [readDigits, hasValue_nil_iff, Except.ok.injEq, List.length_nil, Nat.pow_zero,
      Nat.mul_one, exists_eq_left, Nat.add_zero]
    omega
  | cons c cs ih =>
    have hshift : ∀ d, acc * radix ^ (c :: cs).length + d * radix ^ cs.length
        = (acc * radix + d) * radix ^ cs.length := by
      intro d
      rw [List.length_cons, Nat.pow_succ', Nat.add_mul, Nat.mul_assoc]
    rw [readDigits]
    cases hdigit : digit? radix c with
    | none =>
      refine iff_of_false nofun ?_
      rintro ⟨m, hm, _⟩
      obtain ⟨d, _, hd, _⟩ := hasValue_cons_iff.mp hm
      rw [(digit?_eq_some_iff hradix).mpr hd] at hdigit
      cases hdigit
    | some d =>
      have hd := (digit?_eq_some_iff hradix).mp hdigit
      simp only
      split
      · rename_i hfits
        rw [ih hfits]
        constructor
        · rintro ⟨m, hm, hn, hlt⟩
          refine ⟨_, hasValue_cons_iff.mpr ⟨d, m, hd, hm, rfl⟩, ?_, hlt⟩
          rw [hn, ← Nat.add_assoc, hshift]
        · rintro ⟨_, hvalue, hn, hlt⟩
          obtain ⟨d', m, hd', hm, rfl⟩ := hasValue_cons_iff.mp hvalue
          refine ⟨m, hm, ?_, hlt⟩
          rw [hn, hd'.unique hradix hd, ← Nat.add_assoc, hshift]
      · rename_i hlarge
        refine iff_of_false nofun ?_
        rintro ⟨_, hvalue, hn, hlt⟩
        obtain ⟨d', m, hd', hm, rfl⟩ := hasValue_cons_iff.mp hvalue
        rw [hd'.unique hradix hd, ← Nat.add_assoc, hshift] at hn
        have hgrows := Nat.le_mul_of_pos_right (acc * radix + d) (Nat.pow_pos hpos (n := cs.length))
        omega

theorem readDigits_zero_eq_ok_iff (hradix : radix ≤ 16) (hpos : 0 < radix) :
    readDigits radix 0 cs = .ok n ↔ HasValue radix cs n ∧ n < 2 ^ 64 := by
  rw [readDigits_eq_ok_iff hradix hpos (by decide)]
  simp only [Nat.zero_mul, Nat.zero_add]
  constructor
  · rintro ⟨m, hm, rfl, hlt⟩
    exact ⟨hm, hlt⟩
  · rintro ⟨hn, hlt⟩
    exact ⟨n, hn, rfl, hlt⟩

/-- A digit more shifts the accumulator. -/
theorem shift_add (acc radix d count m : Nat) :
    acc * radix ^ (count + 1) + (d * radix ^ count + m)
      = (acc * radix + d) * radix ^ count + m := by
  rw [Nat.pow_succ', Nat.add_mul, Nat.mul_assoc, Nat.add_assoc]

/-- Digits whose number fits are read, and what follows them decides. -/
theorem readDigits_append (hradix : radix ≤ 16) (hpos : 0 < radix) {acc : Nat}
    (hvalue : HasValue radix cs n) (hfits : acc * radix ^ cs.length + n < 2 ^ 64)
    (rest : List Char) :
    readDigits radix acc (cs ++ rest) = readDigits radix (acc * radix ^ cs.length + n) rest := by
  induction cs generalizing acc n with
  | nil =>
    rw [hasValue_nil_iff.mp hvalue, List.nil_append, List.length_nil, Nat.pow_zero, Nat.mul_one,
      Nat.add_zero]
  | cons c cs ih =>
    obtain ⟨d, m, hd, hm, rfl⟩ := hasValue_cons_iff.mp hvalue
    rw [List.length_cons, shift_add] at hfits ⊢
    have hgrows := Nat.le_mul_of_pos_right (acc * radix + d) (Nat.pow_pos hpos (n := cs.length))
    have hdigit := (digit?_eq_some_iff hradix).mpr hd
    rw [List.cons_append, readDigits, hdigit]
    simp only
    rw [if_pos (by omega), ih hm hfits]

/-- Digits whose number does not fit are refused at one of them, whatever follows. -/
theorem readDigits_append_eq_tooLarge (hradix : radix ≤ 16) {acc : Nat}
    (hacc : acc < 2 ^ 64) (hvalue : HasValue radix cs n)
    (hlarge : 2 ^ 64 ≤ acc * radix ^ cs.length + n) (rest : List Char) :
    readDigits radix acc (cs ++ rest) = .error .tooLarge := by
  induction cs generalizing acc n with
  | nil =>
    rw [hasValue_nil_iff.mp hvalue, List.length_nil, Nat.pow_zero] at hlarge
    omega
  | cons c cs ih =>
    obtain ⟨d, m, hd, hm, rfl⟩ := hasValue_cons_iff.mp hvalue
    rw [List.length_cons, shift_add] at hlarge
    have hdigit := (digit?_eq_some_iff hradix).mpr hd
    rw [List.cons_append, readDigits, hdigit]
    simp only
    split
    · next hfits => exact ih hfits hm hlarge
    · rfl

theorem readDigits_of_fail (hradix : radix ≤ 16) (hpos : 0 < radix) {acc : Nat}
    (hacc : acc < 2 ^ 64) {e : IntegerError} (h : DigitsFail radix acc cs e) :
    readDigits radix acc cs = .error e := by
  cases h with
  | @invalidDigit front back c m hm hfits hnone =>
    have hdigit : digit? radix c = none :=
      Option.eq_none_iff_forall_ne_some.mpr fun d hd => hnone d ((digit?_eq_some_iff hradix).mp hd)
    rw [readDigits_append hradix hpos hm hfits, readDigits, hdigit]
  | tooLarge hm hlarge => exact readDigits_append_eq_tooLarge hradix hacc hm hlarge _

/-- Digits that are not read have a fault. -/
theorem digitsFail_of_readDigits (hradix : radix ≤ 16) {acc : Nat} (hacc : acc < 2 ^ 64)
    {e : IntegerError} (h : readDigits radix acc cs = .error e) : DigitsFail radix acc cs e := by
  induction cs generalizing acc with
  | nil => cases h
  | cons c cs ih =>
    rw [readDigits] at h
    cases hdigit : digit? radix c with
    | none =>
      rw [hdigit] at h
      cases h
      have hnone : ∀ d, ¬IsDigit radix c d := by
        intro d hd
        rw [(digit?_eq_some_iff hradix).mpr hd] at hdigit
        cases hdigit
      have hfront : HasValue radix [] 0 := hasValue_nil_iff.mpr rfl
      refine .invalidDigit hfront ?_ hnone
      rwa [List.length_nil, Nat.pow_zero, Nat.mul_one, Nat.add_zero]
    | some d =>
      have hd := (digit?_eq_some_iff hradix).mp hdigit
      rw [hdigit] at h
      simp only at h
      split at h
      · next hfits =>
        cases ih hfits h with
        | @invalidDigit front back c' m hm hlt hnone =>
          have hfront : HasValue radix (c :: front) _ :=
            hasValue_cons_iff.mpr ⟨d, m, hd, hm, rfl⟩
          refine .invalidDigit hfront ?_ hnone
          rwa [List.length_cons, shift_add]
        | @tooLarge front back m hm hlarge =>
          have hfront : HasValue radix (c :: front) _ :=
            hasValue_cons_iff.mpr ⟨d, m, hd, hm, rfl⟩
          refine .tooLarge hfront ?_
          rwa [List.length_cons, shift_add]
      · next hlarge =>
        cases h
        have hfront : HasValue radix [c] _ :=
          hasValue_cons_iff.mpr ⟨d, 0, hd, hasValue_nil_iff.mpr rfl, rfl⟩
        refine .tooLarge hfront ?_
        rw [List.length_singleton, Nat.pow_one, List.length_nil, Nat.pow_zero, Nat.mul_one,
          Nat.add_zero]
        exact Nat.not_lt.mp hlarge

theorem readDigits_eq_error_iff (hradix : radix ≤ 16) (hpos : 0 < radix) {acc : Nat}
    (hacc : acc < 2 ^ 64) {e : IntegerError} :
    readDigits radix acc cs = .error e ↔ DigitsFail radix acc cs e :=
  ⟨digitsFail_of_readDigits hradix hacc, readDigits_of_fail hradix hpos hacc⟩

/-! ## Signs and prefixes -/

theorem isNumeral_of_hasValue (hne : cs ≠ []) (h : HasValue radix cs n) : IsNumeral radix cs n :=
  ⟨[], cs, rfl, .inl rfl, hne, h⟩

theorem isNumeral_plus_iff (hradix : radix ≤ 16) :
    IsNumeral radix ('+' :: cs) n ↔ cs ≠ [] ∧ HasValue radix cs n := by
  constructor
  · rintro ⟨sign, ds, htext, rfl | rfl, hne, hvalue⟩
    · obtain rfl : '+' :: cs = ds := htext
      obtain ⟨d, _, hd, _⟩ := hasValue_cons_iff.mp hvalue
      exact absurd rfl (ne_plus_of_isDigit hradix hd)
    · obtain rfl : cs = ds := (List.cons.inj htext).2
      exact ⟨hne, hvalue⟩
  · rintro ⟨hne, hvalue⟩
    exact ⟨['+'], cs, rfl, .inr rfl, hne, hvalue⟩

theorem isNumeral_iff_of_ne_plus (h : ∀ ds, cs ≠ '+' :: ds) :
    IsNumeral radix cs n ↔ cs ≠ [] ∧ HasValue radix cs n := by
  constructor
  · rintro ⟨sign, ds, rfl, rfl | rfl, hne, hvalue⟩
    · exact ⟨hne, hvalue⟩
    · exact absurd rfl (h ds)
  · rintro ⟨hne, hvalue⟩
    exact isNumeral_of_hasValue hne hvalue

theorem IsNumeral.unique (hradix : radix ≤ 16) {m : Nat} (h : IsNumeral radix cs n)
    (h' : IsNumeral radix cs m) : n = m := by
  by_cases hplus : ∃ ds, cs = '+' :: ds
  · obtain ⟨ds, rfl⟩ := hplus
    rw [isNumeral_plus_iff hradix] at h h'
    exact h.2.unique hradix h'.2
  · rw [isNumeral_iff_of_ne_plus (not_exists.mp hplus)] at h h'
    exact h.2.unique hradix h'.2

/-- The letter of the prefix is no decimal digit. -/
theorem not_isNumeral_zero_x (rest : List Char) : ¬IsNumeral 10 ('0' :: 'x' :: rest) n := by
  intro h
  have hplus : ∀ ds, '0' :: 'x' :: rest ≠ '+' :: ds := fun _ heq => by cases heq
  obtain ⟨_, hvalue⟩ := (isNumeral_iff_of_ne_plus hplus).mp h
  obtain ⟨_, _, _, hrest, _⟩ := hasValue_cons_iff.mp hvalue
  obtain ⟨_, _, hx, _⟩ := hasValue_cons_iff.mp hrest
  exact ne_x_of_isDigit hx rfl

/-- A text is at most one number of seconds. -/
theorem IsSeconds.unique {m : Nat} (h : IsSeconds cs n) (h' : IsSeconds cs m) : n = m := by
  rcases h with h | ⟨rest, rfl, h⟩
  · rcases h' with h' | ⟨rest, rfl, _⟩
    · exact h.unique (by decide) h'
    · exact absurd h (not_isNumeral_zero_x rest)
  · rcases h' with h' | ⟨_, ⟨rfl, rfl⟩, h'⟩
    · exact absurd h' (not_isNumeral_zero_x rest)
    · exact h.unique (by decide) h'

/-- Numerals are read if their number fits. -/
theorem readUnsigned_eq_ok_iff (hradix : radix ≤ 16) (hpos : 0 < radix) :
    readUnsigned radix cs = .ok n ↔ IsNumeral radix cs n ∧ n < 2 ^ 64 := by
  unfold readUnsigned
  split
  · have hplus : ∀ ds : List Char, [] ≠ '+' :: ds := fun _ => nofun
    rw [isNumeral_iff_of_ne_plus hplus]
    exact iff_of_false nofun fun h => h.1.1 rfl
  · rw [isNumeral_plus_iff hradix]
    exact iff_of_false nofun fun h => h.1.1 rfl
  · rename_i ds hne
    rw [isNumeral_plus_iff hradix, readDigits_zero_eq_ok_iff hradix hpos]
    have hds : ds ≠ [] := fun hnil => hne (hnil ▸ rfl)
    simp only [hds, ne_eq, not_false_eq_true, true_and]
  · rename_i hnil _ hplus
    rw [isNumeral_iff_of_ne_plus hplus, readDigits_zero_eq_ok_iff hradix hpos]
    have hds : cs ≠ [] := hnil
    simp only [hds, ne_eq, not_false_eq_true, true_and]

theorem not_digitsFail_nil {acc : Nat} (hacc : acc < 2 ^ 64) (e : IntegerError) :
    ¬DigitsFail radix acc [] e := by
  intro h
  generalize hcs : ([] : List Char) = cs at h
  cases h with
  | invalidDigit => cases List.append_eq_nil_iff.mp hcs.symm |>.2
  | tooLarge hm hlarge =>
    obtain rfl := (List.append_eq_nil_iff.mp hcs.symm).1
    rw [hasValue_nil_iff.mp hm, List.length_nil, Nat.pow_zero] at hlarge
    omega

/-- Texts that are not read have a fault. -/
theorem readUnsigned_eq_error_iff (hradix : radix ≤ 16) (hpos : 0 < radix) {e : IntegerError} :
    readUnsigned radix cs = .error e ↔ NumeralFails radix cs e := by
  have hzero : 0 < 2 ^ 64 := Nat.two_pow_pos 64
  unfold readUnsigned
  split
  · constructor
    · rintro ⟨⟩
      exact .empty
    · rintro (_ | _ | _ | ⟨_, hfail⟩)
      · rfl
      · exact absurd hfail (not_digitsFail_nil hzero e)
  · constructor
    · rintro ⟨⟩
      exact .signAlone
    · rintro (_ | _ | hfail | ⟨hplus, _⟩)
      · rfl
      · exact absurd hfail (not_digitsFail_nil hzero e)
      · exact absurd rfl (hplus [])
  · rename_i ds hne
    rw [readDigits_eq_error_iff hradix hpos hzero]
    constructor
    · exact .signed
    · rintro (_ | _ | hfail | ⟨hplus, _⟩)
      · exact absurd rfl hne
      · exact hfail
      · exact absurd rfl (hplus ds)
  · rename_i hnil _ hplus
    rw [readDigits_eq_error_iff hradix hpos hzero]
    constructor
    · exact .unsigned hplus
    · rintro (_ | _ | _ | ⟨_, hfail⟩)
      · exact absurd rfl hnil
      · exact absurd rfl (hplus [])
      · exact absurd rfl (hplus _)
      · exact hfail

/-- A number that fits is the one that it is stored as. -/
theorem map_ofNat_eq_ok_iff {x : Except IntegerError Nat} {p : Nat → Prop}
    (h : ∀ n, x = .ok n ↔ p n ∧ n < 2 ^ 64) {s : UInt64} :
    x.map UInt64.ofNat = .ok s ↔ p s.toNat := by
  rw [Except.map_eq_ok_iff]
  constructor
  · rintro ⟨n, hn, rfl⟩
    obtain ⟨hp, hlt⟩ := (h n).mp hn
    rwa [UInt64.toNat_ofNat_of_lt' hlt]
  · intro hp
    exact ⟨s.toNat, (h _).mpr ⟨hp, s.toNat_lt⟩, UInt64.ofNat_toNat⟩

/-- What is read are the numbers of seconds that fit. -/
theorem readSeconds_eq_ok_iff {s : UInt64} : readSeconds cs = .ok s ↔ IsSeconds cs s.toNat := by
  unfold readSeconds
  split
  · rename_i rest
    rw [map_ofNat_eq_ok_iff fun n => readUnsigned_eq_ok_iff (by decide) (by decide)]
    constructor
    · intro h
      exact .inr ⟨rest, rfl, h⟩
    · rintro (h | ⟨_, ⟨rfl, rfl⟩, h⟩)
      · exact absurd h (not_isNumeral_zero_x rest)
      · exact h
  · rename_i hother
    rw [map_ofNat_eq_ok_iff fun n => readUnsigned_eq_ok_iff (by decide) (by decide)]
    constructor
    · exact .inl
    · rintro (h | ⟨rest, rfl, _⟩)
      · exact h
      · exact absurd rfl (hother rest)

/-- What is not read has a fault. -/
theorem readSeconds_eq_error_iff {e : IntegerError} :
    readSeconds cs = .error e ↔ SecondsFail cs e := by
  unfold readSeconds
  split
  · rename_i rest
    rw [Except.map_eq_error_iff, readUnsigned_eq_error_iff (by decide) (by decide)]
    constructor
    · exact .hexadecimal
    · rintro (⟨hother, _⟩ | hfail)
      · exact absurd rfl (hother rest)
      · exact hfail
  · rename_i hother
    rw [Except.map_eq_error_iff, readUnsigned_eq_error_iff (by decide) (by decide)]
    constructor
    · exact .decimal hother
    · rintro (⟨_, hfail⟩ | _)
      · exact hfail
      · exact absurd rfl (hother _)

/-- Every number of seconds is read back from its decimal numeral. -/
theorem readSeconds_toDigits (n : UInt64) :
    readSeconds (Nat.toDigits 10 n.toNat) = .ok n := by
  have hdigits : ∀ c ∈ Nat.toDigits 10 n.toNat, c.isDigit = true :=
    fun c hc => Nat.isDigit_of_mem_toDigits (by decide) (by decide) hc
  have hvalue := hasValue_ofDigitChars hdigits
  rw [Nat.ofDigitChars_ten_toDigits] at hvalue
  exact readSeconds_eq_ok_iff.mpr (.inl (isNumeral_of_hasValue Nat.toDigits_ne_nil hvalue))

end BenchCharts.ResourceLog
