import BenchCharts.Proofs.Decimal.Numeral

/-!
# Numerals of integers

An integer has one numeral without needless characters, and it is the text of the integer
(`isIntegerText_toString_iff`).
-/

namespace BenchCharts

open Binary

/-- The text is the numeral of an integer: digits of which the first one is not zero, with a
minus sign if the integer is negative; or a zero without a sign. -/
def IsIntegerText (text : List Char) (n : Int) : Prop :=
  ∃ negative digits, text = signChars negative ++ digits ∧ digits ≠ [] ∧
    (∀ c ∈ digits, c.isDigit = true) ∧
    (digits.head? = some '0' → digits = ['0'] ∧ negative = false) ∧
    n = signed negative (Nat.ofDigitChars 10 digits 0)

/-- Only zero is written with a zero as the first digit. -/
theorem toDigits_eq_of_head {n : Nat} (h : (Nat.toDigits 10 n).head? = some '0') : n = 0 := by
  obtain ⟨ds, hds⟩ : ∃ ds, Nat.toDigits 10 n = '0' :: ds := by
    obtain ⟨c, ds, hcons⟩ := List.exists_cons_of_ne_nil (Nat.toDigits_ne_nil (n := n) (b := 10))
    rw [hcons, List.head?_cons, Option.some.injEq] at h
    exact ⟨ds, h ▸ hcons⟩
  have hdigits : ∀ c ∈ ds, c.isDigit = true := fun c hc =>
    Scientific.isDigit_of_mem_toDigits (hds ▸ List.mem_cons_of_mem '0' hc)
  have hvalue : Nat.ofDigitChars 10 ds 0 = n := by
    rw [← Nat.ofDigitChars_ten_toDigits (n := n), hds, Nat.ofDigitChars_cons]
    rfl
  rcases List.eq_nil_or_concat ds with rfl | ⟨_, _, hconcat⟩
  · rw [← hvalue, Nat.ofDigitChars_nil]
  · -- a number below `10 ^ k` has no more than `k` digits
    have hpos : 0 < ds.length := by
      rw [hconcat, List.length_concat]
      exact Nat.succ_pos _
    have hlt : n < 10 ^ ds.length := hvalue ▸ ofDigitChars_lt hdigits
    have hlength := (Nat.length_toDigits_le_iff (by decide) hpos).mpr hlt
    rw [hds, List.length_cons] at hlength
    omega

theorem isIntegerText_toDigits {negative : Bool} {n : Nat} (h : negative = true → 0 < n) :
    IsIntegerText (signChars negative ++ Nat.toDigits 10 n) (signed negative n) := by
  refine ⟨negative, Nat.toDigits 10 n, rfl, Nat.toDigits_ne_nil,
    fun c hc => Scientific.isDigit_of_mem_toDigits hc, fun hhead => ?_, ?_⟩
  · obtain rfl := toDigits_eq_of_head hhead
    refine ⟨rfl, ?_⟩
    cases negative with
    | false => rfl
    | true => exact absurd (h rfl) (Nat.lt_irrefl 0)
  · rw [Nat.ofDigitChars_ten_toDigits]

theorem isIntegerText_toString (n : Int) : IsIntegerText (toString n).toList n := by
  cases n with
  | ofNat n =>
    have htext : (toString (Int.ofNat n)).toList = signChars false ++ Nat.toDigits 10 n :=
      Nat.toList_repr
    rw [htext]
    exact isIntegerText_toDigits nofun
  | negSucc n =>
    have htext : (toString (Int.negSucc n)).toList = signChars true ++ Nat.toDigits 10 (n + 1) := by
      show ("-" ++ (n + 1).repr).toList = _
      rw [String.toList_append, Nat.toList_repr]
      rfl
    rw [htext]
    exact isIntegerText_toDigits fun _ => Nat.succ_pos n

theorem IsIntegerText.unique {text : List Char} {m n : Int} (hm : IsIntegerText text m)
    (hn : IsIntegerText text n) : m = n := by
  obtain ⟨s, ds, rfl, hne, hds, -, rfl⟩ := hm
  obtain ⟨t, es, htext, hne', hes, -, rfl⟩ := hn
  have hsign : ∀ {cs : List Char}, (∀ c ∈ cs, c.isDigit = true) → '-' ∉ cs := by
    intro cs hcs hmem
    cases hcs '-' hmem
  cases s <;> cases t
  · obtain rfl : ds = es := htext
    rfl
  · obtain rfl : ds = '-' :: es := htext
    exact absurd List.mem_cons_self (hsign hds)
  · obtain rfl : '-' :: ds = es := htext
    exact absurd List.mem_cons_self (hsign hes)
  · obtain rfl : ds = es := (List.cons.inj htext).2
    rfl

/-- The text of an integer is its numeral, and that of no other. -/
theorem isIntegerText_toString_iff {m n : Int} : IsIntegerText (toString m).toList n ↔ n = m := by
  constructor
  · exact fun h => h.unique (isIntegerText_toString m)
  · rintro rfl
    exact isIntegerText_toString n

end BenchCharts
