import BenchCharts.Proofs.Except
import BenchCharts.Text.Utf8

/-!
# Laws of UTF-8

`Utf8.decode` accepts exactly the encodings of texts (`decode_eq_ok_iff`).  Any
other byte list begins with the encoding of some text, and what follows begins
with no character; the answer is then the length of that beginning
(`decode_eq_error_iff`).

Both rest on one fact about a single character: `head?` answers a character
exactly if the bytes begin with its encoding (`head?_encodeChar_append` and
`eq_encodeChar_append_of_head?`).
-/

namespace BenchCharts.Text.Utf8

open String (utf8EncodeChar)

theorem encode_nil : encode [] = [] :=
  rfl

theorem encode_cons (c : Char) (cs : List Char) :
    encode (c :: cs) = utf8EncodeChar c ++ encode cs :=
  List.flatMap_cons

theorem encode_append (xs ys : List Char) : encode (xs ++ ys) = encode xs ++ encode ys :=
  List.flatMap_append

theorem encode_toList_append (a b : String) :
    encode (a ++ b).toList = encode a.toList ++ encode b.toList := by
  rw [String.toList_append, encode_append]

/-! ## One character -/

theorem continuation?_eq_some_iff {b : UInt8} {n : Nat} :
    continuation? b = some n ↔ b = UInt8.ofNat (n % 64 + 0x80) ∧ n < 64 := by
  rw [continuation?, ← UInt8.toNat_inj, UInt8.toNat_ofNat']
  have hb := b.toNat_lt
  simp only [UInt8.le_iff_toNat_le]
  split
  · next h =>
    have h' : 0x80 ≤ b.toNat ∧ b.toNat ≤ 0xBF := h
    rw [Option.some.injEq]
    omega
  · next h =>
    have h' : ¬(0x80 ≤ b.toNat ∧ b.toNat ≤ 0xBF) := h
    refine iff_of_false (by simp) ?_
    omega

theorem scalar?_eq_some_iff {least n : Nat} {c : Char} :
    scalar? least n = some c ↔ least ≤ n ∧ c.toNat = n := by
  by_cases h : n.isValidChar ∧ least ≤ n
  · have hn : (Char.ofNatAux n h.1).toNat = n := rfl
    rw [scalar?, dif_pos h, Option.some.injEq, ← Char.toNat_inj, hn]
    exact ⟨fun hc => ⟨h.2, hc.symm⟩, fun hc => hc.2.symm⟩
  · rw [scalar?, dif_neg h]
    refine iff_of_false (by simp) ?_
    intro h
    rcases h with ⟨hleast, rfl⟩
    exact h ⟨c.valid, hleast⟩

/-- Scalar values end at `0x10FFFF`. -/
theorem toNat_lt_scalarLimit (c : Char) : c.toNat < 0x110000 := by
  rcases c.valid with h | ⟨_, h⟩
  · exact Nat.lt_trans h (by decide)
  · exact h

/-- A character below `0x80` is one byte. -/
theorem encodeChar_one {c : Char} (h : c.toNat < 0x80) :
    utf8EncodeChar c = [UInt8.ofNat c.toNat] := by
  have h1 : c.val.toNat ≤ 0x7f := Nat.le_of_lt_succ h
  simp only [utf8EncodeChar, if_pos h1]
  rfl

theorem encodeChar_two {c : Char} (h : 0x80 ≤ c.toNat) (h' : c.toNat < 0x800) :
    utf8EncodeChar c =
      [UInt8.ofNat (c.toNat / 64 + 0xC0), UInt8.ofNat (c.toNat % 64 + 0x80)] := by
  have h1 : ¬c.val.toNat ≤ 0x7f := Nat.not_le.mpr h
  have h2 : c.val.toNat ≤ 0x7ff := Nat.le_of_lt_succ h'
  have hlead : c.toNat / 64 % 0x20 = c.toNat / 64 := by omega
  simp only [utf8EncodeChar, if_neg h1, if_pos h2]
  show [UInt8.ofNat (c.toNat / 64 % 0x20 + 0xC0), _] = _
  rw [hlead]
  rfl

theorem encodeChar_three {c : Char} (h : 0x800 ≤ c.toNat) (h' : c.toNat < 0x10000) :
    utf8EncodeChar c =
      [UInt8.ofNat (c.toNat / 4096 + 0xE0), UInt8.ofNat (c.toNat / 64 % 64 + 0x80),
        UInt8.ofNat (c.toNat % 64 + 0x80)] := by
  have h1 : ¬c.val.toNat ≤ 0x7f := Nat.not_le.mpr (Nat.le_trans (by decide) h)
  have h2 : ¬c.val.toNat ≤ 0x7ff := Nat.not_le.mpr h
  have h3 : c.val.toNat ≤ 0xffff := Nat.le_of_lt_succ h'
  have hlead : c.toNat / 4096 % 0x10 = c.toNat / 4096 := by omega
  simp only [utf8EncodeChar, if_neg h1, if_neg h2, if_pos h3]
  show [UInt8.ofNat (c.toNat / 4096 % 0x10 + 0xE0), _, _] = _
  rw [hlead]
  rfl

theorem encodeChar_four {c : Char} (h : 0x10000 ≤ c.toNat) :
    utf8EncodeChar c =
      [UInt8.ofNat (c.toNat / 262144 + 0xF0), UInt8.ofNat (c.toNat / 4096 % 64 + 0x80),
        UInt8.ofNat (c.toNat / 64 % 64 + 0x80), UInt8.ofNat (c.toNat % 64 + 0x80)] := by
  have h1 : ¬c.val.toNat ≤ 0x7f := Nat.not_le.mpr (Nat.le_trans (by decide) h)
  have h2 : ¬c.val.toNat ≤ 0x7ff := Nat.not_le.mpr (Nat.le_trans (by decide) h)
  have h3 : ¬c.val.toNat ≤ 0xffff := Nat.not_le.mpr h
  have hlead : c.toNat / 262144 % 0x08 = c.toNat / 262144 := by
    have := toNat_lt_scalarLimit c
    omega
  simp only [utf8EncodeChar, if_neg h1, if_neg h2, if_neg h3]
  show [UInt8.ofNat (c.toNat / 262144 % 0x08 + 0xF0), _, _, _] = _
  rw [hlead]
  rfl

theorem toNat_byte {n : Nat} (h : n < 256) : (UInt8.ofNat n).toNat = n := by
  rw [UInt8.toNat_ofNat', Nat.mod_eq_of_lt h]

/-- No byte of a longer encoding is below `0x80`. -/
theorem le_of_mem_encodeChar {c : Char} (h : 0x80 ≤ c.toNat) {b : UInt8}
    (hb : b ∈ utf8EncodeChar c) : 0x80 ≤ b.toNat := by
  have hlimit := toNat_lt_scalarLimit c
  have hbyte : ∀ n : Nat, 0x80 ≤ n → n < 0x100 → 0x80 ≤ (UInt8.ofNat n).toNat := by
    intro n hle hlt
    rw [toNat_byte hlt]
    exact hle
  rcases Nat.lt_or_ge c.toNat 0x800 with h2 | h2
  · simp only [encodeChar_two h h2, List.mem_cons, List.not_mem_nil, or_false] at hb
    rcases hb with rfl | rfl <;> exact hbyte _ (by omega) (by omega)
  rcases Nat.lt_or_ge c.toNat 0x10000 with h3 | h3
  · simp only [encodeChar_three h2 h3, List.mem_cons, List.not_mem_nil, or_false] at hb
    rcases hb with rfl | rfl | rfl <;> exact hbyte _ (by omega) (by omega)
  · simp only [encodeChar_four h3, List.mem_cons, List.not_mem_nil, or_false] at hb
    rcases hb with rfl | rfl | rfl | rfl <;> exact hbyte _ (by omega) (by omega)

/-- The byte of a character below `0x80` belongs to no other character. -/
theorem not_mem_encodeChar {c d : Char} (hd : d.toNat < 0x80) (hne : c ≠ d) :
    UInt8.ofNat d.toNat ∉ utf8EncodeChar c := by
  intro h
  have hbyte : (UInt8.ofNat d.toNat).toNat = d.toNat := toNat_byte (by omega)
  rcases Nat.lt_or_ge c.toNat 0x80 with hc | hc
  · rw [encodeChar_one hc, List.mem_singleton] at h
    have heq : c.toNat = d.toNat := by rw [← hbyte, h, toNat_byte (by omega)]
    exact hne (Char.ext (UInt32.toNat_inj.mp heq))
  · have hle := le_of_mem_encodeChar hc h
    omega

/-! ## The head of a byte list -/

theorem head?_one {b : UInt8} (h : b.toNat < 0x80) (rest : List UInt8) :
    head? (b :: rest) = (scalar? 0 b.toNat).map (·, 1) := by
  have hlt : b < 0x80 := UInt8.lt_iff_toNat_lt.mpr h
  rw [head?, if_pos hlt]

theorem head?_two {b : UInt8} (h : 0xC0 ≤ b.toNat) (h' : b.toNat < 0xE0) (rest : List UInt8) :
    head? (b :: rest) = (do
      let low ← rest.head? >>= continuation?
      let c ← scalar? 0x80 ((b.toNat - 0xC0) * 64 + low)
      pure (c, 2)) := by
  have h1 : ¬b < 0x80 := fun hlt => absurd (UInt8.lt_iff_toNat_lt.mp hlt) (by simp; omega)
  have h2 : 0xC0 ≤ b ∧ b < 0xE0 :=
    ⟨UInt8.le_iff_toNat_le.mpr h, UInt8.lt_iff_toNat_lt.mpr h'⟩
  rw [head?, if_neg h1, if_pos h2]

theorem head?_three {b : UInt8} (h : 0xE0 ≤ b.toNat) (h' : b.toNat < 0xF0)
    (rest : List UInt8) :
    head? (b :: rest) = (do
      let mid ← rest.head? >>= continuation?
      let low ← rest[1]? >>= continuation?
      let c ← scalar? 0x800 (((b.toNat - 0xE0) * 64 + mid) * 64 + low)
      pure (c, 3)) := by
  have h1 : ¬b < 0x80 := fun hlt => absurd (UInt8.lt_iff_toNat_lt.mp hlt) (by simp; omega)
  have h2 : ¬(0xC0 ≤ b ∧ b < 0xE0) :=
    fun hlt => absurd (UInt8.lt_iff_toNat_lt.mp hlt.2) (by simp; omega)
  have h3 : 0xE0 ≤ b ∧ b < 0xF0 :=
    ⟨UInt8.le_iff_toNat_le.mpr h, UInt8.lt_iff_toNat_lt.mpr h'⟩
  rw [head?, if_neg h1, if_neg h2, if_pos h3]

theorem head?_four {b : UInt8} (h : 0xF0 ≤ b.toNat) (h' : b.toNat < 0xF8)
    (rest : List UInt8) :
    head? (b :: rest) = (do
      let high ← rest.head? >>= continuation?
      let mid ← rest[1]? >>= continuation?
      let low ← rest[2]? >>= continuation?
      let c ← scalar? 0x10000 ((((b.toNat - 0xF0) * 64 + high) * 64 + mid) * 64 + low)
      pure (c, 4)) := by
  have h1 : ¬b < 0x80 := fun hlt => absurd (UInt8.lt_iff_toNat_lt.mp hlt) (by simp; omega)
  have h2 : ¬(0xC0 ≤ b ∧ b < 0xE0) :=
    fun hlt => absurd (UInt8.lt_iff_toNat_lt.mp hlt.2) (by simp; omega)
  have h3 : ¬(0xE0 ≤ b ∧ b < 0xF0) :=
    fun hlt => absurd (UInt8.lt_iff_toNat_lt.mp hlt.2) (by simp; omega)
  have h4 : 0xF0 ≤ b ∧ b < 0xF8 :=
    ⟨UInt8.le_iff_toNat_le.mpr h, UInt8.lt_iff_toNat_lt.mpr h'⟩
  rw [head?, if_neg h1, if_neg h2, if_neg h3, if_pos h4]

theorem continuation?_byte (n : Nat) :
    continuation? (UInt8.ofNat (n % 64 + 0x80)) = some (n % 64) := by
  rw [continuation?_eq_some_iff, Nat.mod_mod]
  exact ⟨rfl, Nat.mod_lt n (by decide)⟩

/-- A byte list that begins with the encoding of a character is read so. -/
theorem head?_encodeChar_append (c : Char) (rest : List UInt8) :
    head? (utf8EncodeChar c ++ rest) = some (c, (utf8EncodeChar c).length) := by
  have hlimit := toNat_lt_scalarLimit c
  rcases Nat.lt_or_ge c.toNat 0x80 with h1 | h1
  · have hb : (UInt8.ofNat c.toNat).toNat = c.toNat := toNat_byte (by omega)
    have hc : scalar? 0 c.toNat = some c := scalar?_eq_some_iff.mpr ⟨by omega, rfl⟩
    rw [encodeChar_one h1, List.singleton_append, head?_one (by omega), hb, hc]
    rfl
  rcases Nat.lt_or_ge c.toNat 0x800 with h2 | h2
  · have hb := toNat_byte (n := c.toNat / 64 + 0xC0) (by omega)
    have hvalue : (c.toNat / 64 + 0xC0 - 0xC0) * 64 + c.toNat % 64 = c.toNat := by omega
    have hc : scalar? 0x80 c.toNat = some c := scalar?_eq_some_iff.mpr ⟨h1, rfl⟩
    rw [encodeChar_two h1 h2]
    simp only [List.cons_append, List.nil_append]
    rw [head?_two (by omega) (by omega), hb]
    simp only [List.head?_cons, Option.bind_eq_bind, Option.bind_some, continuation?_byte, hvalue,
      hc]
    rfl
  rcases Nat.lt_or_ge c.toNat 0x10000 with h3 | h3
  · have hb := toNat_byte (n := c.toNat / 4096 + 0xE0) (by omega)
    have hvalue : ((c.toNat / 4096 + 0xE0 - 0xE0) * 64 + c.toNat / 64 % 64) * 64 +
        c.toNat % 64 = c.toNat := by omega
    have hc : scalar? 0x800 c.toNat = some c := scalar?_eq_some_iff.mpr ⟨h2, rfl⟩
    rw [encodeChar_three h2 h3]
    simp only [List.cons_append, List.nil_append]
    rw [head?_three (by omega) (by omega), hb]
    simp only [List.head?_cons, List.getElem?_cons_succ, List.getElem?_cons_zero,
      Option.bind_eq_bind, Option.bind_some, continuation?_byte, hvalue, hc]
    rfl
  · have hb := toNat_byte (n := c.toNat / 262144 + 0xF0) (by omega)
    have hvalue : (((c.toNat / 262144 + 0xF0 - 0xF0) * 64 + c.toNat / 4096 % 64) * 64 +
        c.toNat / 64 % 64) * 64 + c.toNat % 64 = c.toNat := by omega
    have hc : scalar? 0x10000 c.toNat = some c := scalar?_eq_some_iff.mpr ⟨h3, rfl⟩
    rw [encodeChar_four h3]
    simp only [List.cons_append, List.nil_append]
    rw [head?_four (by omega) (by omega), hb]
    simp only [List.head?_cons, List.getElem?_cons_succ, List.getElem?_cons_zero,
      Option.bind_eq_bind, Option.bind_some, continuation?_byte, hvalue, hc]
    rfl

theorem head?_eq_none {b : UInt8} (h : 0x80 ≤ b.toNat) (h' : b.toNat < 0xC0 ∨ 0xF8 ≤ b.toNat)
    (rest : List UInt8) : head? (b :: rest) = none := by
  rw [head?, if_neg, if_neg, if_neg, if_neg] <;>
    simp only [UInt8.lt_iff_toNat_lt, UInt8.le_iff_toNat_le, UInt8.reduceToNat] <;> omega

/-- The byte `i` places on is a continuation byte with the bits `n`. -/
theorem exists_of_continuation {bs : List UInt8} {i n : Nat}
    (h : bs[i]? >>= continuation? = some n) :
    bs[i]? = some (UInt8.ofNat (n % 64 + 0x80)) ∧ n < 64 := by
  obtain ⟨b, hb, hn⟩ := Option.bind_eq_some_iff.mp h
  obtain ⟨rfl, hlt⟩ := continuation?_eq_some_iff.mp hn
  exact ⟨hb, hlt⟩

theorem eq_cons_of_getElem?_zero {bs : List UInt8} {b : UInt8} (h : bs[0]? = some b) :
    ∃ rest, bs = b :: rest := by
  cases bs with
  | nil => cases h
  | cons a rest => exact ⟨rest, by rw [Option.some.inj h]⟩

/-! What is read is an encoding, for each length that a leading byte announces: the
bytes are the digits of the scalar value, so `omega` gets them back from it. -/

theorem eq_append_of_head?_one {b : UInt8} {rest : List UInt8} {c : Char} {w : Nat}
    (h : b.toNat < 0x80) (hread : head? (b :: rest) = some (c, w)) :
    ∃ tail, b :: rest = utf8EncodeChar c ++ tail ∧ w = (utf8EncodeChar c).length := by
  rw [head?_one h] at hread
  obtain ⟨c', hc, hcw⟩ := Option.map_eq_some_iff.mp hread
  obtain ⟨rfl, rfl⟩ := Prod.mk.inj hcw
  obtain ⟨_, hvalue⟩ := scalar?_eq_some_iff.mp hc
  refine ⟨rest, ?_, ?_⟩ <;> rw [encodeChar_one (by omega), hvalue]
  · rw [UInt8.ofNat_toNat]
    rfl
  · rfl

theorem eq_append_of_head?_two {b : UInt8} {rest : List UInt8} {c : Char} {w : Nat}
    (h : 0xC0 ≤ b.toNat) (h' : b.toNat < 0xE0) (hread : head? (b :: rest) = some (c, w)) :
    ∃ tail, b :: rest = utf8EncodeChar c ++ tail ∧ w = (utf8EncodeChar c).length := by
  rw [head?_two h h', List.head?_eq_getElem?] at hread
  obtain ⟨low, hlow, hread⟩ := Option.bind_eq_some_iff.mp hread
  obtain ⟨c', hc, hcw⟩ := Option.bind_eq_some_iff.mp hread
  obtain ⟨rfl, rfl⟩ := Prod.mk.inj (Option.some.inj hcw)
  obtain ⟨hleast, hvalue⟩ := scalar?_eq_some_iff.mp hc
  obtain ⟨hget, hlt⟩ := exists_of_continuation hlow
  obtain ⟨rest, rfl⟩ := eq_cons_of_getElem?_zero hget
  have hlead : c'.toNat / 64 + 0xC0 = b.toNat := by omega
  have hmod : c'.toNat % 64 = low % 64 := by omega
  rw [encodeChar_two (by omega) (by omega), hlead, hmod, UInt8.ofNat_toNat]
  exact ⟨rest, rfl, rfl⟩

theorem eq_append_of_head?_three {b : UInt8} {rest : List UInt8} {c : Char} {w : Nat}
    (h : 0xE0 ≤ b.toNat) (h' : b.toNat < 0xF0) (hread : head? (b :: rest) = some (c, w)) :
    ∃ tail, b :: rest = utf8EncodeChar c ++ tail ∧ w = (utf8EncodeChar c).length := by
  rw [head?_three h h', List.head?_eq_getElem?] at hread
  obtain ⟨mid, hmid, hread⟩ := Option.bind_eq_some_iff.mp hread
  obtain ⟨low, hlow, hread⟩ := Option.bind_eq_some_iff.mp hread
  obtain ⟨c', hc, hcw⟩ := Option.bind_eq_some_iff.mp hread
  obtain ⟨rfl, rfl⟩ := Prod.mk.inj (Option.some.inj hcw)
  obtain ⟨hleast, hvalue⟩ := scalar?_eq_some_iff.mp hc
  obtain ⟨hget, hlt⟩ := exists_of_continuation hmid
  obtain ⟨rest, rfl⟩ := eq_cons_of_getElem?_zero hget
  obtain ⟨hget', hlt'⟩ := exists_of_continuation hlow
  obtain ⟨rest, rfl⟩ := eq_cons_of_getElem?_zero hget'
  have hlead : c'.toNat / 4096 + 0xE0 = b.toNat := by omega
  have hmod : c'.toNat / 64 % 64 = mid % 64 := by omega
  have hmod' : c'.toNat % 64 = low % 64 := by omega
  rw [encodeChar_three (by omega) (by omega), hlead, hmod, hmod', UInt8.ofNat_toNat]
  exact ⟨rest, rfl, rfl⟩

theorem eq_append_of_head?_four {b : UInt8} {rest : List UInt8} {c : Char} {w : Nat}
    (h : 0xF0 ≤ b.toNat) (h' : b.toNat < 0xF8) (hread : head? (b :: rest) = some (c, w)) :
    ∃ tail, b :: rest = utf8EncodeChar c ++ tail ∧ w = (utf8EncodeChar c).length := by
  rw [head?_four h h', List.head?_eq_getElem?] at hread
  obtain ⟨high, hhigh, hread⟩ := Option.bind_eq_some_iff.mp hread
  obtain ⟨mid, hmid, hread⟩ := Option.bind_eq_some_iff.mp hread
  obtain ⟨low, hlow, hread⟩ := Option.bind_eq_some_iff.mp hread
  obtain ⟨c', hc, hcw⟩ := Option.bind_eq_some_iff.mp hread
  obtain ⟨rfl, rfl⟩ := Prod.mk.inj (Option.some.inj hcw)
  obtain ⟨hleast, hvalue⟩ := scalar?_eq_some_iff.mp hc
  obtain ⟨hget, hlt⟩ := exists_of_continuation hhigh
  obtain ⟨rest, rfl⟩ := eq_cons_of_getElem?_zero hget
  obtain ⟨hget', hlt'⟩ := exists_of_continuation hmid
  obtain ⟨rest, rfl⟩ := eq_cons_of_getElem?_zero hget'
  obtain ⟨hget'', hlt''⟩ := exists_of_continuation hlow
  obtain ⟨rest, rfl⟩ := eq_cons_of_getElem?_zero hget''
  have hlead : c'.toNat / 262144 + 0xF0 = b.toNat := by omega
  have hmod : c'.toNat / 4096 % 64 = high % 64 := by omega
  have hmod' : c'.toNat / 64 % 64 = mid % 64 := by omega
  have hmod'' : c'.toNat % 64 = low % 64 := by omega
  rw [encodeChar_four (by omega), hlead, hmod, hmod', hmod'', UInt8.ofNat_toNat]
  exact ⟨rest, rfl, rfl⟩

/-- What is read as a character is its encoding. -/
theorem eq_encodeChar_append_of_head? {bs : List UInt8} {c : Char} {w : Nat}
    (h : head? bs = some (c, w)) :
    ∃ rest, bs = utf8EncodeChar c ++ rest ∧ w = (utf8EncodeChar c).length := by
  cases bs with
  | nil => cases h
  | cons b rest =>
    rcases Nat.lt_or_ge b.toNat 0x80 with h1 | h1
    · exact eq_append_of_head?_one h1 h
    rcases Nat.lt_or_ge b.toNat 0xC0 with h2 | h2
    · rw [head?_eq_none h1 (Or.inl h2)] at h
      cases h
    rcases Nat.lt_or_ge b.toNat 0xE0 with h3 | h3
    · exact eq_append_of_head?_two h2 h3 h
    rcases Nat.lt_or_ge b.toNat 0xF0 with h4 | h4
    · exact eq_append_of_head?_three h3 h4 h
    rcases Nat.lt_or_ge b.toNat 0xF8 with h5 | h5
    · exact eq_append_of_head?_four h4 h5 h
    · rw [head?_eq_none h1 (Or.inr h5)] at h
      cases h

/-! ## A whole byte list -/

/-- The byte list is not empty and does not begin with a character. -/
def Malformed (bs : List UInt8) : Prop :=
  bs ≠ [] ∧ ∀ c : Char, ¬utf8EncodeChar c <+: bs

theorem encodeChar_ne_nil (c : Char) : utf8EncodeChar c ≠ [] := by
  intro h
  have hread := head?_encodeChar_append c []
  rw [h] at hread
  cases hread

/-- A byte below `0x80` completes no character. -/
theorem Malformed.append_ascii {bs : List UInt8} (h : Malformed bs) {b : UInt8}
    (hb : b.toNat < 0x80) (rest : List UInt8) : Malformed (bs ++ b :: rest) := by
  refine ⟨List.append_ne_nil_of_left_ne_nil h.1 _, fun c hc => ?_⟩
  rcases List.prefix_or_prefix_of_prefix hc (List.prefix_append bs _) with hbs | ⟨tail, htail⟩
  · exact h.2 c hbs
  obtain ⟨behind, hbehind⟩ := hc
  rw [← htail, List.append_assoc, List.append_cancel_left_eq] at hbehind
  cases tail with
  | nil => exact h.2 c ⟨[], by rw [← htail, List.append_nil, List.append_nil]⟩
  | cons d ds =>
    obtain ⟨rfl, -⟩ := List.cons.inj hbehind
    rcases Nat.lt_or_ge c.toNat 0x80 with hc | hc
    · have hlen := congrArg List.length htail
      have hpos := List.length_pos_iff.mpr h.1
      rw [encodeChar_one hc, List.length_append] at hlen
      simp only [List.length_cons, List.length_nil] at hlen
      omega
    · have hle : 0x80 ≤ d.toNat := le_of_mem_encodeChar hc (by rw [← htail]; simp)
      omega

theorem encode_ne_nil {cs : List Char} (h : cs ≠ []) : encode cs ≠ [] := by
  cases cs with
  | nil => exact absurd rfl h
  | cons c cs =>
    rw [encode_cons]
    exact List.append_ne_nil_of_left_ne_nil (encodeChar_ne_nil c) _

theorem decodeFrom_append (xs : List UInt8) :
    ∀ (position : Nat) (rest : List UInt8),
      decodeFrom xs.length position (xs ++ rest) = decodeFrom 0 (position + xs.length) rest := by
  induction xs with
  | nil => exact fun position rest => rfl
  | cons x xs ih =>
    intro position rest
    rw [List.length_cons, List.cons_append, decodeFrom, ih]
    congr 1
    omega

theorem decodeFrom_encodeChar_append (c : Char) (position : Nat) (rest : List UInt8) :
    decodeFrom 0 position (utf8EncodeChar c ++ rest) =
      (decodeFrom 0 (position + (utf8EncodeChar c).length) rest).map (c :: ·) := by
  have hread := head?_encodeChar_append c rest
  obtain ⟨b, bs, hbs⟩ := List.exists_cons_of_ne_nil (encodeChar_ne_nil c)
  rw [hbs, List.cons_append] at hread ⊢
  rw [decodeFrom, hread]
  simp only [List.length_cons, Nat.add_sub_cancel]
  rw [decodeFrom_append, Nat.add_assoc, Nat.add_comm 1]

theorem decodeFrom_encode_append (cs : List Char) :
    ∀ (position : Nat) (rest : List UInt8),
      decodeFrom 0 position (encode cs ++ rest) =
        (decodeFrom 0 (position + (encode cs).length) rest).map (cs ++ ·) := by
  induction cs with
  | nil =>
    intro position rest
    cases h : decodeFrom 0 position rest <;> simp [encode_nil, h, Except.map]
  | cons c cs ih =>
    intro position rest
    rw [encode_cons, List.append_assoc, decodeFrom_encodeChar_append, ih, List.length_append,
      Nat.add_assoc]
    cases decodeFrom 0 (position + ((utf8EncodeChar c).length + (encode cs).length)) rest <;> rfl

theorem decodeFrom_of_malformed {bs : List UInt8} (h : Malformed bs) (position : Nat) :
    decodeFrom 0 position bs = .error position := by
  obtain ⟨hne, hnot⟩ := h
  cases bs with
  | nil => exact absurd rfl hne
  | cons b bs =>
    cases hread : head? (b :: bs) with
    | none => rw [decodeFrom, hread]
    | some cw =>
      obtain ⟨rest, hrest, _⟩ := eq_encodeChar_append_of_head? (c := cw.1) (w := cw.2) hread
      exact absurd ⟨rest, hrest.symm⟩ (hnot cw.1)

/-- Every byte list is the encoding of a text, up to its end or up to a place where no
character begins. -/
theorem exists_encode_append (bs : List UInt8) :
    ∃ cs rest, bs = encode cs ++ rest ∧ (rest = [] ∨ Malformed rest) := by
  induction hn : bs.length using Nat.strongRecOn generalizing bs with
  | ind n ih =>
    by_cases hbad : bs = [] ∨ Malformed bs
    · exact ⟨[], bs, rfl, hbad⟩
    · rw [not_or, Malformed, not_and, Classical.not_forall_not] at hbad
      obtain ⟨c, rest, hrest⟩ := hbad.2 hbad.1
      have hlt : rest.length < n := by
        rw [← hn, ← hrest, List.length_append]
        have := List.length_pos_iff.mpr (encodeChar_ne_nil c)
        omega
      obtain ⟨cs, tail, htail, hend⟩ := ih _ hlt rest rfl
      exact ⟨c :: cs, tail, by rw [encode_cons, List.append_assoc, ← htail, hrest], hend⟩

/-- Decoding undoes encoding. -/
theorem decode_encode (cs : List Char) : decode (encode cs) = .ok cs := by
  have h := decodeFrom_encode_append cs 0 []
  rw [List.append_nil, decodeFrom] at h
  rw [decode, h, Except.map, List.append_nil]

/-- Where no character begins, decoding stops. -/
theorem decode_encode_append_of_malformed (cs : List Char) {rest : List UInt8}
    (h : Malformed rest) : decode (encode cs ++ rest) = .error (encode cs).length := by
  rw [decode, decodeFrom_encode_append, decodeFrom_of_malformed h, Nat.zero_add]
  rfl

/-- Decoding accepts the encodings of texts and nothing else. -/
theorem decode_eq_ok_iff {bs : List UInt8} {cs : List Char} :
    decode bs = .ok cs ↔ bs = encode cs := by
  constructor
  · intro h
    obtain ⟨ds, rest, rfl, rfl | hrest⟩ := exists_encode_append bs
    · rw [List.append_nil, decode_encode] at h
      rw [List.append_nil, Except.ok.inj h]
    · rw [decode_encode_append_of_malformed ds hrest] at h
      cases h
  · intro h
    subst h
    exact decode_encode cs

/-- What follows the encoding of a text in an encoding is one, too. -/
theorem exists_of_encode_append_eq {cs ds : List Char} {rest : List UInt8}
    (h : encode cs ++ rest = encode ds) : ∃ es, rest = encode es ∧ ds = cs ++ es := by
  obtain ⟨es, bad, rfl, rfl | hbad⟩ := exists_encode_append rest
  · rw [List.append_nil, ← encode_append, ← decode_eq_ok_iff, decode_encode] at h
    exact ⟨es, List.append_nil _, (Except.ok.inj h).symm⟩
  · rw [← List.append_assoc, ← encode_append, ← decode_eq_ok_iff,
      decode_encode_append_of_malformed _ hbad] at h
    cases h

/-- The index of an error is the place where no character begins. -/
theorem decode_eq_error_iff {bs : List UInt8} {i : Nat} :
    decode bs = .error i ↔
      ∃ cs rest, bs = encode cs ++ rest ∧ Malformed rest ∧ i = (encode cs).length := by
  constructor
  · intro h
    obtain ⟨ds, rest, rfl, rfl | hrest⟩ := exists_encode_append bs
    · rw [List.append_nil, decode_encode] at h
      cases h
    · rw [decode_encode_append_of_malformed ds hrest] at h
      exact ⟨ds, rest, rfl, hrest, (Except.error.inj h).symm⟩
  · intro h
    rcases h with ⟨cs, rest, rfl, hrest, rfl⟩
    exact decode_encode_append_of_malformed cs hrest

/-- Characters below `0x80` at the end are decoded by themselves. -/
theorem decode_append_ascii (bs : List UInt8) {cs : List Char} (hcs : ∀ c ∈ cs, c.toNat < 0x80) :
    decode (bs ++ encode cs) = (decode bs).map (· ++ cs) := by
  obtain ⟨ds, bad, rfl, rfl | hbad⟩ := exists_encode_append bs
  · rw [List.append_nil, ← encode_append, decode_encode, decode_encode]
    rfl
  rw [List.append_assoc, decode_encode_append_of_malformed ds hbad]
  cases cs with
  | nil => rw [encode_nil, List.append_nil, decode_encode_append_of_malformed ds hbad]; rfl
  | cons c cs =>
    have hc : c.toNat < 0x80 := hcs c List.mem_cons_self
    have hbyte : (UInt8.ofNat c.toNat).toNat < 0x80 := by
      rw [toNat_byte (by omega)]
      exact hc
    rw [encode_cons, encodeChar_one hc, List.singleton_append,
      decode_encode_append_of_malformed ds (hbad.append_ascii hbyte _)]
    rfl

end BenchCharts.Text.Utf8
