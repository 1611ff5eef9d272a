import BenchCharts.Proofs.Text.Utf8
import BenchCharts.Text.Blank

/-!
# Laws of trimming

Blanks at the ends of a list do not count (`trimBoth_append`).  Blank bytes encode
blank characters, so bytes can be trimmed before they are decoded and the text
after that: nothing is lost but blanks, and what was no text is none afterwards
(`decode_trimBytes_map_trim`).
-/

namespace BenchCharts.Text

open String (utf8EncodeChar)

/-! ## Both ends of a list -/

section TrimBoth

variable {α : Type} {p : α → Bool}

theorem trimBoth_append {lead tail : List α} (hlead : ∀ x ∈ lead, p x = true)
    (htail : ∀ x ∈ tail, p x = true) (xs : List α) :
    trimBoth p (lead ++ xs ++ tail) = trimBoth p xs := by
  unfold trimBoth
  rw [List.append_assoc, List.dropWhile_append_of_pos hlead, List.dropWhile_append]
  cases hxs : xs.dropWhile p with
  | nil =>
    have hnil : tail.dropWhile p = [] := by
      have h : (tail ++ []).dropWhile p = [].dropWhile p := List.dropWhile_append_of_pos htail
      rw [List.append_nil] at h
      exact h
    rw [List.isEmpty_nil, if_pos rfl, hnil]
  | cons y ys =>
    have hrev : ∀ x ∈ tail.reverse, p x = true := fun x hx => htail x (List.mem_reverse.mp hx)
    rw [List.isEmpty_cons, if_neg Bool.false_ne_true, List.reverse_append,
      List.dropWhile_append_of_pos hrev]

/-- A list without blanks at its ends is left as it is. -/
theorem trimBoth_eq_self {xs : List α} (hhead : ∀ x ∈ xs.head?, p x = false)
    (hlast : ∀ x ∈ xs.getLast?, p x = false) : trimBoth p xs = xs := by
  have hkeep : ∀ ys : List α, (∀ y ∈ ys.head?, p y = false) → ys.dropWhile p = ys := by
    intro ys hys
    cases ys with
    | nil => rfl
    | cons y ys => rw [List.dropWhile_cons, hys y rfl, if_neg Bool.false_ne_true]
  unfold trimBoth
  rw [hkeep xs hhead, hkeep xs.reverse (by rw [List.head?_reverse]; exact hlast),
    List.reverse_reverse]

/-- What is trimmed at the end. -/
theorem exists_dropWhile_eq (p : α → Bool) (xs : List α) :
    ∃ tail, xs.dropWhile p = trimBoth p xs ++ tail ∧ ∀ x ∈ tail, p x = true := by
  refine ⟨((xs.dropWhile p).reverse.takeWhile p).reverse, ?_, fun x hx => ?_⟩
  · unfold trimBoth
    rw [← List.reverse_append, List.takeWhile_append_dropWhile, List.reverse_reverse]
  · exact List.all_eq_true.mp List.all_takeWhile x (List.mem_reverse.mp hx)

end TrimBoth

theorem trim_append {lead tail : List Char} (hlead : ∀ c ∈ lead, isBlank c = true)
    (htail : ∀ c ∈ tail, isBlank c = true) (cs : List Char) :
    trim (lead ++ cs ++ tail) = trim cs :=
  trimBoth_append hlead htail cs

/-- The characters of ASCII that leave a trace are not blank. -/
theorem isBlank_eq_false_of_printable {c : Char} (h : 33 ≤ c.toNat) (h' : c.toNat ≤ 126) :
    isBlank c = false := by
  have hspace : c ≠ ' ' := by
    intro h
    subst h
    exact absurd h (by decide)
  have hwide : c.toNat ∉ wideBlanks := by
    intro hmem
    simp only [wideBlanks, List.mem_cons, List.not_mem_nil, or_false] at hmem
    omega
  have hcontrol : 9 ≤ c.toNat → 13 < c.toNat := by omega
  simpa [isBlank, hspace, hwide] using hcontrol

theorem isBlank_eq_false_of_isDigit {c : Char} (h : c.isDigit = true) : isBlank c = false := by
  obtain ⟨h0, h9⟩ := Char.isDigit_iff_toNat.mp h
  have h0' : 48 ≤ c.toNat := h0
  have h9' : c.toNat ≤ 57 := h9
  exact isBlank_eq_false_of_printable (by omega) (by omega)

/-- A text without any blank is left as it is. -/
theorem trim_eq_self {cs : List Char} (h : ∀ c ∈ cs, isBlank c = false) : trim cs = cs := by
  apply trimBoth_eq_self
  · exact fun c hc => h c (List.mem_of_mem_head? hc)
  · exact fun c hc => h c (List.mem_of_mem_getLast? hc)

/-! ## Blank bytes -/

/-- A blank byte is a blank character of ASCII. -/
theorem exists_of_isBlankByte {b : UInt8} (h : isBlankByte b = true) :
    ∃ c : Char, utf8EncodeChar c = [b] ∧ isBlank c = true ∧ c.toNat < 0x80 := by
  simp only [isBlankByte, Bool.or_eq_true, decide_eq_true_eq] at h
  rcases h with (((rfl | rfl) | rfl) | rfl) | rfl
  · exact ⟨' ', by decide⟩
  · exact ⟨'\t', by decide⟩
  · exact ⟨'\n', by decide⟩
  · exact ⟨'\x0c', by decide⟩
  · exact ⟨'\r', by decide⟩

theorem exists_of_blankBytes {bs : List UInt8} (h : ∀ b ∈ bs, isBlankByte b = true) :
    ∃ cs, bs = Utf8.encode cs ∧ ∀ c ∈ cs, isBlank c = true ∧ c.toNat < 0x80 := by
  induction bs with
  | nil => exact ⟨[], rfl, by simp⟩
  | cons b bs ih =>
    obtain ⟨hb, hbs⟩ := List.forall_mem_cons.mp h
    obtain ⟨c, hc, hblank⟩ := exists_of_isBlankByte hb
    obtain ⟨cs, rfl, hcs⟩ := ih hbs
    refine ⟨c :: cs, ?_, List.forall_mem_cons.mpr ⟨hblank, hcs⟩⟩
    rw [Utf8.encode_cons, hc, List.singleton_append]

/-- Blank bytes at the end change neither the trimmed text nor the place of an error. -/
theorem decode_trimBytes_map_trim (bs : List UInt8) :
    (Utf8.decode (trimBytes bs)).map trim
      = (Utf8.decode (bs.dropWhile isBlankByte)).map trim := by
  obtain ⟨tail, htrim, htail⟩ := exists_dropWhile_eq isBlankByte bs
  obtain ⟨cs, rfl, hcs⟩ := exists_of_blankBytes htail
  rw [htrim, Utf8.decode_append_ascii _ fun c hc => (hcs c hc).2]
  show (Utf8.decode (trimBytes bs)).map trim = ((Utf8.decode (trimBytes bs)).map _).map trim
  cases Utf8.decode (trimBytes bs) with
  | error i => rfl
  | ok ds =>
    have h : trim ([] ++ ds ++ cs) = trim ds :=
      trim_append (by simp) (fun c hc => (hcs c hc).1) ds
    exact congrArg Except.ok h.symm

/-- The bytes of a text are its blanks and the bytes behind them. -/
theorem dropWhile_isBlankByte_eq_encode_iff {bs : List UInt8} {text : List Char} :
    (∃ cs, bs.dropWhile isBlankByte = Utf8.encode cs ∧ text = trim cs)
      ↔ ∃ cs, bs = Utf8.encode cs ∧ text = trim cs := by
  have hlead : ∀ b ∈ bs.takeWhile isBlankByte, isBlankByte b = true :=
    List.all_eq_true.mp List.all_takeWhile
  obtain ⟨lead, hbytes, hlead⟩ := exists_of_blankBytes hlead
  have hsplit : bs = Utf8.encode lead ++ bs.dropWhile isBlankByte := by
    rw [← hbytes, List.takeWhile_append_dropWhile]
  have htrim : ∀ cs, trim (lead ++ cs) = trim cs := by
    intro cs
    have h : trim (lead ++ cs ++ []) = trim cs :=
      trim_append (fun c hc => (hlead c hc).1) (by simp) cs
    rwa [List.append_nil] at h
  constructor
  · intro h
    rcases h with ⟨cs, hcs, rfl⟩
    refine ⟨lead ++ cs, ?_, (htrim cs).symm⟩
    rw [Utf8.encode_append, ← hcs, ← hsplit]
  · intro h
    rcases h with ⟨cs, hcs, rfl⟩
    obtain ⟨es, hes, rfl⟩ := Utf8.exists_of_encode_append_eq (hsplit.symm.trans hcs)
    exact ⟨es, hes, htrim es⟩

end BenchCharts.Text
