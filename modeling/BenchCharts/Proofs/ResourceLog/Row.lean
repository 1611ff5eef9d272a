import BenchCharts.Proofs.Decimal.Literal
import BenchCharts.Proofs.ResourceLog.Seconds
import BenchCharts.Proofs.Text.Blank
import BenchCharts.ResourceLog.Decoder

/-!
# What a row means

`IsRow` says which sample the fields of a row hold: all of them are texts, and the
first three are numbers once their blanks are gone.  `RowFails` says what is wrong
with fields that hold none.  Of several faults it is the first that counts: the
number of fields, then the first field that is no text, then the first of the three
numbers that is missing or malformed.

`readRow` answers the one or the other (`readRow_eq_ok_iff` and
`readRow_eq_error_iff`).
-/

namespace BenchCharts.ResourceLog

open Text

/-! ## Texts of fields -/

/-- The bytes are no text.  Counted from the first byte that is not blank, no character
begins at `index`, and only characters stand before it. -/
def NoText (bytes : List UInt8) (index : Nat) : Prop :=
  ∃ cs rest, bytes.dropWhile isBlankByte = Utf8.encode cs ++ rest ∧ Utf8.Malformed rest ∧
    index = (Utf8.encode cs).length

theorem fieldText_eq_ok_iff {field : Nat} {bytes : List UInt8} {text : List Char} :
    fieldText field bytes = .ok text ↔ ∃ cs, bytes = Utf8.encode cs ∧ text = trim cs := by
  rw [fieldText, Except.mapError_eq_ok_iff, decode_trimBytes_map_trim, Except.map_eq_ok_iff,
    ← dropWhile_isBlankByte_eq_encode_iff]
  simp only [Utf8.decode_eq_ok_iff, @eq_comm _ text]

theorem fieldText_eq_error_iff {field : Nat} {bytes : List UInt8} {fault : RowFault} :
    fieldText field bytes = .error fault
      ↔ ∃ index, NoText bytes index ∧ fault = .encoding field index := by
  rw [fieldText, Except.mapError_eq_error_iff, decode_trimBytes_map_trim]
  simp only [Except.map_eq_error_iff, Utf8.decode_eq_error_iff, NoText, @eq_comm _ fault]

/-- Fields have texts if each of them is one. -/
theorem fieldTexts_eq_ok_iff {field : Nat} {fields : List (List UInt8)}
    {out : List (List Char)} :
    fieldTexts field fields = .ok out
      ↔ ∃ texts : List (List Char), fields = texts.map Utf8.encode ∧ out = texts.map trim := by
  induction fields generalizing field out with
  | nil =>
    constructor
    · intro h
      exact ⟨[], rfl, (Except.ok.inj h).symm⟩
    · intro h
      rcases h with ⟨texts, htexts, rfl⟩
      rw [List.map_eq_nil_iff.mp htexts.symm]
      rfl
  | cons bytes fields ih =>
    unfold fieldTexts
    simp only [Except.bind_eq_ok_iff, fieldText_eq_ok_iff, ih]
    constructor
    · intro h
      rcases h with ⟨_, ⟨cs, rfl, rfl⟩, _, ⟨texts, rfl, rfl⟩, h⟩
      exact ⟨cs :: texts, rfl, (Except.ok.inj h).symm⟩
    · intro h
      rcases h with ⟨texts, htexts, rfl⟩
      obtain ⟨cs, texts, rfl, rfl, rfl⟩ := List.map_eq_cons_iff.mp htexts.symm
      exact ⟨trim cs, ⟨cs, rfl, rfl⟩, texts.map trim, ⟨texts, rfl, rfl⟩, rfl⟩

/-- The first field that is no text is the one that is reported. -/
theorem fieldTexts_eq_error_iff {field : Nat} {fields : List (List UInt8)} {fault : RowFault} :
    fieldTexts field fields = .error fault
      ↔ ∃ (texts : List (List Char)) (bad : List UInt8) (rest : List (List UInt8)) (index : Nat),
          fields = texts.map Utf8.encode ++ bad :: rest ∧ NoText bad index ∧
            fault = .encoding (field + texts.length) index := by
  induction fields generalizing field with
  | nil => simp [fieldTexts]
  | cons bytes fields ih =>
    unfold fieldTexts
    simp only [Except.bind_eq_error_iff, fieldText_eq_error_iff, fieldText_eq_ok_iff, ih]
    constructor
    · intro h
      rcases h with ⟨index, hbad, rfl⟩ | ⟨_, ⟨cs, rfl, rfl⟩, h | ⟨_, _, h⟩⟩
      · exact ⟨[], bytes, fields, index, rfl, hbad, rfl⟩
      · obtain ⟨texts, bad, rest, index, rfl, hbad, rfl⟩ := h
        refine ⟨cs :: texts, bad, rest, index, rfl, hbad, ?_⟩
        rw [List.length_cons, Nat.add_assoc, Nat.add_comm 1]
      · cases h
    · intro h
      rcases h with ⟨texts, bad, rest, index, hfields, hbad, rfl⟩
      cases texts with
      | nil =>
        obtain ⟨rfl, rfl⟩ := List.cons.inj hfields
        exact Or.inl ⟨index, hbad, rfl⟩
      | cons cs texts =>
        obtain ⟨rfl, rfl⟩ := List.cons.inj hfields
        refine Or.inr ⟨trim cs, ⟨cs, rfl, rfl⟩, Or.inl ⟨texts, bad, rest, index, rfl, hbad, ?_⟩⟩
        rw [List.length_cons, Nat.add_assoc, Nat.add_comm 1]

/-! ## Numbers of a row -/

/-- The first three texts of a row are the numbers of a sample. -/
def HoldSample (texts : List (List Char)) (s : Sample) : Prop :=
  ∃ seconds cpu ram more, texts = seconds :: cpu :: ram :: more ∧
    IsSeconds seconds s.seconds.toNat ∧ NumberText cpu s.cpu ∧ NumberText ram s.ram

/-- The first of the three numbers that the texts of a row do not hold. -/
inductive LackNumber : List (List Char) → RowFault → Prop where
  | noSeconds : LackNumber [] (.tooFewFields 0)
  | seconds {time : List Char} {more : List (List Char)} {e : IntegerError} :
      SecondsFail time e → LackNumber (time :: more) (.seconds e)
  | noCpu {time : List Char} {n : UInt64} :
      IsSeconds time n.toNat → LackNumber [time] (.tooFewFields 1)
  | cpu {time cpu : List Char} {more : List (List Char)} {n : UInt64} {e : NumberError} :
      IsSeconds time n.toNat → NumberFails .binary64 cpu e →
      LackNumber (time :: cpu :: more) (.number 1 e)
  | noRam {time cpu : List Char} {n : UInt64} {x : Double} :
      IsSeconds time n.toNat → NumberText cpu x → LackNumber [time, cpu] (.tooFewFields 2)
  | ram {time cpu ram : List Char} {more : List (List Char)} {n : UInt64} {x : Double}
      {e : NumberError} :
      IsSeconds time n.toNat → NumberText cpu x → NumberFails .binary64 ram e →
      LackNumber (time :: cpu :: ram :: more) (.number 2 e)

theorem readSample_of_holdSample {texts : List (List Char)} {s : Sample}
    (h : HoldSample texts s) : readSample texts = .ok s := by
  obtain ⟨time, cpu, ram, more, rfl, htime, hcpu, hram⟩ := h
  simp only [readSample, readField, readSeconds_eq_ok_iff.mpr htime, readNumber_eq_ok_iff.mpr hcpu,
    readNumber_eq_ok_iff.mpr hram]
  rfl

theorem readSample_of_lackNumber {texts : List (List Char)} {fault : RowFault}
    (h : LackNumber texts fault) : readSample texts = .error fault := by
  cases h with
  | noSeconds => rfl
  | seconds htime =>
    simp only [readSample, readSeconds_eq_error_iff.mpr htime]
    rfl
  | noCpu htime =>
    simp only [readSample, readSeconds_eq_ok_iff.mpr htime]
    rfl
  | cpu htime hcpu =>
    simp only [readSample, readField, readSeconds_eq_ok_iff.mpr htime,
      readNumber_eq_error_iff.mpr hcpu]
    rfl
  | noRam htime hcpu =>
    simp only [readSample, readField, readSeconds_eq_ok_iff.mpr htime,
      readNumber_eq_ok_iff.mpr hcpu]
    rfl
  | ram htime hcpu hram =>
    simp only [readSample, readField, readSeconds_eq_ok_iff.mpr htime,
      readNumber_eq_ok_iff.mpr hcpu, readNumber_eq_error_iff.mpr hram]
    rfl

/-- Texts hold a sample or lack a number of it. -/
theorem exists_holdSample_or_lackNumber (texts : List (List Char)) :
    (∃ s, HoldSample texts s) ∨ ∃ fault, LackNumber texts fault := by
  rcases texts with _ | ⟨time, texts⟩
  · exact Or.inr ⟨_, .noSeconds⟩
  cases htime : readSeconds time with
  | error e => exact Or.inr ⟨_, .seconds (readSeconds_eq_error_iff.mp htime)⟩
  | ok n =>
    have hseconds := readSeconds_eq_ok_iff.mp htime
    rcases texts with _ | ⟨cpu, texts⟩
    · exact Or.inr ⟨_, .noCpu hseconds⟩
    cases hcpu : (readNumber cpu : Except NumberError Double) with
    | error e => exact Or.inr ⟨_, .cpu hseconds (readNumber_eq_error_iff.mp hcpu)⟩
    | ok x =>
      have hx := readNumber_eq_ok_iff.mp hcpu
      rcases texts with _ | ⟨ram, texts⟩
      · exact Or.inr ⟨_, .noRam hseconds hx⟩
      cases hram : (readNumber ram : Except NumberError Double) with
      | error e => exact Or.inr ⟨_, .ram hseconds hx (readNumber_eq_error_iff.mp hram)⟩
      | ok y =>
        exact Or.inl ⟨⟨n, x, y⟩, time, cpu, ram, texts, rfl, hseconds, hx,
          readNumber_eq_ok_iff.mp hram⟩

theorem readSample_eq_ok_iff {texts : List (List Char)} {s : Sample} :
    readSample texts = .ok s ↔ HoldSample texts s := by
  refine ⟨fun h => ?_, readSample_of_holdSample⟩
  rcases exists_holdSample_or_lackNumber texts with ⟨t, ht⟩ | ⟨fault, hfault⟩
  · rw [readSample_of_holdSample ht] at h
    rwa [← Except.ok.inj h]
  · rw [readSample_of_lackNumber hfault] at h
    cases h

theorem readSample_eq_error_iff {texts : List (List Char)} {fault : RowFault} :
    readSample texts = .error fault ↔ LackNumber texts fault := by
  refine ⟨fun h => ?_, readSample_of_lackNumber⟩
  rcases exists_holdSample_or_lackNumber texts with ⟨t, ht⟩ | ⟨fault', hfault⟩
  · rw [readSample_of_holdSample ht] at h
    cases h
  · rw [readSample_of_lackNumber hfault] at h
    rwa [← Except.error.inj h]

/-! ## Rows -/

/-- The fields of a row, `width` of them, hold the sample. -/
def IsRow (width : Nat) (fields : List (List UInt8)) (s : Sample) : Prop :=
  fields.length = width ∧
    ∃ texts : List (List Char), fields = texts.map Utf8.encode ∧ HoldSample (texts.map trim) s

/-- The first thing that is wrong with the fields of a row. -/
inductive RowFails (width : Nat) (fields : List (List UInt8)) : RowFault → Prop where
  | fieldCount : fields.length ≠ width → RowFails width fields (.fieldCount width fields.length)
  | encoding {texts : List (List Char)} {bad : List UInt8} {rest : List (List UInt8)}
      {index : Nat} : fields.length = width → fields = texts.map Utf8.encode ++ bad :: rest →
      NoText bad index → RowFails width fields (.encoding texts.length index)
  | number {texts : List (List Char)} {fault : RowFault} : fields.length = width →
      fields = texts.map Utf8.encode → LackNumber (texts.map trim) fault →
      RowFails width fields fault

theorem readRow_eq_ok_iff {width : Nat} {fields : List (List UInt8)} {s : Sample} :
    readRow width fields = .ok s ↔ IsRow width fields s := by
  unfold readRow IsRow
  by_cases hwidth : fields.length = width
  · rw [if_neg (not_not_intro hwidth), Except.bind_eq_ok_iff]
    simp only [fieldTexts_eq_ok_iff, readSample_eq_ok_iff, hwidth, true_and]
    constructor
    · intro h
      rcases h with ⟨_, ⟨texts, htexts, rfl⟩, h⟩
      exact ⟨texts, htexts, h⟩
    · intro h
      rcases h with ⟨texts, htexts, h⟩
      exact ⟨_, ⟨texts, htexts, rfl⟩, h⟩
  · rw [if_pos hwidth]
    simp only [reduceCtorEq, hwidth, false_and]

theorem readRow_eq_error_iff {width : Nat} {fields : List (List UInt8)} {fault : RowFault} :
    readRow width fields = .error fault ↔ RowFails width fields fault := by
  unfold readRow
  by_cases hwidth : fields.length = width
  · rw [if_neg (not_not_intro hwidth), Except.bind_eq_error_iff]
    simp only [fieldTexts_eq_ok_iff, fieldTexts_eq_error_iff, readSample_eq_error_iff]
    constructor
    · intro h
      rcases h with ⟨texts, bad, rest, index, hfields, hbad, rfl⟩ | ⟨_, ⟨texts, htexts, rfl⟩, h⟩
      · rw [Nat.zero_add]
        exact .encoding hwidth hfields hbad
      · exact .number hwidth htexts h
    · intro h
      cases h with
      | fieldCount hne => exact absurd hwidth hne
      | @encoding texts bad rest index _ hfields hbad =>
        exact Or.inl ⟨texts, bad, rest, index, hfields, hbad, by rw [Nat.zero_add]⟩
      | @number texts _ _ htexts h => exact Or.inr ⟨_, ⟨texts, htexts, rfl⟩, h⟩
  · rw [if_pos hwidth]
    constructor
    · intro h
      rw [← Except.error.inj h]
      exact .fieldCount hwidth
    · intro h
      cases h with
      | fieldCount => rfl
      | encoding heq => exact absurd heq hwidth
      | number heq => exact absurd heq hwidth

end BenchCharts.ResourceLog
