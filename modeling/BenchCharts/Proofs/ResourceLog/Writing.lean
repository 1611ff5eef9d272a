import Mathlib.Data.List.Forall2
import BenchCharts.Proofs.ResourceLog.Grammar
import BenchCharts.Proofs.Text.Blank

/-!
# Writing a log

The ways in which texts can be written as a log.  Every field is written bare, if
that is possible, or in quotes, and blanks can stand around it; every record ends
in one of three line ends, and empty lines can stand between records.  `WritesField`,
`WritesRecord` and `WritesLines` relate texts to what is written for them, so that
each choice is made anew for each field and each record.

What is written is a log in the sense of the grammar, and its fields hold the texts
up to blanks (`WritesLines.exists_logText`).

A header whose first text begins with a byte order mark is the one place where a
character can be lost: without a mark before it, that character is taken for one.
`WritesLines.drop_mark` says that the log behind it still has a header of the same
width.
-/

namespace BenchCharts.ResourceLog

open String (utf8EncodeChar)
open Text

/-! ## Texts as they are written -/

/-- The character ends a line. -/
def IsLineEnd (c : Char) : Prop :=
  c = '\n' ∨ c = '\r'

instance (c : Char) : Decidable (IsLineEnd c) :=
  inferInstanceAs (Decidable (_ ∨ _))

/-- The text has to stand in quotes. -/
def NeedsQuotes (text : List Char) : Prop :=
  ∃ c ∈ text, c = ',' ∨ c = '"' ∨ IsLineEnd c

instance (text : List Char) : Decidable (NeedsQuotes text) :=
  List.decidableBEx _ text

/-- Blanks only. -/
def IsBlanks (cs : List Char) : Prop :=
  ∀ c ∈ cs, isBlank c = true

instance (cs : List Char) : Decidable (IsBlanks cs) :=
  List.decidableBAll _ cs

/-- Blanks that stay in their line. -/
def IsPadding (cs : List Char) : Prop :=
  ∀ c ∈ cs, isBlank c = true ∧ ¬IsLineEnd c

instance (cs : List Char) : Decidable (IsPadding cs) :=
  List.decidableBAll _ cs

/-- Line ends only. -/
def IsEmptyLines (cs : List Char) : Prop :=
  ∀ c ∈ cs, IsLineEnd c

instance (cs : List Char) : Decidable (IsEmptyLines cs) :=
  List.decidableBAll _ cs

/-- A text with every quote in it written twice. -/
def doubled (text : List Char) : List Char :=
  text.flatMap fun c => if c = '"' then ['"', '"'] else [c]

/-- A text and a field that is written for it. -/
inductive WritesField (text : List Char) : List Char → Prop where
  | bare {left right : List Char} : ¬NeedsQuotes text → IsPadding left → IsPadding right →
      WritesField text (left ++ text ++ right)
  | quoted {left right : List Char} : IsBlanks left → IsBlanks right →
      WritesField text ('"' :: (doubled (left ++ text ++ right) ++ ['"']))

/-- The texts of a record, and the record without its line end. -/
inductive WritesRecord : List (List Char) → List Char → Prop where
  | one {text written : List Char} : WritesField text written → WritesRecord [text] written
  | more {text written rest : List Char} {texts : List (List Char)} : WritesField text written →
      WritesRecord texts rest → WritesRecord (text :: texts) (written ++ ',' :: rest)

/-- The end of a record. -/
inductive EndsRecord : List Char → Prop where
  | lf : EndsRecord ['\n']
  | cr : EndsRecord ['\r']
  | crlf : EndsRecord ['\r', '\n']

/-- The texts of records, and the lines that are written for them.  Between records
stand empty lines. -/
inductive WritesLines : List (List (List Char)) → List Char → Prop where
  | done {blank : List Char} : IsEmptyLines blank → WritesLines [] blank
  | record {blank written stop rest : List Char} {texts : List (List Char)}
      {records : List (List (List Char))} : IsEmptyLines blank →
      WritesRecord texts written → EndsRecord stop → WritesLines records rest →
      WritesLines (texts :: records) (blank ++ written ++ stop ++ rest)
  | last {blank written : List Char} {texts : List (List Char)} : IsEmptyLines blank →
      WritesRecord texts written → WritesLines [texts] (blank ++ written)

/-! ## Bytes of what is written -/

theorem comma_not_mem_encodeChar {c : Char} (h : c ≠ ',') : comma ∉ utf8EncodeChar c :=
  Utf8.not_mem_encodeChar (d := ',') (by decide) h

theorem quote_not_mem_encodeChar {c : Char} (h : c ≠ '"') : quote ∉ utf8EncodeChar c :=
  Utf8.not_mem_encodeChar (d := '"') (by decide) h

theorem isBreak_of_mem_encodeChar {c : Char} (h : ¬IsLineEnd c) {b : UInt8}
    (hb : b ∈ utf8EncodeChar c) : isBreak b = false := by
  have hfeed : b ≠ lineFeed := by
    intro h
    subst h
    exact Utf8.not_mem_encodeChar (d := '\n') (by decide) (fun hc => h (Or.inl hc)) hb
  have hreturn : b ≠ carriageReturn := by
    intro h
    subst h
    exact Utf8.not_mem_encodeChar (d := '\r') (by decide) (fun hc => h (Or.inr hc)) hb
  simp [isBreak, hfeed, hreturn]

theorem isPlain_of_mem_encode {cs : List Char} (h : ∀ c ∈ cs, c ≠ ',' ∧ ¬IsLineEnd c) {b : UInt8}
    (hb : b ∈ Utf8.encode cs) : IsPlain b := by
  obtain ⟨c, hc, hb⟩ := List.mem_flatMap.mp hb
  refine ⟨?_, isBreak_of_mem_encodeChar (h c hc).2 hb⟩
  intro h
  subst h
  exact comma_not_mem_encodeChar (h c hc).1 hb

theorem isBlankLines_encode {cs : List Char} (h : IsEmptyLines cs) :
    IsBlankLines (Utf8.encode cs) := by
  intro b hb
  obtain ⟨c, hc, hb⟩ := List.mem_flatMap.mp hb
  rcases h c hc with rfl | rfl
  · rw [List.mem_singleton.mp hb]
    rfl
  · rw [List.mem_singleton.mp hb]
    rfl

theorem isBlankLines_encode_append {lead blank : List Char} (hlead : IsEmptyLines lead)
    (hblank : IsEmptyLines blank) : IsBlankLines (Utf8.encode (lead ++ blank)) := by
  apply isBlankLines_encode
  intro c hc
  rcases List.mem_append.mp hc with hc | hc
  · exact hlead c hc
  · exact hblank c hc

/-- Doubling quotes before encoding is doubling them in the bytes. -/
theorem encode_doubled (cs : List Char) :
    Utf8.encode (doubled cs) = doubleQuotes (Utf8.encode cs) := by
  have hself : ∀ bs rest : List UInt8, quote ∉ bs →
      doubleQuotes (bs ++ rest) = bs ++ doubleQuotes rest := by
    intro bs rest hbs
    induction bs with
    | nil => rfl
    | cons b bs ih =>
      rw [List.mem_cons, not_or] at hbs
      rw [List.cons_append, doubleQuotes_cons_of_ne (Ne.symm hbs.1), ih hbs.2, List.cons_append]
  induction cs with
  | nil => rfl
  | cons c cs ih =>
    rw [doubled, List.flatMap_cons, ← doubled, Utf8.encode_append, Utf8.encode_cons, ih]
    by_cases hc : c = '"'
    · subst hc
      rw [if_pos rfl]
      exact (doubleQuotes_cons_quote _).symm
    · rw [if_neg hc, hself _ _ (quote_not_mem_encodeChar hc), Utf8.encode_cons, Utf8.encode_nil,
        List.append_nil]

/-- The byte of a quote does not begin what has no quote in it. -/
theorem head?_encode_ne_quote {cs : List Char} (h : ∀ c ∈ cs, c ≠ '"') :
    (Utf8.encode cs).head? ≠ some quote := by
  intro hhead
  obtain ⟨c, hc, hb⟩ := List.mem_flatMap.mp (List.mem_of_mem_head? hhead)
  exact quote_not_mem_encodeChar (h c hc) hb

/-! ## What is written is a log -/

/-- What is written for a text is a field that holds it up to blanks. -/
theorem WritesField.exists_fieldText {text written : List Char} (h : WritesField text written)
    (atEnd : Bool) :
    ∃ padded, FieldText atEnd (Utf8.encode written) (Utf8.encode padded) ∧
      trim padded = trim text := by
  cases h with
  | @bare left right htext hleft hright =>
    have hall : ∀ c ∈ left ++ text ++ right, c ≠ ',' ∧ c ≠ '"' ∧ ¬IsLineEnd c := by
      have hpad : ∀ c : Char, isBlank c = true ∧ ¬IsLineEnd c →
          c ≠ ',' ∧ c ≠ '"' ∧ ¬IsLineEnd c := by
        intro c h
        rcases h with ⟨hblank, hend⟩
        refine ⟨?_, ?_, hend⟩
        · intro h
          subst h
          exact absurd hblank (by decide)
        · intro h
          subst h
          exact absurd hblank (by decide)
      intro c hc
      rw [List.mem_append, List.mem_append] at hc
      rcases hc with (hc | hc) | hc
      · exact hpad c (hleft c hc)
      · exact ⟨fun h => htext ⟨c, hc, Or.inl h⟩, fun h => htext ⟨c, hc, Or.inr (Or.inl h)⟩,
          fun h => htext ⟨c, hc, Or.inr (Or.inr h)⟩⟩
      · exact hpad c (hright c hc)
    refine ⟨left ++ text ++ right, FieldText.bare ?_ ?_, ?_⟩
    · exact fun b hb => isPlain_of_mem_encode (fun c hc => ⟨(hall c hc).1, (hall c hc).2.2⟩) hb
    · exact head?_encode_ne_quote fun c hc => (hall c hc).2.1
    · exact trim_append (fun c hc => (hleft c hc).1) (fun c hc => (hright c hc).1) text
  | @quoted left right hleft hright =>
    refine ⟨left ++ text ++ right, ?_, trim_append hleft hright text⟩
    have hfield : FieldText atEnd
        (quote :: (doubleQuotes (Utf8.encode (left ++ text ++ right)) ++ quote :: []))
        (Utf8.encode (left ++ text ++ right) ++ []) :=
      FieldText.quoted (by simp) (by simp)
    rw [List.append_nil, ← encode_doubled] at hfield
    rw [Utf8.encode_cons, Utf8.encode_append]
    exact hfield

theorem WritesRecord.exists_recordText {texts : List (List Char)} {written : List Char}
    (h : WritesRecord texts written) (atEnd : Bool) :
    ∃ padded : List (List Char),
      RecordText atEnd (Utf8.encode written) (padded.map Utf8.encode) ∧
      padded.map trim = texts.map trim := by
  induction h with
  | one hfield =>
    obtain ⟨padded, htext, htrim⟩ := hfield.exists_fieldText atEnd
    exact ⟨[padded], RecordText.one htext, by rw [List.map_singleton, htrim, List.map_singleton]⟩
  | more hfield _ ih =>
    obtain ⟨padded, htext, htrim⟩ := hfield.exists_fieldText false
    obtain ⟨rest, hrest, htrims⟩ := ih
    refine ⟨padded :: rest, ?_, by rw [List.map_cons, htrim, htrims, List.map_cons]⟩
    rw [Utf8.encode_append, Utf8.encode_cons]
    exact RecordText.more htext hrest

/-- A record of more than one text is not written as an empty line. -/
theorem WritesRecord.ne_nil {texts : List (List Char)} {written : List Char}
    (h : WritesRecord texts written) (hlen : 2 ≤ texts.length) : written ≠ [] := by
  cases h with
  | one => exact absurd hlen (by simp)
  | more => simp

/-- The fields hold the texts up to blanks. -/
def HoldTexts (fields : List (List UInt8)) (texts : List (List Char)) : Prop :=
  ∃ padded : List (List Char), fields = padded.map Utf8.encode ∧ padded.map trim = texts.map trim

/-- The first character of a line end ends the record, and what is left of it is an
empty line. -/
theorem EndsRecord.exists_eq {stop : List Char} (h : EndsRecord stop) :
    ∃ b lead, Utf8.encode stop = b :: Utf8.encode lead ∧ isBreak b = true ∧
      IsEmptyLines lead := by
  cases h with
  | lf => exact ⟨lineFeed, [], rfl, rfl, by decide⟩
  | cr => exact ⟨carriageReturn, [], rfl, rfl, by decide⟩
  | crlf => exact ⟨carriageReturn, ['\n'], rfl, rfl, by decide⟩

/-- Lines that are written for records are a log of these records.  The line end
behind a record can leave an empty line, so further ones are allowed in front. -/
theorem WritesLines.exists_logText {records : List (List (List Char))} {written : List Char}
    (h : WritesLines records written) (hlen : ∀ texts ∈ records, 2 ≤ texts.length)
    (before : List UInt8) {lead : List Char} (hlead : IsEmptyLines lead) :
    ∃ log, LogText before (Utf8.encode (lead ++ written)) log ∧
      List.Forall₂ (fun p texts => HoldTexts p.fields texts) log records := by
  induction h generalizing before lead with
  | done hblank =>
    exact ⟨[], LogText.done (isBlankLines_encode_append hlead hblank), List.Forall₂.nil⟩
  | @record blank written stop rest texts records hblank hwrites hstop _ ih =>
    obtain ⟨htexts, hrecords⟩ := List.forall_mem_cons.mp hlen
    obtain ⟨padded, hrecord, htrim⟩ := hwrites.exists_recordText false
    obtain ⟨b, behind, hstop, hbreak, hbehind⟩ := hstop.exists_eq
    have hne : Utf8.encode written ≠ [] := Utf8.encode_ne_nil (hwrites.ne_nil htexts)
    have hblanks := isBlankLines_encode_append hlead hblank
    have heq : Utf8.encode (lead ++ (blank ++ written ++ stop ++ rest))
        = Utf8.encode (lead ++ blank) ++ Utf8.encode written
            ++ b :: Utf8.encode (behind ++ rest) := by
      simp only [Utf8.encode_append, hstop, List.append_assoc, List.cons_append]
    -- what the line end leaves behind its first character stands in front of the rest
    obtain ⟨log, hlog, hhold⟩ := ih hrecords
      (before ++ Utf8.encode (lead ++ blank) ++ Utf8.encode written ++ [b]) hbehind
    refine ⟨⟨before, padded.map Utf8.encode⟩ :: log, ?_,
      List.Forall₂.cons ⟨padded, rfl, htrim⟩ hhold⟩
    rw [heq]
    exact LogText.record hblanks hrecord hne hbreak hlog
  | @last blank written texts hblank hwrites =>
    obtain ⟨padded, hrecord, htrim⟩ := hwrites.exists_recordText true
    have hne : Utf8.encode written ≠ [] :=
      Utf8.encode_ne_nil (hwrites.ne_nil (hlen texts List.mem_cons_self))
    refine ⟨[⟨before, padded.map Utf8.encode⟩], ?_,
      List.Forall₂.cons ⟨padded, rfl, htrim⟩ List.Forall₂.nil⟩
    rw [← List.append_assoc, Utf8.encode_append]
    exact LogText.last (isBlankLines_encode_append hlead hblank) hrecord hne

/-! ## A byte order mark that was not meant -/

/-- The character that is written as a byte order mark. -/
def markChar : Char := '\uFEFF'

theorem encode_markChar : Utf8.encode [markChar] = byteOrderMark := by
  decide

/-- The mark at the head of a field belongs to its text. -/
theorem WritesField.drop_mark {text rest : List Char} (h : WritesField text (markChar :: rest)) :
    ∃ text', WritesField text' rest := by
  generalize hwritten : markChar :: rest = written at h
  cases h with
  | @bare left right htext hleft hright =>
    have hblank : isBlank markChar = false := by decide
    cases left with
    | cons c left =>
      obtain ⟨rfl, -⟩ := List.cons.inj hwritten
      exact absurd (hleft _ List.mem_cons_self).1 (by rw [hblank]; exact Bool.false_ne_true)
    | nil =>
      cases text with
      | nil =>
        have hmark : markChar ∈ right := by
          rw [List.nil_append, List.nil_append] at hwritten
          rw [← hwritten]
          exact List.mem_cons_self
        exact absurd (hright _ hmark).1 (by rw [hblank]; exact Bool.false_ne_true)
      | cons c text =>
        obtain ⟨-, rfl⟩ := List.cons.inj hwritten
        have htail : ¬NeedsQuotes text := by
          intro h
          rcases h with ⟨d, hd, hbad⟩
          exact htext ⟨d, List.mem_cons_of_mem c hd, hbad⟩
        have hbare : WritesField text ([] ++ text ++ right) :=
          WritesField.bare htail (by decide) hright
        exact ⟨text, hbare⟩
  | quoted => exact absurd (List.cons.inj hwritten).1 (by decide)

theorem WritesRecord.drop_mark {texts : List (List Char)} {rest : List Char}
    (h : WritesRecord texts (markChar :: rest)) :
    ∃ texts', texts'.length = texts.length ∧ WritesRecord texts' rest := by
  generalize hwritten : markChar :: rest = written at h
  cases h with
  | one hfield =>
    rw [← hwritten] at hfield
    obtain ⟨text', htext'⟩ := hfield.drop_mark
    exact ⟨[text'], rfl, WritesRecord.one htext'⟩
  | @more text written behind texts hfield hrest =>
    cases written with
    | nil => exact absurd (List.cons.inj hwritten).1 (by decide)
    | cons c written =>
      obtain ⟨rfl, rfl⟩ := List.cons.inj hwritten
      obtain ⟨text', htext'⟩ := hfield.drop_mark
      exact ⟨text' :: texts, rfl, WritesRecord.more htext' hrest⟩

/-- Without the mark at its head, what is written still has the same rows behind a
header of the same width. -/
theorem WritesLines.drop_mark {header : List (List Char)} {records : List (List (List Char))}
    {rest : List Char} (h : WritesLines (header :: records) (markChar :: rest))
    (hlen : 2 ≤ header.length) :
    ∃ header', header'.length = header.length ∧ WritesLines (header' :: records) rest := by
  have hblank : ∀ {blank behind : List Char}, IsEmptyLines blank →
      markChar :: rest = blank ++ behind → blank = [] := by
    intro blank behind hends heq
    cases blank with
    | nil => rfl
    | cons c blank =>
      obtain ⟨rfl, -⟩ := List.cons.inj heq
      exact absurd (hends _ List.mem_cons_self) (by unfold IsLineEnd; decide)
  generalize hwritten : markChar :: rest = written at h
  cases h with
  | @record blank written stop behind _ _ hends hrecord hstop hrest =>
    rw [List.append_assoc, List.append_assoc] at hwritten
    obtain rfl := hblank hends hwritten
    obtain ⟨c, written, rfl⟩ := List.exists_cons_of_ne_nil (hrecord.ne_nil hlen)
    obtain ⟨rfl, rfl⟩ := List.cons.inj hwritten
    obtain ⟨header', hlen', hrecord'⟩ := hrecord.drop_mark
    have hlines : WritesLines (header' :: records) ([] ++ written ++ stop ++ behind) :=
      WritesLines.record (by decide) hrecord' hstop hrest
    rw [List.nil_append, List.append_assoc] at hlines
    exact ⟨header', hlen', hlines⟩
  | @last blank written _ hends hrecord =>
    obtain rfl := hblank hends hwritten
    obtain ⟨c, written, rfl⟩ := List.exists_cons_of_ne_nil (hrecord.ne_nil hlen)
    obtain ⟨rfl, rfl⟩ := List.cons.inj hwritten
    obtain ⟨header', hlen', hrecord'⟩ := hrecord.drop_mark
    have hlines : WritesLines [header'] ([] ++ rest) := WritesLines.last (by decide) hrecord'
    exact ⟨header', hlen', hlines⟩

end BenchCharts.ResourceLog
