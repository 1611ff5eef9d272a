import BenchCharts.ResourceLog.Record

/-!
# The grammar of comma-separated bytes

What a log is, said without a reader.  `FieldText`, `RecordText` and `LogText`
are the productions of the grammar; each relates bytes as they stand in a log to
what they mean.

* A field stands bare, or in quotes with every quote inside written twice.  Bytes
  between the closing quote and the end of the field belong to it as they are.
* A record is one field or more with commas between them.  An empty line is no
  record.
* A log is a sequence of records.  Each ends in a line feed or a carriage return,
  or at the end of the log.  Line breaks in front of a record do not count: they
  are empty lines, or the line feed behind a carriage return.

No byte list is outside the grammar (`exists_logText`): a field whose quotes are
never closed ends with the log.
-/

namespace BenchCharts.ResourceLog

/-! ## Fields -/

/-- The byte neither ends a field nor a record. -/
def IsPlain (b : UInt8) : Prop :=
  b ≠ comma ∧ isBreak b = false

instance (b : UInt8) : Decidable (IsPlain b) :=
  inferInstanceAs (Decidable (_ ∧ _))

/-- Bytes inside quotes as they are written. -/
def doubleQuotes (bs : List UInt8) : List UInt8 :=
  bs.flatMap fun b => if b = quote then [quote, quote] else [b]

/-- A field as it is written and the bytes that it holds.  Only at the end of a log
can quotes stay open. -/
inductive FieldText (atEnd : Bool) : List UInt8 → List UInt8 → Prop where
  | bare {bs : List UInt8} : (∀ b ∈ bs, IsPlain b) → bs.head? ≠ some quote →
      FieldText atEnd bs bs
  | quoted {inner tail : List UInt8} : (∀ b ∈ tail, IsPlain b) → tail.head? ≠ some quote →
      FieldText atEnd (quote :: (doubleQuotes inner ++ quote :: tail)) (inner ++ tail)
  | unclosed {inner : List UInt8} : atEnd = true →
      FieldText atEnd (quote :: doubleQuotes inner) inner

/-! ## Records -/

/-- Fields with commas between them.  Only the last field can stand at the end of the
log. -/
inductive RecordText (atEnd : Bool) : List UInt8 → List (List UInt8) → Prop where
  | one {text field : List UInt8} : FieldText atEnd text field → RecordText atEnd text [field]
  | more {text field rest : List UInt8} {fields : List (List UInt8)} :
      FieldText false text field → RecordText atEnd rest fields →
      RecordText atEnd (text ++ comma :: rest) (field :: fields)

/-! ## Logs -/

/-- A record in a log: all bytes up to the line break that ended the record before
it, and the fields. -/
structure Placed where
  before : List UInt8
  fields : List (List UInt8)

/-- Line breaks only. -/
def IsBlankLines (bs : List UInt8) : Prop :=
  ∀ b ∈ bs, isBreak b = true

/-- The records of a byte list that stands behind some other bytes. -/
inductive LogText : List UInt8 → List UInt8 → List Placed → Prop where
  | done {before lead : List UInt8} : IsBlankLines lead → LogText before lead []
  | record {before lead text rest : List UInt8} {stop : UInt8} {fields : List (List UInt8)}
      {records : List Placed} : IsBlankLines lead → RecordText false text fields →
      text ≠ [] → isBreak stop = true →
      LogText (before ++ lead ++ text ++ [stop]) rest records →
      LogText before (lead ++ text ++ stop :: rest) (⟨before, fields⟩ :: records)
  | last {before lead text : List UInt8} {fields : List (List UInt8)} : IsBlankLines lead →
      RecordText true text fields → text ≠ [] →
      LogText before (lead ++ text) [⟨before, fields⟩]

/-! ## Every byte list is a log -/

theorem doubleQuotes_cons_of_ne {b : UInt8} (h : b ≠ quote) (bs : List UInt8) :
    doubleQuotes (b :: bs) = b :: doubleQuotes bs := by
  rw [doubleQuotes, List.flatMap_cons, if_neg h]
  rfl

theorem doubleQuotes_cons_quote (bs : List UInt8) :
    doubleQuotes (quote :: bs) = quote :: quote :: doubleQuotes bs := by
  rw [doubleQuotes, List.flatMap_cons, if_pos rfl]
  rfl

/-- Bytes behind an opening quote reach to the end or to the first quote that is not
doubled. -/
theorem exists_doubleQuotes (bs : List UInt8) :
    (∃ inner, bs = doubleQuotes inner) ∨
      ∃ inner tail, bs = doubleQuotes inner ++ quote :: tail ∧ tail.head? ≠ some quote := by
  induction hn : bs.length using Nat.strongRecOn generalizing bs with
  | ind n ih =>
    match bs, hn with
    | [], _ => exact Or.inl ⟨[], rfl⟩
    | b :: bs, hn =>
      by_cases hb : b = quote
      · subst hb
        match bs, hn with
        | [], _ => exact Or.inr ⟨[], [], rfl, by simp⟩
        | c :: bs, hn =>
          by_cases hc : c = quote
          · subst hc
            have hlt : bs.length < n := by
              simp only [List.length_cons] at hn
              omega
            rcases ih _ hlt bs rfl with ⟨inner, rfl⟩ | ⟨inner, tail, rfl, htail⟩
            · exact Or.inl ⟨quote :: inner, (doubleQuotes_cons_quote inner).symm⟩
            · exact Or.inr ⟨quote :: inner, tail, by rw [doubleQuotes_cons_quote]; rfl, htail⟩
          · exact Or.inr ⟨[], c :: bs, rfl, by simpa using hc⟩
      · have hlt : bs.length < n := by
          simp only [List.length_cons] at hn
          omega
        rcases ih _ hlt bs rfl with ⟨inner, rfl⟩ | ⟨inner, tail, rfl, htail⟩
        · exact Or.inl ⟨b :: inner, (doubleQuotes_cons_of_ne hb inner).symm⟩
        · exact Or.inr ⟨b :: inner, tail, by rw [doubleQuotes_cons_of_ne hb]; rfl, htail⟩

/-- Bytes with a property reach to the end or to a byte without it. -/
theorem exists_span (p : UInt8 → Prop) [DecidablePred p] (bs : List UInt8) :
    ∃ text rest, bs = text ++ rest ∧ (∀ b ∈ text, p b) ∧ ∀ b ∈ rest.head?, ¬p b := by
  induction bs with
  | nil => exact ⟨[], [], rfl, by simp, by simp⟩
  | cons b bs ih =>
    by_cases hb : p b
    · obtain ⟨text, rest, rfl, htext, hrest⟩ := ih
      exact ⟨b :: text, rest, rfl, List.forall_mem_cons.mpr ⟨hb, htext⟩, hrest⟩
    · exact ⟨[], b :: bs, rfl, by simp, by simpa using hb⟩

theorem head?_ne_of_append {xs ys : List UInt8} {b : UInt8} (h : (xs ++ ys).head? ≠ some b) :
    xs.head? ≠ some b := by
  intro hxs
  apply h
  rw [List.head?_append, hxs]
  rfl

/-- A byte list begins with a field, which ends with the list or at a comma or a line
break. -/
theorem exists_fieldText (bs : List UInt8) :
    (∃ field, FieldText true bs field) ∨
      ∃ text stop rest field, bs = text ++ stop :: rest ∧ ¬IsPlain stop ∧
        FieldText false text field := by
  by_cases hquote : bs.head? = some quote
  · obtain ⟨behind, rfl⟩ := List.head?_eq_some_iff.mp hquote
    rcases exists_doubleQuotes behind with ⟨inner, rfl⟩ | ⟨inner, tail, rfl, htail⟩
    · exact Or.inl ⟨inner, FieldText.unclosed rfl⟩
    · -- behind the closing quote the field goes on without another one
      obtain ⟨plain, rest, rfl, hplain, hrest⟩ := exists_span IsPlain tail
      have hhead := head?_ne_of_append htail
      cases rest with
      | nil =>
        left
        rw [List.append_nil]
        exact ⟨inner ++ plain, FieldText.quoted hplain hhead⟩
      | cons stop rest =>
        right
        refine ⟨quote :: (doubleQuotes inner ++ quote :: plain), stop, rest, inner ++ plain, ?_,
          hrest stop rfl, FieldText.quoted hplain hhead⟩
        simp only [List.cons_append, List.append_assoc]
  · obtain ⟨plain, rest, rfl, hplain, hrest⟩ := exists_span IsPlain bs
    have hhead := head?_ne_of_append hquote
    cases rest with
    | nil =>
      left
      rw [List.append_nil]
      exact ⟨plain, FieldText.bare hplain hhead⟩
    | cons stop rest =>
      exact Or.inr ⟨plain, stop, rest, plain, rfl, hrest stop rfl, FieldText.bare hplain hhead⟩

/-- A byte list begins with a record, which ends with the list or at a line break. -/
theorem exists_recordText (bs : List UInt8) :
    (∃ fields, RecordText true bs fields) ∨
      ∃ text stop rest fields, bs = text ++ stop :: rest ∧ isBreak stop = true ∧
        RecordText false text fields := by
  induction hn : bs.length using Nat.strongRecOn generalizing bs with
  | ind n ih =>
    rcases exists_fieldText bs with
      ⟨field, hfield⟩ | ⟨text, stop, rest, field, rfl, hstop, hfield⟩
    · exact Or.inl ⟨[field], RecordText.one hfield⟩
    by_cases hcomma : stop = comma
    · subst hcomma
      have hlt : rest.length < n := by
        simp only [List.length_append, List.length_cons] at hn
        omega
      rcases ih _ hlt rest rfl with
        ⟨fields, hfields⟩ | ⟨text', stop, rest, fields, rfl, hstop, hfields⟩
      · exact Or.inl ⟨field :: fields, RecordText.more hfield hfields⟩
      · right
        refine ⟨text ++ comma :: text', stop, rest, field :: fields, ?_, hstop,
          RecordText.more hfield hfields⟩
        simp only [List.cons_append, List.append_assoc]
    · right
      have hbreak : isBreak stop = true := by
        cases hb : isBreak stop with
        | true => rfl
        | false => exact absurd ⟨hcomma, hb⟩ hstop
      exact ⟨text, stop, rest, [field], rfl, hbreak, RecordText.one hfield⟩

/-- Every byte list is a log. -/
theorem exists_logText (before bs : List UInt8) : ∃ log, LogText before bs log := by
  induction hn : bs.length using Nat.strongRecOn generalizing before bs with
  | ind n ih =>
    obtain ⟨lead, behind, rfl, hlead, hbehind⟩ := exists_span (fun b => isBreak b = true) bs
    by_cases hnil : behind = []
    · subst hnil
      rw [List.append_nil]
      exact ⟨[], LogText.done hlead⟩
    rcases exists_recordText behind with
      ⟨fields, hfields⟩ | ⟨text, stop, rest, fields, rfl, hstop, hfields⟩
    · exact ⟨_, LogText.last hlead hfields hnil⟩
    · have htext : text ≠ [] := by
        intro h
        subst h
        exact hbehind stop rfl hstop
      have hlt : rest.length < n := by
        simp only [List.length_append, List.length_cons] at hn
        omega
      obtain ⟨records, hrecords⟩ := ih _ hlt (before ++ lead ++ text ++ [stop]) rest rfl
      rw [← List.append_assoc]
      exact ⟨_, LogText.record hlead hfields htext hstop hrecords⟩

end BenchCharts.ResourceLog
