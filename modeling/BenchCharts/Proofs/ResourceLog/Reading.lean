import Mathlib.Data.List.Forall2
import BenchCharts.Proofs.ResourceLog.Row
import BenchCharts.Proofs.ResourceLog.Scan

/-!
# What decoding a log yields

The rows of a log are the records behind its header, and the header says no more
than how many fields a row has.  The first call of `Decoder.decode` answers the
samples of all rows in order if each row holds one, and otherwise what is wrong
with the first row that holds none.

Every list of rows holds samples up to its end or up to a first bad row
(`exists_areRows`), and `decodeRows_append` reads over the good ones; so there are
two results, `decodeRows_of_areRows` and `decodeRows_of_rowFails`.
-/

namespace BenchCharts.ResourceLog

/-! ## A list of rows -/

theorem decodeRow_eq_ok_iff {width : Nat} {r : Record} {s : Sample} :
    decodeRow width r = .ok s ↔ IsRow width r.fields s := by
  rw [← readRow_eq_ok_iff]
  unfold decodeRow
  cases readRow width r.fields with
  | ok t => simp
  | error fault => simp

theorem decodeRow_eq_error_iff {width : Nat} {r : Record} {e : DecodeError} :
    decodeRow width r = .error e
      ↔ ∃ fault, RowFails width r.fields fault ∧ e = .row (faultPosition r fault) fault := by
  simp only [← readRow_eq_error_iff]
  unfold decodeRow
  cases readRow width r.fields with
  | ok t => simp
  | error fault => simp [eq_comm]

theorem decodeRows_of_ok {width : Nat} {r : Record} {s : Sample} (h : decodeRow width r = .ok s)
    (rest : List Entry) :
    decodeRows width (.record r :: rest)
      = ((decodeRows width rest).1.map (s :: ·), (decodeRows width rest).2) := by
  rw [decodeRows, h]

theorem decodeRows_of_error {width : Nat} {r : Record} {e : DecodeError}
    (h : decodeRow width r = .error e) (rest : List Entry) :
    decodeRows width (.record r :: rest) = (.error e, rest) := by
  rw [decodeRows, h]

/-! ## The rows of a log -/

/-- How many fields the header of a log has. -/
def rowWidth : List Placed → Nat
  | [] => 0
  | header :: _ => header.fields.length

theorem numbered_append (index : Nat) (ps qs : List Placed) :
    numbered index (ps ++ qs) = numbered index ps ++ numbered (index + ps.length) qs := by
  induction ps generalizing index with
  | nil => rfl
  | cons p ps ih =>
    rw [List.cons_append, numbered, numbered, ih, List.length_cons, List.cons_append,
      Nat.add_assoc, Nat.add_comm 1]

variable {width : Nat} {rows : List Placed} {samples : List Sample}

/-- The rows hold the samples, one each and in their order. -/
def AreRows (width : Nat) (rows : List Placed) (samples : List Sample) : Prop :=
  List.Forall₂ (fun row s => IsRow width row.fields s) rows samples

/-- Rows hold samples up to their end or up to a row that holds none. -/
theorem exists_areRows (width : Nat) (rows : List Placed) :
    (∃ samples, AreRows width rows samples) ∨
      ∃ good samples bad rest fault, rows = good ++ bad :: rest ∧
        AreRows width good samples ∧ RowFails width bad.fields fault := by
  induction rows with
  | nil => exact Or.inl ⟨[], List.Forall₂.nil⟩
  | cons row rows ih =>
    cases hrow : readRow width row.fields with
    | error fault =>
      exact Or.inr ⟨[], [], row, rows, fault, rfl, List.Forall₂.nil, readRow_eq_error_iff.mp hrow⟩
    | ok s =>
      have hs : IsRow width row.fields s := readRow_eq_ok_iff.mp hrow
      rcases ih with ⟨samples, hsamples⟩ | ⟨good, samples, bad, rest, fault, rfl, hgood, hbad⟩
      · exact Or.inl ⟨s :: samples, List.Forall₂.cons hs hsamples⟩
      · exact Or.inr ⟨row :: good, s :: samples, bad, rest, fault, rfl,
          List.Forall₂.cons hs hgood, hbad⟩

/-- Rows that hold samples are read, and then what follows them. -/
theorem decodeRows_append (h : AreRows width rows samples) (index : Nat) (rest : List Entry) :
    decodeRows width ((numbered index rows).map .record ++ rest)
      = ((decodeRows width rest).1.map (samples ++ ·), (decodeRows width rest).2) := by
  induction h generalizing index with
  | nil =>
    show decodeRows width rest = _
    cases hrest : decodeRows width rest with
    | mk result behind => cases result <;> rfl
  | @cons row s rows samples hs _ ih =>
    have hrow : decodeRow width (row.record index) = .ok s := decodeRow_eq_ok_iff.mpr hs
    rw [numbered, List.map_cons, List.cons_append, decodeRows_of_ok hrow, ih]
    cases (decodeRows width rest).1 <;> rfl

/-- Rows that hold samples are read to their end. -/
theorem decodeRows_of_areRows (h : AreRows width rows samples) (index : Nat) :
    decodeRows width ((numbered index rows).map .record) = (.ok samples, []) := by
  have happend := decodeRows_append h index []
  rw [List.append_nil] at happend
  rw [happend, decodeRows]
  show (Except.ok (samples ++ []), _) = _
  rw [List.append_nil]

/-- A row that holds no sample is the last one that is read, whatever stands behind the
rows. -/
theorem decodeRows_append_of_rowFails (h : AreRows width rows samples) {bad : Placed}
    {fault : RowFault} (hbad : RowFails width bad.fields fault) (index : Nat)
    (rest : List Placed) (behind : List Entry) :
    decodeRows width ((numbered index (rows ++ bad :: rest)).map .record ++ behind)
      = (.error (.row (faultPosition (bad.record (index + rows.length)) fault) fault),
          (numbered (index + rows.length + 1) rest).map .record ++ behind) := by
  have hrow : decodeRow width (bad.record (index + rows.length)) = .error _ :=
    decodeRow_eq_error_iff.mpr ⟨fault, hbad, rfl⟩
  rw [numbered_append, numbered, List.map_append, List.map_cons, List.append_assoc,
    List.cons_append, decodeRows_append h, decodeRows_of_error hrow]
  rfl

theorem decodeRows_of_rowFails (h : AreRows width rows samples) {bad : Placed}
    {fault : RowFault} (hbad : RowFails width bad.fields fault) (index : Nat)
    (rest : List Placed) :
    decodeRows width ((numbered index (rows ++ bad :: rest)).map .record)
      = (.error (.row (faultPosition (bad.record (index + rows.length)) fault) fault),
          (numbered (index + rows.length + 1) rest).map .record) := by
  have happend := decodeRows_append_of_rowFails h hbad index rest []
  rwa [List.append_nil, List.append_nil] at happend

/-- Rows are decoded if each of them holds a sample. -/
theorem decodeRows_eq_ok_iff {index : Nat} :
    (decodeRows width ((numbered index rows).map .record)).1 = .ok samples
      ↔ AreRows width rows samples := by
  constructor
  · intro h
    rcases exists_areRows width rows with
      ⟨found, hfound⟩ | ⟨good, found, bad, rest, fault, rfl, hgood, hbad⟩
    · rw [decodeRows_of_areRows hfound] at h
      rwa [← Except.ok.inj h]
    · rw [decodeRows_of_rowFails hgood hbad] at h
      cases h
  · intro h
    rw [decodeRows_of_areRows h]

/-- The error of rows is that of the first one that holds no sample. -/
theorem decodeRows_eq_error_iff {index : Nat} {e : DecodeError} :
    (decodeRows width ((numbered index rows).map .record)).1 = .error e
      ↔ ∃ good samples bad rest fault, rows = good ++ bad :: rest ∧
          AreRows width good samples ∧ RowFails width bad.fields fault ∧
          e = .row (faultPosition (bad.record (index + good.length)) fault) fault := by
  constructor
  · intro h
    rcases exists_areRows width rows with
      ⟨found, hfound⟩ | ⟨good, found, bad, rest, fault, rfl, hgood, hbad⟩
    · rw [decodeRows_of_areRows hfound] at h
      cases h
    · rw [decodeRows_of_rowFails hgood hbad] at h
      exact ⟨good, found, bad, rest, fault, rfl, hgood, hbad, (Except.error.inj h).symm⟩
  · intro h
    rcases h with ⟨good, found, bad, rest, fault, rfl, hgood, hbad, rfl⟩
    rw [decodeRows_of_rowFails hgood hbad]

/-! ## A log -/

/-- A decoder of a log reads the records behind the header. -/
theorem ofSource_of_logText {reads : List (List UInt8)} {log : List Placed}
    (h : LogText (Source.leadingMark reads) (Source.behindMark reads) log) :
    Decoder.ofSource { reads }
      = { width := rowWidth log, rest := (numbered 1 log.tail).map .record } := by
  rw [Decoder.ofSource, Source.entries_of_logText h]
  cases log <;> rfl

/-- What the first call on a new decoder answers.

Behind a byte order mark the bytes of a source are a log, and however the grammar
divides them into records, the call answers the samples of all rows if each of them
holds one.  Otherwise it answers what is wrong with the first row that holds none,
and where that row is.  Only a mark that is read alone ends the log. -/
theorem decode_iff (reads : List (List UInt8)) :
    let mark := Source.leadingMark reads
    let bytes := Source.behindMark reads
    (byteOrderMark.length ≤ (reads.headD []).length ∨ ¬byteOrderMark <+: reads.flatten →
      mark = if byteOrderMark <+: reads.flatten then byteOrderMark else []) ∧
    (reads.head? ≠ some byteOrderMark ∨ reads.flatten = byteOrderMark →
      bytes = reads.flatten.drop mark.length) ∧
    (∃ log, LogText mark bytes log) ∧
    ∀ log, LogText mark bytes log →
      (∀ samples, (Decoder.ofSource { reads }).decode.1 = .ok samples
        ↔ AreRows (rowWidth log) log.tail samples) ∧
      ∀ e, (Decoder.ofSource { reads }).decode.1 = .error e
        ↔ ∃ good samples bad rest fault, log.tail = good ++ bad :: rest ∧
            AreRows (rowWidth log) good samples ∧
            RowFails (rowWidth log) bad.fields fault ∧
            e = .row (faultPosition (bad.record (1 + good.length)) fault) fault := by
  intro mark bytes
  refine ⟨Source.leadingMark_of_length_le, Source.behindMark_of_ne, exists_logText _ _,
    fun log hlog => ?_⟩
  have hdecoder := ofSource_of_logText hlog
  constructor
  · intro samples
    rw [hdecoder]
    exact decodeRows_eq_ok_iff
  · intro e
    rw [hdecoder]
    exact decodeRows_eq_error_iff

end BenchCharts.ResourceLog
