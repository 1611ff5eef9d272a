import BenchCharts.Proofs.ResourceLog.Failure

/-!
# Where an error is

The place in an error cuts a log in two.  In front of it stand the header and the rows
before the bad one, each with the line break that ends it, so these bytes are a log of
their own and decode to the samples of those rows.  Behind it stands the bad row, with
empty lines in front of it at most.

`LogText.exists_cut` makes the cut in front of any record, `ClosedText.logText` reads the
first part as a log, and `placeBehind` is the place of the cut.  One fault has another
place: bytes in the first row that are no text are reported at the header, that is in
front of everything.
-/

namespace BenchCharts.ResourceLog

/-! ## Cutting a log -/

/-- A record begins behind all bytes before it. -/
theorem LogText.before_eq {before bs : List UInt8} {record : Placed} {records : List Placed}
    (h : LogText before bs (record :: records)) : record.before = before := by
  cases h <;> rfl

/-- Records that line breaks end are a log. -/
theorem ClosedText.logText {before bs : List UInt8} {records : List Placed}
    (h : ClosedText before bs records) : LogText before bs records := by
  induction h with
  | none => exact .done fun b hb => absurd hb List.not_mem_nil
  | record hlead htext hne hstop _ ih => exact .record hlead htext hne hstop ih

/-- A log is cut in front of one of its records: line breaks end the records before the
cut, and the bytes behind it are a log that begins with this record. -/
theorem LogText.exists_cut {before bs : List UInt8} {known : List Placed} {next : Placed}
    {rest : List Placed} (h : LogText before bs (known ++ next :: rest)) :
    ∃ text behind, bs = text ++ behind ∧ ClosedText before text known ∧
      LogText (before ++ text) behind (next :: rest) := by
  induction known generalizing before bs with
  | nil =>
    refine ⟨[], bs, rfl, .none, ?_⟩
    rw [List.append_nil]
    exact h
  | cons record known ih =>
    generalize hlog : record :: known ++ next :: rest = log at h
    cases h with
    | done => cases hlog
    | @record _ lead text behind stop fields records hlead htext hne hstop hrest =>
      obtain ⟨rfl, rfl⟩ := List.cons.inj hlog
      obtain ⟨inner, behind, rfl, hclosed, hbehind⟩ := ih hrest
      refine ⟨lead ++ text ++ stop :: inner, behind, ?_, ?_, ?_⟩
      · simp only [List.append_assoc, List.cons_append]
      · exact .record hlead htext hne hstop hclosed
      · simpa only [List.append_assoc, List.cons_append, List.nil_append] using hbehind
    | last =>
      have hnil : known ++ next :: rest = [] := (List.cons.inj hlog).2
      exact absurd hnil (List.append_ne_nil_of_right_ne_nil _ (List.cons_ne_nil _ _))

/-! ## Places -/

@[simp] theorem placeBehind_byte (before : List UInt8) (index : Nat) :
    (placeBehind before index).byte = before.length :=
  Nat.zero_add _

@[simp] theorem placeBehind_line (before : List UInt8) (index : Nat) :
    (placeBehind before index).line = 1 + before.count lineFeed :=
  rfl

@[simp] theorem placeBehind_record (before : List UInt8) (index : Nat) :
    (placeBehind before index).record = index :=
  rfl

/-- An error is placed where its row begins, or at the head of the log if the row is the
first one behind the header. -/
theorem faultPosition_cases (r : Record) (fault : RowFault) :
    faultPosition r fault = r.position ∨ faultPosition r fault = {} ∧ r.position.record ≤ 1 := by
  unfold faultPosition
  split
  · split
    · next hfirst => exact Or.inr ⟨rfl, hfirst⟩
    · exact Or.inl rfl
  · exact Or.inl rfl

/-! ## Logs that are read at once -/

namespace Source

theorem markOf_append_drop (bs : List UInt8) : markOf bs ++ bs.drop (markOf bs).length = bs := by
  refine List.prefix_iff_eq_append.mp ?_
  unfold markOf
  split
  · assumption
  · exact List.nil_prefix

/-- The bytes before a record, a byte order mark among them, are a log of the records
before it. -/
theorem exists_cut (known : List Placed) {bs : List UInt8} {next : Placed} {rest : List Placed}
    (h : LogText (markOf bs) (bs.drop (markOf bs).length) (known ++ next :: rest)) :
    ∃ front behind, bs = front ++ behind ∧
      LogText (markOf front) (front.drop (markOf front).length) known ∧
      LogText front behind (next :: rest) := by
  obtain ⟨text, behind, hbytes, hclosed, hbehind⟩ := h.exists_cut
  have hbs : markOf bs ++ text ++ behind = bs := by
    rw [List.append_assoc, ← hbytes, markOf_append_drop]
  have hfront : markOf bs ++ text = bs.take (markOf bs ++ text).length :=
    List.prefix_iff_eq_take.mp ⟨behind, hbs⟩
  have hmark : markOf (markOf bs ++ text) = markOf bs := by
    rw [hfront]
    refine markOf_take ?_
    rw [List.length_append]
    exact Nat.le_add_right _ _
  refine ⟨markOf bs ++ text, behind, hbs.symm, ?_, hbehind⟩
  rw [hmark, List.drop_left]
  exact hclosed.logText

end Source

/-- A decoder of bytes that are read at once. -/
theorem ofSource_singleton {bs : List UInt8} {log : List Placed}
    (h : LogText (Source.markOf bs) (bs.drop (Source.markOf bs).length) log) :
    Decoder.ofSource { reads := [bs] }
      = { width := rowWidth log, rest := (numbered 1 log.tail).map .record } := by
  refine ofSource_of_logText ?_
  rw [Source.behindMark_singleton]
  exact h

/-! ## The bytes before an error -/

/-- What an error says about a log: the rows before the one with the error's number hold the
samples, that row has the fault, and the bytes behind the error's place begin with it.  A
place at the header stands for the first row. -/
structure IsFirstBad (bs : List UInt8) (log : List Placed) (p : Position) (fault : RowFault)
    (samples : List Sample) : Prop where
  good : AreRows (rowWidth log) (log.take (max 1 p.record)).tail samples
  bad : ∃ row, log[max 1 p.record]? = some row ∧ RowFails (rowWidth log) row.fields fault
  begins : 0 < p.record → LogText (bs.take p.byte) (bs.drop p.byte) (log.drop p.record)

/-- The rows before the first bad one, and this one. -/
theorem isFirstBad_append (known : List Placed) {bs : List UInt8} {rest : List Placed}
    {bad : Placed} {p : Position} {fault : RowFault} {samples : List Sample}
    (hnumber : max 1 p.record = known.length)
    (hgood : AreRows (rowWidth (known ++ bad :: rest)) known.tail samples)
    (hbad : RowFails (rowWidth (known ++ bad :: rest)) bad.fields fault)
    (hbegins : 0 < p.record → LogText (bs.take p.byte) (bs.drop p.byte) (bad :: rest)) :
    IsFirstBad bs (known ++ bad :: rest) p fault samples where
  good := by
    rw [hnumber, List.take_left]
    exact hgood
  bad := by
    refine ⟨bad, ?_, hbad⟩
    rw [hnumber, List.getElem?_append_right (Nat.le_refl _), Nat.sub_self]
    rfl
  begins := by
    intro hpos
    have hrecord : p.record = known.length := by omega
    rw [hrecord, List.drop_left]
    exact hbegins hpos

/-- The bytes before the place of an error, in one reading of the bytes as a log. -/
theorem exists_isFirstBad {bs : List UInt8} {log : List Placed}
    (hlog : LogText (Source.markOf bs) (bs.drop (Source.markOf bs).length) log) {p : Position}
    {fault : RowFault}
    (h : (Decoder.ofSource { reads := [bs] }).decode.1 = .error (.row p fault)) :
    p.byte ≤ bs.length ∧ p.line = 1 + (bs.take p.byte).count lineFeed ∧
      ∃ samples, (Decoder.ofSource { reads := [bs.take p.byte] }).decode.1 = .ok samples ∧
        samples.length = p.record - 1 ∧ IsFirstBad bs log p fault samples := by
  rw [ofSource_singleton hlog] at h
  obtain ⟨good, samples, bad, rest, _, hrows, hgood, hbad, herror⟩ := decodeRows_eq_error_iff.mp h
  obtain ⟨hp, rfl⟩ := DecodeError.row.inj herror
  cases log with
  | nil => exact absurd hrows.symm (List.append_ne_nil_of_right_ne_nil _ (List.cons_ne_nil _ _))
  | cons header rows =>
    obtain rfl : rows = good ++ bad :: rest := hrows
    have hcount : good.length = samples.length := hgood.length_eq
    rcases faultPosition_cases (bad.record (1 + good.length)) fault with hplace | ⟨hplace, hfirst⟩
    · -- the bytes are cut where the bad row begins
      obtain ⟨front, behind, rfl, hfront, hbehind⟩ := Source.exists_cut (header :: good) hlog
      have hposition : p = placeBehind front (1 + good.length) := by
        rw [hp, hplace, ← hbehind.before_eq]
        rfl
      subst hposition
      have htake : (front ++ behind).take front.length = front := List.take_left
      have hdrop : (front ++ behind).drop front.length = behind := List.drop_left
      rw [placeBehind_byte, placeBehind_line, placeBehind_record, htake]
      refine ⟨?_, rfl, samples, ?_, ?_, ?_⟩
      · rw [List.length_append]
        exact Nat.le_add_right _ _
      · rw [ofSource_singleton hfront]
        exact decodeRows_eq_ok_iff.mpr hgood
      · omega
      · refine isFirstBad_append (header :: good) ?_ hgood hbad fun _ => ?_
        · rw [placeBehind_record, List.length_cons]
          omega
        · rw [placeBehind_byte, htake, hdrop]
          exact hbehind
    · -- the place is in front of everything, and there is no row before the bad one
      have hnone : good = [] := by
        have hle : 1 + good.length ≤ 1 := hfirst
        exact List.length_eq_zero_iff.mp (by omega)
      subst hnone
      obtain rfl : samples = [] := List.length_eq_zero_iff.mp hcount.symm
      obtain rfl : p = {} := hp.trans hplace
      exact ⟨Nat.zero_le _, rfl, [], rfl, rfl, isFirstBad_append [header] rfl hgood hbad
        fun hpos => absurd hpos (Nat.lt_irrefl 0)⟩

/-- The place in an error is right.

The bytes before it decode to as many samples as there are rows before the record with its
number, and its line counts their line feeds.  However the grammar divides all the bytes
into records, these samples are those of the rows before the first bad row, and the bytes
behind the place begin with that row, with empty lines in front of it at most.  An error
with the number of the header is about the first row behind it. -/
theorem decode_error_place (bs : List UInt8) (p : Position) (fault : RowFault)
    (h : (Decoder.ofSource { reads := [bs] }).decode.1 = .error (.row p fault)) :
    let mark := if byteOrderMark <+: bs then byteOrderMark else []
    p.byte ≤ bs.length ∧ p.line = 1 + (bs.take p.byte).count lineFeed ∧
    (∃ log, LogText mark (bs.drop mark.length) log) ∧
    ∃ samples, (Decoder.ofSource { reads := [bs.take p.byte] }).decode.1 = .ok samples ∧
      samples.length = p.record - 1 ∧
      ∀ log, LogText mark (bs.drop mark.length) log → IsFirstBad bs log p fault samples := by
  intro mark
  obtain ⟨log, hlog⟩ := exists_logText mark (bs.drop mark.length)
  obtain ⟨hbyte, hline, samples, hsamples, hcount, -⟩ := exists_isFirstBad hlog h
  refine ⟨hbyte, hline, ⟨log, hlog⟩, samples, hsamples, hcount, fun log' hlog' => ?_⟩
  obtain ⟨-, -, samples', hsamples', -, hfirst⟩ := exists_isFirstBad hlog' h
  obtain rfl : samples = samples' := Except.ok.inj (hsamples.symm.trans hsamples')
  exact hfirst

/-- A bad row behind a byte order mark, a quoted line break, a row that a carriage return
ends, and an empty line. -/
theorem decode_error_place_mixed :
    let text := ['t', ',', '"', 'c', '\n', '"', ',', 'r', '\r', '\n', '7', ',', '1', ',', '2', '\r',
      '\n', '\n', '8', ',', '"', '\n', '"', ',', '3', '\n', '9', ',', '1', ',', '1']
    let bs := byteOrderMark ++ Text.Utf8.encode text
    let p : Position := { byte := 19, line := 3, record := 2 }
    let fault : RowFault := .number 1 .empty
    (Decoder.ofSource { reads := [bs] }).decode.1 = .error (.row p fault) ∧
      p.line = 1 + (bs.take p.byte).count lineFeed ∧
      (Decoder.ofSource { reads := [bs.take p.byte] }).decode.1 = .ok [⟨7, 1, 2⟩] ∧
      ∀ log, LogText byteOrderMark (bs.drop byteOrderMark.length) log →
        IsFirstBad bs log p fault [⟨7, 1, 2⟩] := by
  intro text bs p fault
  have herror : (Decoder.ofSource { reads := [bs] }).decode.1 = .error (.row p fault) := by
    decide +kernel
  have hbefore : (Decoder.ofSource { reads := [bs.take p.byte] }).decode.1 = .ok [⟨7, 1, 2⟩] := by
    decide +kernel
  obtain ⟨-, hline, -, samples, hsamples, -, hfirst⟩ := decode_error_place bs p fault herror
  obtain rfl : samples = [⟨7, 1, 2⟩] := Except.ok.inj (hsamples.symm.trans hbefore)
  exact ⟨herror, hline, hbefore, hfirst⟩

end BenchCharts.ResourceLog
