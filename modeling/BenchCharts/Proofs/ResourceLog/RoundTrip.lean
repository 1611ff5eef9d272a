import BenchCharts.Proofs.Decimal.Scientific
import BenchCharts.Proofs.ResourceLog.Reading
import BenchCharts.Proofs.ResourceLog.Writing

/-!
# Reading what was written

A `Table` is a header and rows of the same width, each row a sample with texts for
its numbers.  However a table is written, decoding gives back its samples.

What is written is a log whose fields hold the texts up to blanks.  Numbers have no
blanks at their ends, so they are read from the trimmed fields as they were.
-/

namespace BenchCharts.ResourceLog

open Text

/-! ## Tables -/

/-- A sample with texts that are read as its numbers, and the texts of further fields. -/
structure Row where
  seconds : UInt64
  cpuText : List Char
  ramText : List Char
  more : List (List Char)
  cpu : Double
  ram : Double
  readCpu : readNumber cpuText = .ok cpu
  readRam : readNumber ramText = .ok ram

namespace Row

/-- The texts of the fields. -/
def texts (row : Row) : List (List Char) :=
  Nat.toDigits 10 row.seconds.toNat :: row.cpuText :: row.ramText :: row.more

def sample (row : Row) : Sample :=
  { seconds := row.seconds, cpu := row.cpu, ram := row.ram }

end Row

/-- A header and rows that have as many fields as it has, at least three. -/
structure Table where
  header : List (List Char)
  rows : List Row
  three_le : 3 ≤ header.length
  width_eq : ∀ row ∈ rows, row.texts.length = header.length

/-- The bytes are written for the table, with or without a byte order mark. -/
def Table.Writes (t : Table) (bs : List UInt8) : Prop :=
  ∃ mark text, (mark = [] ∨ mark = byteOrderMark) ∧
    WritesLines (t.header :: t.rows.map Row.texts) text ∧ bs = mark ++ Utf8.encode text

/-! ## Rows -/

theorem HoldTexts.length_eq {fields : List (List UInt8)} {texts : List (List Char)}
    (h : HoldTexts fields texts) : fields.length = texts.length := by
  obtain ⟨padded, rfl, htrim⟩ := h
  have hlen := congrArg List.length htrim
  rw [List.length_map, List.length_map] at hlen
  rw [List.length_map, hlen]

/-- The trimmed texts of a row are the numbers of its sample. -/
theorem Row.holdSample (row : Row) : HoldSample (row.texts.map trim) row.sample := by
  have hseconds : trim (Nat.toDigits 10 row.seconds.toNat) = Nat.toDigits 10 row.seconds.toNat :=
    trim_eq_self (unblank_of_isDigit fun c hc =>
      Nat.isDigit_of_mem_toDigits (by decide) (by decide) hc)
  have hcpu : trim row.cpuText = row.cpuText := trim_eq_self (unblank_of_readNumber row.readCpu)
  have hram : trim row.ramText = row.ramText := trim_eq_self (unblank_of_readNumber row.readRam)
  refine ⟨trim (Nat.toDigits 10 row.seconds.toNat), trim row.cpuText, trim row.ramText,
    row.more.map trim, rfl, ?_, ?_, ?_⟩
  · rw [hseconds]
    exact readSeconds_eq_ok_iff.mp (readSeconds_toDigits row.seconds)
  · rw [hcpu]
    exact readNumber_eq_ok_iff.mp row.readCpu
  · rw [hram]
    exact readNumber_eq_ok_iff.mp row.readRam

theorem Row.isRow_of_holdTexts {row : Row} {fields : List (List UInt8)}
    (h : HoldTexts fields row.texts) : IsRow row.texts.length fields row.sample := by
  refine ⟨h.length_eq, ?_⟩
  obtain ⟨padded, hfields, htrim⟩ := h
  refine ⟨padded, hfields, ?_⟩
  rw [htrim]
  exact row.holdSample

theorem areRows_of_holdTexts {width : Nat} {rows : List Row}
    (hwidth : ∀ row ∈ rows, row.texts.length = width) {placed : List Placed}
    (h : List.Forall₂ (fun p texts => HoldTexts p.fields texts) placed (rows.map Row.texts)) :
    AreRows width placed (rows.map Row.sample) := by
  induction rows generalizing placed with
  | nil =>
    rw [List.forall₂_nil_right_iff.mp h]
    exact List.Forall₂.nil
  | cons row rows ih =>
    obtain ⟨hrow, hrows⟩ := List.forall_mem_cons.mp hwidth
    obtain ⟨p, rest, hp, hrest, rfl⟩ := List.forall₂_cons_right_iff.mp h
    refine List.Forall₂.cons ?_ (ih hrows hrest)
    have hsample := Row.isRow_of_holdTexts hp
    rwa [hrow] at hsample

/-! ## Tables as they are written -/

namespace Table

variable {t : Table} {bs : List UInt8}

/-- Lines with the rows of the table are a log. -/
theorem exists_logText_of_writesLines {header : List (List Char)}
    (hlen : header.length = t.header.length) {text : List Char}
    (h : WritesLines (header :: t.rows.map Row.texts) text) (mark : List UInt8) :
    ∃ log, LogText mark (Utf8.encode text) log ∧
      List.Forall₂ (fun p texts => HoldTexts p.fields texts) log
        (header :: t.rows.map Row.texts) := by
  have hthree := t.three_le
  have htwo : ∀ texts ∈ header :: t.rows.map Row.texts, 2 ≤ texts.length := by
    intro texts htexts
    rcases List.mem_cons.mp htexts with rfl | htexts
    · omega
    · obtain ⟨row, hrow, rfl⟩ := List.mem_map.mp htexts
      have hwidth := t.width_eq row hrow
      omega
  have hnone : IsEmptyLines [] := by decide
  exact h.exists_logText htwo mark hnone

/-- Behind a byte order mark at the head of the bytes stands a log with the rows of the
table.  A mark that was not written takes a character from the header. -/
theorem Writes.exists_logText (h : t.Writes bs) :
    let mark := if byteOrderMark <+: bs then byteOrderMark else []
    ∃ log header, header.length = t.header.length ∧ LogText mark (bs.drop mark.length) log ∧
      List.Forall₂ (fun p texts => HoldTexts p.fields texts) log
        (header :: t.rows.map Row.texts) := by
  obtain ⟨written, text, hwritten, hlines, rfl⟩ := h
  rcases hwritten with rfl | rfl
  · rw [List.nil_append]
    by_cases hprefix : byteOrderMark <+: Utf8.encode text
    · rw [if_pos hprefix]
      -- the mark is the first character of the header
      obtain ⟨rest, hrest⟩ := hprefix
      have hmark := hrest
      rw [← encode_markChar] at hmark
      obtain ⟨behind, rfl, rfl⟩ := Utf8.exists_of_encode_append_eq hmark
      have htwo : 2 ≤ t.header.length := Nat.le_trans (by decide) t.three_le
      obtain ⟨header, hlen, hlines⟩ := hlines.drop_mark htwo
      obtain ⟨log, hlog, hhold⟩ := exists_logText_of_writesLines hlen hlines byteOrderMark
      refine ⟨log, header, hlen, ?_, hhold⟩
      rw [← hrest, List.drop_left]
      exact hlog
    · rw [if_neg hprefix]
      obtain ⟨log, hlog, hhold⟩ := exists_logText_of_writesLines rfl hlines []
      exact ⟨log, t.header, rfl, hlog, hhold⟩
  · rw [if_pos (List.prefix_append byteOrderMark _)]
    obtain ⟨log, hlog, hhold⟩ := exists_logText_of_writesLines rfl hlines byteOrderMark
    refine ⟨log, t.header, rfl, ?_, hhold⟩
    rw [List.drop_left]
    exact hlog

/-- However a table is written, decoding gives back its samples in order.  The first
read holds all bytes, or at least as many as a byte order mark and not just one. -/
theorem decode_of_writes (t : Table) (reads : List (List UInt8)) (h : t.Writes reads.flatten)
    (hfirst : reads.headD [] = reads.flatten ∨
      byteOrderMark.length ≤ (reads.headD []).length ∧ reads.headD [] ≠ byteOrderMark) :
    (Decoder.ofSource { reads }).decode.1 = .ok (t.rows.map Row.sample) := by
  have hmark : Source.leadingMark reads
      = if byteOrderMark <+: reads.flatten then byteOrderMark else [] := by
    rcases hfirst with heq | ⟨hlen, -⟩
    · unfold Source.leadingMark
      rw [heq]
    · exact Source.leadingMark_of_length_le (Or.inl hlen)
  have hbytes : Source.behindMark reads
      = reads.flatten.drop (Source.leadingMark reads).length := by
    apply Source.behindMark_of_ne
    by_cases halone : reads.headD [] = byteOrderMark
    · exact Or.inr ((hfirst.resolve_right fun h => h.2 halone).symm.trans halone)
    · refine Or.inl fun hhead => halone ?_
      rw [List.headD_eq_head?_getD, hhead, Option.getD_some]
  obtain ⟨log, header, hlen, hlog, hhold⟩ := h.exists_logText
  rw [← hmark, ← hbytes] at hlog
  obtain ⟨p, rest, hp, hrest, rfl⟩ := List.forall₂_cons_right_iff.mp hhold
  have hwidth : ∀ row ∈ t.rows, row.texts.length = p.fields.length := by
    intro row hrow
    rw [hp.length_eq, hlen, t.width_eq row hrow]
  rw [ofSource_of_logText hlog]
  exact decodeRows_eq_ok_iff.mpr (areRows_of_holdTexts hwidth hrest)

/-- A quote in the header and two rows. -/
def mixed : Table where
  header := [['t'], ['c', '"'], ['r']]
  rows :=
    [{ seconds := 7, cpuText := ['1', '.', '5'], ramText := ['-', 'I', 'n', 'f'], more := []
       cpu := 1.5, ram := .infinite true, readCpu := rfl, readRam := rfl },
      { seconds := 86400, cpuText := ['0'], ramText := ['2', 'e', '9'], more := []
        cpu := .zero false, ram := 2e9, readCpu := rfl, readRam := rfl }]
  three_le := by decide
  width_eq := by decide

/-- A byte order mark, padded and quoted fields, an empty line, a line break in a field,
and no end of the last line. -/
theorem decode_of_writes_mixed :
    let text := ['t', ',', '"', 'c', '"', '"', '"', ',', '\t', 'r', '\r', '\n', '\n',
      '7', ' ', ',', '"', '1', '.', '5', '\n', '"', ',', '-', 'I', 'n', 'f', '\r',
      '8', '6', '4', '0', '0', ',', '0', ',', '"', '2', 'e', '9', '"']
    mixed.Writes (byteOrderMark ++ Utf8.encode text) ∧
      (Decoder.ofSource { reads := [byteOrderMark ++ Utf8.encode text] }).decode.1
        = .ok [⟨7, 1.5, .infinite true⟩, ⟨86400, .zero false, 2e9⟩] := by
  intro text
  have hheader := WritesRecord.more
    (@WritesField.bare ['t'] [] [] (by decide) (by decide) (by decide))
    (.more (@WritesField.quoted ['c', '"'] [] [] (by decide) (by decide))
      (.one (@WritesField.bare ['r'] ['\t'] [] (by decide) (by decide) (by decide))))
  have hfirst := WritesRecord.more
    (@WritesField.bare ['7'] [] [' '] (by decide) (by decide) (by decide))
    (.more (@WritesField.quoted ['1', '.', '5'] [] ['\n'] (by decide) (by decide))
      (.one (@WritesField.bare ['-', 'I', 'n', 'f'] [] [] (by decide) (by decide) (by decide))))
  have hsecond := WritesRecord.more
    (@WritesField.bare ['8', '6', '4', '0', '0'] [] [] (by decide) (by decide) (by decide))
    (.more (@WritesField.bare ['0'] [] [] (by decide) (by decide) (by decide))
      (.one (@WritesField.quoted ['2', 'e', '9'] [] [] (by decide) (by decide))))
  have hlines := @WritesLines.record [] _ _ _ _ _ (by decide) hheader .crlf
    (@WritesLines.record ['\n'] _ _ _ _ _ (by decide) hfirst .cr
      (@WritesLines.last [] _ _ (by decide) hsecond))
  have hwrites : mixed.Writes (byteOrderMark ++ Utf8.encode text) :=
    ⟨byteOrderMark, text, Or.inr rfl, hlines, rfl⟩
  refine ⟨hwrites, ?_⟩
  exact decode_of_writes mixed [_] (by rw [List.flatten_singleton]; exact hwrites) (Or.inl rfl)

end Table

end BenchCharts.ResourceLog
