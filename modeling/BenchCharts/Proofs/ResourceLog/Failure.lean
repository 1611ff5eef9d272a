import BenchCharts.Proofs.ResourceLog.Calls

/-!
# Logs that break off

A source that fails delivers the first bytes of a log and then an error.  What is
found in these bytes are the records that a line break among them ends
(`EndsWithin`); the record that is open when the source fails is lost.

`exists_feed_take` finds these records along the grammar of the whole log, so nothing
is assumed about where the bytes break off: in a field, behind a quote, between a
carriage return and its line feed, inside the header.  `exists_entries_failingAfter`
puts the failure behind them, and the calls on what a decoder has then come from
`exists_decodeTimes_tail`.

Where the bytes are cut into reads matters to the byte order mark alone.  A first read
that holds a part of it leaves it in the header, and one that holds nothing else is
taken for the end of the input, so that even a failure is not seen
(`exists_failingAfter_unseen`).
-/

namespace BenchCharts.ResourceLog

/-! ## Reads -/

namespace Source

theorem flatten_chunks (size : Nat) (bs : List UInt8) : (chunks size bs).flatten = bs := by
  induction hn : bs.length using Nat.strongRecOn generalizing bs with
  | ind n ih =>
    by_cases hbs : bs = []
    · rw [chunks, dif_pos hbs, hbs]
      rfl
    · have hpos : 0 < bs.length := List.length_pos_iff.mpr hbs
      have hlt : (bs.drop (size - 1 + 1)).length < n := by
        rw [List.length_drop]
        omega
      rw [chunks, dif_neg hbs, List.flatten_cons, ih _ hlt _ rfl, List.take_append_drop]

theorem headD_chunks (size : Nat) (bs : List UInt8) :
    (chunks size bs).headD [] = bs.take (size - 1 + 1) := by
  by_cases hbs : bs = []
  · rw [chunks, dif_pos hbs, hbs, List.take_nil]
    rfl
  · rw [chunks, dif_neg hbs]
    rfl

theorem head?_chunks {bs : List UInt8} (h : bs ≠ []) (size : Nat) :
    (chunks size bs).head? = some (bs.take (size - 1 + 1)) := by
  rw [chunks, dif_neg h]
  rfl

/-- Reads hold more than the byte order mark of a byte list, if it has one. -/
def PassMark (size : Nat) (bs : List UInt8) : Prop :=
  byteOrderMark <+: bs → byteOrderMark.length < size

/-- A byte order mark in front of a byte list. -/
def markOf (bs : List UInt8) : List UInt8 :=
  if byteOrderMark <+: bs then byteOrderMark else []

theorem PassMark.take {size : Nat} {bs : List UInt8} (h : PassMark size bs) (count : Nat) :
    PassMark size (bs.take count) :=
  fun hmark => h (hmark.trans (List.take_prefix _ _))

theorem leadingMark_chunks {size : Nat} {bs : List UInt8} (h : PassMark size bs) :
    leadingMark (chunks size bs) = markOf bs := by
  have hfirst : byteOrderMark.length ≤ ((chunks size bs).headD []).length ∨
      ¬byteOrderMark <+: (chunks size bs).flatten := by
    rw [headD_chunks, flatten_chunks, List.length_take]
    by_cases hmark : byteOrderMark <+: bs
    · have hsize := h hmark
      have hlen := hmark.length_le
      left
      omega
    · exact Or.inr hmark
  rw [leadingMark_of_length_le hfirst, flatten_chunks, markOf]

/-- The first read is the byte order mark only where the bytes are. -/
theorem eq_of_head?_chunks {size : Nat} {bs : List UInt8} (h : PassMark size bs)
    (hhead : (chunks size bs).head? = some byteOrderMark) : bs = byteOrderMark := by
  have htake : bs.take (size - 1 + 1) = byteOrderMark := by
    rw [← headD_chunks, List.headD_eq_head?_getD, hhead, Option.getD_some]
  have hmark : byteOrderMark <+: bs := htake ▸ List.take_prefix _ _
  have hsize := h hmark
  have hlen : bs.length ≤ size - 1 + 1 := by
    have hshort := congrArg List.length htake
    rw [List.length_take] at hshort
    omega
  rwa [List.take_of_length_le hlen] at htake

theorem behindMark_chunks {size : Nat} {bs : List UInt8} (h : PassMark size bs) :
    behindMark (chunks size bs) = bs.drop (markOf bs).length := by
  have hread : (chunks size bs).head? ≠ some byteOrderMark ∨
      (chunks size bs).flatten = byteOrderMark := by
    rw [flatten_chunks]
    exact Decidable.not_or_of_imp (eq_of_head?_chunks h)
  rw [behindMark_of_ne hread, flatten_chunks, leadingMark_chunks h]

end Source

/-! ## Records that a line break ends -/

/-- Records one behind another, each of which ends in a line break.  The last byte is
that of the last record's line break. -/
inductive ClosedText : List UInt8 → List UInt8 → List Placed → Prop where
  | none {before : List UInt8} : ClosedText before [] []
  | record {before lead text rest : List UInt8} {stop : UInt8} {fields : List (List UInt8)}
      {records : List Placed} : IsBlankLines lead → RecordText false text fields →
      text ≠ [] → isBreak stop = true →
      ClosedText (before ++ lead ++ text ++ [stop]) rest records →
      ClosedText before (lead ++ text ++ stop :: rest) (⟨before, fields⟩ :: records)

/-- Record `i` of a log ends in a line break that is among the first `count` bytes.  The
log stands behind a byte order mark, which counts among them. -/
def EndsWithin (mark bs : List UInt8) (log : List Placed) (count i : Nat) : Prop :=
  i < log.length ∧ ∃ text, text <+: bs ∧ mark.length + text.length ≤ count ∧
    ClosedText mark text (log.take (i + 1))

namespace Scan

/-- Nothing is completed by the first ones of bytes that complete nothing. -/
theorem feed_take_of_quiet {s : Scan} {bs : List UInt8} (h : (s.feed bs).1 = []) (m : Nat) :
    (s.feed (bs.take m)).1 = [] := by
  rw [← List.take_append_drop m bs, feed_append] at h
  exact (List.append_eq_nil_iff.mp h).1

/-- Further bytes complete further records. -/
theorem length_feed_le_of_prefix {text bs : List UInt8} (h : text <+: bs) (s : Scan) :
    (s.feed text).1.length ≤ (s.feed bs).1.length := by
  obtain ⟨rest, rfl⟩ := h
  rw [feed_append, List.length_append]
  exact Nat.le_add_right _ _

/-- A record is completed by its line break. -/
theorem length_feed_of_closedText {before bs : List UInt8} {records : List Placed}
    (h : ClosedText before bs records) (start : Position) :
    ((waiting start before).feed bs).1.length = records.length := by
  induction h generalizing start with
  | none => rfl
  | record hlead htext hne hstop _ ih =>
    rw [feed_waiting_record hlead htext hne hstop, List.length_cons, List.length_cons, ih]

/-- The first bytes of a log complete its first records, each by a line break of its
own. -/
theorem exists_feed_take {before bs : List UInt8} {log : List Placed}
    (h : LogText before bs log) (start : Position) (m : Nat) :
    ∃ n, ((waiting start before).feed (bs.take m)).1 = (recordsFrom start log).take n ∧
      ∀ i < n, i < log.length ∧
        ∃ text, text <+: bs.take m ∧ ClosedText before text (log.take (i + 1)) := by
  induction h generalizing start m with
  | @done before lead hlead =>
    have hfeed : ((waiting start before).feed lead).1 = [] :=
      congrArg Prod.fst (feed_blankLines hlead)
    exact ⟨0, feed_take_of_quiet hfeed m, fun i hi => absurd hi (Nat.not_lt_zero i)⟩
  | @record before lead text rest stop fields records hlead htext hne hstop hrest ih =>
    rcases Nat.lt_or_ge (lead ++ text).length m with hlt | hle
    · -- the line break behind the record is among the bytes
      obtain ⟨k, rfl⟩ := Nat.exists_eq_add_of_lt hlt
      have htake : (lead ++ text ++ stop :: rest).take ((lead ++ text).length + k + 1)
          = lead ++ text ++ stop :: rest.take k := by
        rw [Nat.add_assoc, List.take_length_add_append, List.take_succ_cons]
      obtain ⟨n, hfeed, hclosed⟩ := ih
        (placeBehind (before ++ lead ++ text ++ [stop]) (start.record + 1)) k
      rw [htake]
      refine ⟨n + 1, ?_, ?_⟩
      · rw [feed_waiting_record hlead htext hne hstop, hfeed, recordsFrom_placeBehind hrest]
        rfl
      · intro i hi
        cases i with
        | zero =>
          refine ⟨Nat.succ_pos _, lead ++ text ++ [stop], ?_, ?_⟩
          · rw [List.prefix_append_right_inj]
            exact List.prefix_iff_eq_append.mpr rfl
          · exact .record hlead htext hne hstop .none
        | succ i =>
          obtain ⟨hlen, inner, hpre, hinner⟩ := hclosed i (Nat.lt_of_succ_lt_succ hi)
          refine ⟨Nat.succ_lt_succ hlen, lead ++ text ++ stop :: inner, ?_, ?_⟩
          · rw [List.prefix_append_right_inj, List.cons_prefix_cons]
            exact ⟨rfl, hpre⟩
          · exact .record hlead htext hne hstop hinner
    · obtain ⟨s, hfeed, _⟩ := exists_feed_waiting hlead htext start before
      have hquiet : ((waiting start before).feed (lead ++ text)).1 = [] := by rw [hfeed]
      rw [List.take_append_of_le_length hle]
      exact ⟨0, feed_take_of_quiet hquiet m, fun i hi => absurd hi (Nat.not_lt_zero i)⟩
  | @last before lead text fields hlead htext hne =>
    obtain ⟨s, hfeed, _⟩ := exists_feed_waiting hlead htext start before
    have hquiet : ((waiting start before).feed (lead ++ text)).1 = [] := by rw [hfeed]
    exact ⟨0, feed_take_of_quiet hquiet m, fun i hi => absurd hi (Nat.not_lt_zero i)⟩

/-- The records that the first bytes of a log complete are those that end within them. -/
theorem exists_feed_take_iff {mark bs : List UInt8} {log : List Placed}
    (h : LogText mark bs log) (start : Position) {count : Nat} (hcount : mark.length ≤ count) :
    ∃ n, ((waiting start mark).feed (bs.take (count - mark.length))).1
        = (recordsFrom start log).take n ∧
      ∀ i, i < n ↔ EndsWithin mark bs log count i := by
  obtain ⟨n, hfeed, hclosed⟩ := exists_feed_take h start (count - mark.length)
  refine ⟨n, hfeed, fun i => ⟨fun hi => ?_, fun hi => ?_⟩⟩
  · obtain ⟨hlen, text, hpre, htext⟩ := hclosed i hi
    have hbytes := hpre.length_le
    rw [List.length_take] at hbytes
    refine ⟨hlen, text, hpre.trans (List.take_prefix _ _), ?_, htext⟩
    omega
  · obtain ⟨hlen, text, hpre, hbytes, htext⟩ := hi
    have htake : text <+: bs.take (count - mark.length) :=
      List.prefix_take_iff.mpr ⟨hpre, by omega⟩
    have hle := length_feed_le_of_prefix htake (waiting start mark)
    rw [length_feed_of_closedText htext, hfeed, List.length_take, List.length_take] at hle
    omega

end Scan

/-! ## The decoder of a source that fails -/

theorem numbered_take (index n : Nat) (ps : List Placed) :
    (numbered index ps).take n = numbered index (ps.take n) := by
  induction ps generalizing index n with
  | nil => simp [numbered]
  | cons p ps ih =>
    cases n with
    | zero => rfl
    | succ n => rw [numbered, List.take_succ_cons, List.take_succ_cons, numbered, ih]

theorem recordsFrom_take (start : Position) (n : Nat) (ps : List Placed) :
    (recordsFrom start ps).take n = recordsFrom start (ps.take n) := by
  cases ps with
  | nil => simp [recordsFrom]
  | cons p ps =>
    cases n with
    | zero => rfl
    | succ n =>
      rw [recordsFrom, List.take_succ_cons, List.take_succ_cons, recordsFrom, numbered_take]

namespace Source

variable {bs : List UInt8} {count size : Nat}

/-- The mark of the first bytes of a list that has one, as far as they hold it. -/
theorem markOf_take (hcount : (markOf bs).length ≤ count) : markOf (bs.take count) = markOf bs := by
  unfold markOf at hcount ⊢
  by_cases hmark : byteOrderMark <+: bs
  · rw [if_pos hmark] at hcount
    rw [if_pos hmark, if_pos (List.prefix_take_iff.mpr ⟨hmark, hcount⟩)]
  · rw [if_neg hmark, if_neg fun h => hmark (h.trans (List.take_prefix _ _))]

/-- What is found in a source that fails are the records that its bytes complete. -/
theorem entries_failingAfter (hcount : count ≤ bs.length) (hsize : PassMark size bs)
    (hpast : byteOrderMark <+: bs → count ≠ byteOrderMark.length) (e : SystemError) :
    entries (failingAfter bs size count e)
      = ((Scan.waiting {} (markOf (bs.take count))).feed
          ((bs.take count).drop (markOf (bs.take count)).length)).1.map .record
        ++ [.failure e] := by
  have hmark := leadingMark_chunks (hsize.take count)
  have hread : (chunks size (bs.take count)).head? ≠ some byteOrderMark := by
    intro hhead
    have htake := eq_of_head?_chunks (hsize.take count) hhead
    have hlen := congrArg List.length htake
    rw [List.length_take, Nat.min_eq_left hcount] at hlen
    exact hpast (htake ▸ List.take_prefix _ _) hlen
  have hwaiting : ({ here := { byte := (markOf (bs.take count)).length } } : Scan)
      = Scan.waiting {} (markOf (bs.take count)) := by
    unfold markOf
    split <;> rfl
  unfold failingAfter
  rw [if_neg (Nat.not_lt.mpr hcount), entries_of_ne hread, markLength_eq, hmark, hwaiting,
    flatten_chunks]

/-- Less than a byte order mark completes no record. -/
theorem feed_take_of_lt (hcount : count < (markOf bs).length) :
    markOf (bs.take count) = [] ∧ ((Scan.waiting {} []).feed (bs.take count)).1 = [] := by
  unfold markOf at hcount
  split at hcount
  · next hmark =>
    have htake : bs.take count = byteOrderMark.take count := by
      obtain ⟨rest, rfl⟩ := hmark
      exact List.take_append_of_le_length (Nat.le_of_lt hcount)
    rw [htake]
    refine ⟨if_neg fun h => ?_, Scan.feed_take_of_quiet (by decide) count⟩
    have hlen := h.length_le
    rw [List.length_take] at hlen
    omega
  · exact absurd hcount (Nat.not_lt_zero _)

/-- A source that fails holds the records that end before, and then its failure. -/
theorem exists_entries_failingAfter (hcount : count ≤ bs.length) {log : List Placed}
    (h : LogText (markOf bs) (bs.drop (markOf bs).length) log) :
    ∃ n, (∀ i, i < n ↔ EndsWithin (markOf bs) (bs.drop (markOf bs).length) log count i) ∧
      ∀ size, PassMark size bs → (byteOrderMark <+: bs → count ≠ byteOrderMark.length) → ∀ e, entries (failingAfter bs size count e)
        = (recordsFrom {} (log.take n)).map .record ++ [.failure e] := by
  rcases Nat.lt_or_ge count (markOf bs).length with hlt | hle
  · obtain ⟨hmark, hfeed⟩ := feed_take_of_lt hlt
    refine ⟨0, fun i => iff_of_false (Nat.not_lt_zero i) fun hends => ?_, fun size hsize hpast e => ?_⟩
    · obtain ⟨_, text, _, hbytes, _⟩ := hends
      omega
    · rw [entries_failingAfter hcount hsize hpast, hmark]
      exact congrArg (fun records => List.map Entry.record records ++ [.failure e]) hfeed
  · obtain ⟨n, hfeed, hends⟩ := Scan.exists_feed_take_iff h {} hle
    refine ⟨n, hends, fun size hsize hpast e => ?_⟩
    rw [entries_failingAfter hcount hsize hpast, markOf_take hle, List.drop_take, hfeed,
      recordsFrom_take]

end Source

theorem ofEntries_recordsFrom (known : List Placed) (e : SystemError) :
    Decoder.ofEntries ((recordsFrom {} known).map .record ++ [.failure e])
      = ⟨rowWidth known, (numbered 1 known.tail).map .record ++ [.failure e]⟩ := by
  cases known <;> rfl

/-! ## Calls -/

theorem bounds_of_mem_badRows {width i : Nat} {rows : List Placed} {b : Nat × DecodeError}
    (h : b ∈ badRows width i rows) : i < b.1 ∧ b.1 ≤ i + rows.length := by
  obtain ⟨row, hrow, hb⟩ := List.mem_filterMap.mp h
  obtain ⟨_, _, rfl⟩ := badRow?_eq_some_iff.mp hb
  have hle := List.le_snd_of_mem_zipIdx hrow
  have hlt := List.snd_lt_add_of_mem_zipIdx hrow
  show i < row.2 ∧ row.2 ≤ i + rows.length
  omega

/-- The bad rows among the first records of a log are the first bad rows of the log. -/
theorem exists_badRows_take (log : List Placed) (n : Nat) :
    ∃ late, badRows (rowWidth log) 0 log.tail
        = badRows (rowWidth (log.take n)) 0 (log.take n).tail ++ late ∧
      (∀ b ∈ badRows (rowWidth (log.take n)) 0 (log.take n).tail, b.1 < n) ∧
      ∀ b ∈ late, ¬b.1 < n := by
  cases log with
  | nil => exact ⟨[], by rw [List.take_nil, List.append_nil], by simp [badRows], by simp⟩
  | cons header rows =>
    cases n with
    | zero => exact ⟨_, rfl, fun b hb => absurd hb List.not_mem_nil, fun b _ => Nat.not_lt_zero _⟩
    | succ n =>
      have hsplit := badRows_append header.fields.length 0 (rows.take n) (rows.drop n)
      rw [List.take_append_drop] at hsplit
      refine ⟨_, hsplit, fun b hb => ?_, fun b hb => ?_⟩
      · have hbounds := bounds_of_mem_badRows hb
        rw [List.take_succ_cons, List.tail_cons, List.length_take] at hbounds
        omega
      · have hbounds := bounds_of_mem_badRows hb
        rw [List.length_take, List.length_drop] at hbounds
        omega

/-- The first calls of a log answer the errors of its first bad rows. -/
theorem answersOf_refusals_append (early late : List (Nat × DecodeError)) (more : List Answer) :
    answersOf (refusals (early ++ late) ++ more) early.length = refusals early := by
  have hlen : early.length = (refusals early).length := (List.length_map _).symm
  have hsplit : refusals (early ++ late) = refusals early ++ refusals late := List.map_append
  unfold answersOf
  rw [hsplit, hlen, List.append_assoc, List.append_assoc, List.take_left]

/-- The decoder of a source that never fails does not depend on its reads. -/
theorem ofSource_ofBytes {bs : List UInt8} {log : List Placed}
    (h : LogText (Source.markOf bs) (bs.drop (Source.markOf bs).length) log) {size : Nat}
    (hsize : Source.PassMark size bs) :
    Decoder.ofSource (.ofBytes bs size)
      = { width := rowWidth log, rest := (numbered 1 log.tail).map .record } := by
  have hreads : LogText (Source.leadingMark (Source.chunks size bs))
      (Source.behindMark (Source.chunks size bs)) log := by
    rw [Source.leadingMark_chunks hsize, Source.behindMark_chunks hsize]
    exact h
  exact ofSource_of_logText hreads

/-- A source whose first read is the byte order mark alone holds nothing. -/
theorem decodeTimes_of_alone {s : Source} (h : s.reads.head? = some byteOrderMark) (calls : Nat) :
    (Decoder.ofSource s).decodeTimes calls = List.replicate calls (.ok []) := by
  rw [Decoder.ofSource, Source.entries_of_alone h]
  exact (decodeTimes_nil 0 calls).trans (answersOf_nil calls)

/-- What the calls answer when a source fails behind its first bytes.

The bad rows of the log fall into those whose line break is among these bytes and those
behind.  The calls answer the errors of the former, as they do when the source does not
fail; then one call answers the failure, whatever else was read before it, and every
call after that answers no samples.  None of this depends on how many bytes are read at
once, and neither do the answers of a source that does not fail, as long as no read is a
byte order mark alone.  A source that begins with such a read is never read on. -/
theorem decodeTimes_failingAfter (bs : List UInt8) (count : Nat) (hcount : count ≤ bs.length) :
    let mark := if byteOrderMark <+: bs then byteOrderMark else []
    (∃ log, LogText mark (bs.drop mark.length) log) ∧
    (∀ log, LogText mark (bs.drop mark.length) log →
      ∃ early late, AreBadRows log (early ++ late) ∧
        (∀ b ∈ early, EndsWithin mark (bs.drop mark.length) log count b.1) ∧
        (∀ b ∈ late, ¬EndsWithin mark (bs.drop mark.length) log count b.1) ∧
        ∀ size size', Source.PassMark size bs → Source.PassMark size' bs → ∀ e calls,
          ((byteOrderMark <+: bs → count ≠ byteOrderMark.length) →
            (Decoder.ofSource (.failingAfter bs size count e)).decodeTimes calls
              = answersOf (refusals early ++ [.error (.reading e)]) calls) ∧
          (Decoder.ofSource (.ofBytes bs size)).decodeTimes early.length = refusals early ∧
          (Decoder.ofSource (.ofBytes bs size')).decodeTimes calls
              = (Decoder.ofSource (.ofBytes bs size)).decodeTimes calls) ∧
    ∀ size e, (Source.failingAfter bs size count e).reads.head? = some byteOrderMark →
      ∀ calls, (Decoder.ofSource (.failingAfter bs size count e)).decodeTimes calls
        = List.replicate calls (.ok []) := by
  intro mark
  refine ⟨exists_logText _ _, fun log hlog => ?_, fun size e => decodeTimes_of_alone⟩
  obtain ⟨n, hends, hentries⟩ := Source.exists_entries_failingAfter hcount hlog
  obtain ⟨late, hsplit, hearly, hlate⟩ := exists_badRows_take log n
  have hbad := areBadRows_badRows log
  have hfailure : ∀ (width : Nat) (e : SystemError),
      decodeRows width [.failure e] = (.error (.reading e), []) := fun _ _ => rfl
  have hnothing : decodeRows (rowWidth log) [] = (.ok [], []) := rfl
  refine ⟨_, late, hsplit ▸ hbad, fun b hb => (hends b.1).mp (hearly b hb),
    fun b hb hend => hlate b hb ((hends b.1).mpr hend), ?_⟩
  intro size size' hsize hsize' e calls
  refine ⟨fun hpast => ?_, ?_, ?_⟩
  · obtain ⟨_, _, hcalls⟩ := exists_decodeTimes_tail (hfailure (rowWidth (log.take n)) e)
    rw [Decoder.ofSource, hentries size hsize hpast e, ofEntries_recordsFrom, hcalls calls]
    rfl
  · obtain ⟨_, _, hcalls⟩ := exists_decodeTimes_tail hnothing
    rw [List.append_nil, hsplit] at hcalls
    rw [ofSource_ofBytes hlog hsize, hcalls, answersOf_refusals_append]
  · rw [ofSource_ofBytes hlog hsize, ofSource_ofBytes hlog hsize']

/-- A source that fails inside the quotes of its second row, behind a bad first row that
a carriage return ends. -/
theorem decodeTimes_failingAfter_in_quotes :
    let bs := byteOrderMark ++ Text.Utf8.encode ['t', ',', 'c', ',', 'r', '\n', 'x', ',', '1', ',',
      '1', '\r', '\n', '1', ',', '"', '2', '"', ',', '3', '\n']
    19 ≤ bs.length ∧ ∀ size, byteOrderMark.length < size →
      (Decoder.ofSource (.failingAfter bs size 19 .noSpace)).decodeTimes 3
        = [.error (.row { byte := 9, line := 2, record := 1 } (.seconds .invalidDigit)),
            .error (.reading .noSpace), .ok []] := by
  intro bs
  have hlen : 19 ≤ bs.length := by decide
  refine ⟨hlen, fun size hsize => ?_⟩
  obtain ⟨⟨log, hlog⟩, hall, -⟩ := decodeTimes_failingAfter bs 19 hlen
  obtain ⟨early, late, _, _, _, hcalls⟩ := hall log hlog
  have hmark : Source.PassMark 4 bs := fun _ => by decide
  have hpast : byteOrderMark <+: bs → 19 ≠ byteOrderMark.length := fun _ => by decide
  rw [(hcalls size 4 (fun _ => hsize) hmark .noSpace 3).1 hpast,
    ← (hcalls 4 4 hmark hmark .noSpace 3).1 hpast, Decoder.ofSource,
    Source.entries_failingAfter hlen hmark hpast]
  decide

/-- A log whose byte order mark is read alone.  Its row is lost, and so is a failure behind
all of its bytes. -/
theorem exists_failingAfter_unseen :
    let bs := byteOrderMark ++ Text.Utf8.encode ['t', ',', 'c', ',', 'r', '\n', '0', ',', '1', ',',
      '2', '\n']
    byteOrderMark <+: bs ∧
      (Decoder.ofSource (.ofBytes bs 4)).decodeTimes 1 = [.ok [⟨0, 1, 2⟩]] ∧
      (Decoder.ofSource (.ofBytes bs 3)).decodeTimes 1 = [.ok []] ∧
      (Decoder.ofSource (.failingAfter bs 3 bs.length .noSpace)).decodeTimes 1 = [.ok []] := by
  intro bs
  have hmark : Source.PassMark 4 bs := fun _ => by decide
  have hread : (Source.chunks 4 bs).head? ≠ some byteOrderMark := by
    rw [Source.head?_chunks (by decide)]
    decide
  refine ⟨by decide, ?_, decodeTimes_of_alone ?_ 1, decodeTimes_of_alone ?_ 1⟩
  · rw [Decoder.ofSource, Source.ofBytes, Source.entries_of_ne hread, Source.markLength_eq,
      Source.leadingMark_chunks hmark, Source.flatten_chunks]
    decide +kernel
  · rw [Source.ofBytes, Source.head?_chunks (by decide)]
    decide
  · rw [Source.failingAfter, if_neg (Nat.lt_irrefl _), List.take_length,
      Source.head?_chunks (by decide)]
    decide

end BenchCharts.ResourceLog
