import BenchCharts.Proofs.ResourceLog.Grammar

/-!
# The reader finds the records of the grammar

`Scan.feed` is followed along the productions of the grammar: over a field, over
a record, over a whole log.  A field and a record complete nothing by themselves,
so what they leave behind is a state of the reader; `Scan.Holds` says which.  A
log leaves its records, each at the place where the line break before it ended.

`Source.entries_of_logText` is the result for a source that never fails.  How its
bytes are cut into reads matters only to a byte order mark, which counts when the
first read holds it whole.
-/

namespace BenchCharts.ResourceLog

/-! ## Places -/

/-- The place behind further bytes. -/
def Position.behind (p : Position) (bs : List UInt8) : Position :=
  { p with byte := p.byte + bs.length, line := p.line + bs.count lineFeed }

/-- The place behind the first bytes of a log, with a number of records before it. -/
def placeBehind (before : List UInt8) (index : Nat) : Position :=
  Position.behind { record := index } before

@[simp] theorem Position.behind_nil (p : Position) : p.behind [] = p := rfl

theorem Position.behind_cons (p : Position) (b : UInt8) (bs : List UInt8) :
    p.behind (b :: bs) = (p.advance b).behind bs := by
  unfold Position.behind Position.advance
  rw [List.length_cons, List.count_cons]
  by_cases hb : b = lineFeed
  · simp only [hb, beq_self_eq_true, if_true, Position.mk.injEq, and_true]
    omega
  · simp only [beq_iff_eq, if_neg hb, Position.mk.injEq, and_true]
    omega

theorem Position.behind_append (p : Position) (bs cs : List UInt8) :
    p.behind (bs ++ cs) = (p.behind bs).behind cs := by
  induction bs generalizing p with
  | nil => rfl
  | cons b bs ih => rw [List.cons_append, behind_cons, behind_cons, ih]

theorem placeBehind_append (before bs : List UInt8) (index : Nat) :
    placeBehind (before ++ bs) index = (placeBehind before index).behind bs :=
  Position.behind_append _ before bs

namespace Scan

/-! ## Byte by byte -/

@[simp] theorem feed_nil (s : Scan) : s.feed [] = ([], s) := rfl

theorem feed_cons (s : Scan) (b : UInt8) (bs : List UInt8) :
    s.feed (b :: bs)
      = ((s.step b).2.toList ++ ((s.step b).1.feed bs).1, ((s.step b).1.feed bs).2) := rfl

/-- The reader carries everything that it knows over a cut. -/
theorem feed_append (s : Scan) (bs cs : List UInt8) :
    s.feed (bs ++ cs)
      = ((s.feed bs).1 ++ ((s.feed bs).2.feed cs).1, ((s.feed bs).2.feed cs).2) := by
  induction bs generalizing s with
  | nil => rfl
  | cons b bs ih =>
    rw [List.cons_append, feed_cons, feed_cons, ih]
    simp only [List.append_assoc]

/-- A byte that completes no record. -/
theorem feed_cons_of_step {s s' : Scan} {b : UInt8} (h : s.step b = (s', none))
    (bs : List UInt8) : s.feed (b :: bs) = s'.feed bs := by
  rw [feed_cons, h]
  rfl

/-- Bytes that complete no record. -/
theorem feed_append_of_feed {s s' : Scan} {bs : List UInt8} (h : s.feed bs = ([], s'))
    (cs : List UInt8) : s.feed (bs ++ cs) = s'.feed cs := by
  rw [feed_append, h]
  rfl

variable {field : List UInt8} {fields : List (List UInt8)} {start here : Position}

/-- The quote at the head of a field. -/
theorem step_opening_quote {stand : Stand} (hstand : stand = .recordStart ∨ stand = .fieldStart) :
    step ⟨stand, field, fields, start, here⟩ quote
      = (⟨.quoted, field, fields, start, here.advance quote⟩, none) := by
  have hbreak : isBreak quote = false := by decide
  rcases hstand with rfl | rfl <;> simp [step, opening, hbreak]

/-- Outside quotes a plain byte goes to the field, which is bare from there on. -/
theorem step_plain {stand : Stand} (hstand : stand ≠ .quoted) {b : UInt8} (hb : IsPlain b)
    (hquote : b ≠ quote) :
    step ⟨stand, field, fields, start, here⟩ b
      = (⟨.bare, b :: field, fields, start, here.advance b⟩, none) := by
  cases stand with
  | quoted => exact absurd rfl hstand
  | recordStart => simp [step, opening, plain, push, hquote, hb.1, hb.2]
  | fieldStart => simp [step, opening, plain, push, hquote, hb.1, hb.2]
  | bare => simp [step, plain, push, hb.1, hb.2]
  | quoteSeen => simp [step, plain, push, hquote, hb.1, hb.2]

/-- Inside a bare field a quote is a byte like any other. -/
theorem step_bare {b : UInt8} (hb : IsPlain b) :
    step ⟨.bare, field, fields, start, here⟩ b
      = (⟨.bare, b :: field, fields, start, here.advance b⟩, none) := by
  simp [step, plain, push, hb.1, hb.2]

theorem step_quoted_of_ne {b : UInt8} (hb : b ≠ quote) :
    step ⟨.quoted, field, fields, start, here⟩ b
      = (⟨.quoted, b :: field, fields, start, here.advance b⟩, none) := by
  simp [step, push, hb]

theorem step_quoted_quote :
    step ⟨.quoted, field, fields, start, here⟩ quote
      = (⟨.quoteSeen, field, fields, start, here.advance quote⟩, none) := by
  simp [step]

/-- The second quote of two is one byte of the field. -/
theorem step_quoteSeen_quote :
    step ⟨.quoteSeen, field, fields, start, here⟩ quote
      = (⟨.quoted, quote :: field, fields, start, here.advance quote⟩, none) := by
  simp [step, push]

/-- Outside quotes a comma ends the field. -/
theorem step_comma {stand : Stand} (hstand : stand ≠ .quoted) :
    step ⟨stand, field, fields, start, here⟩ comma
      = (⟨.fieldStart, [], field.reverse :: fields, start, here.advance comma⟩, none) := by
  have hquote : comma ≠ quote := by decide
  have hbreak : isBreak comma = false := by decide
  cases stand <;> simp_all [step, opening, plain, endField]

/-- Outside quotes a line break ends the record, once it has begun. -/
theorem step_break {s : Scan} (hquoted : s.stand ≠ .quoted) (hbegun : s.stand ≠ .recordStart)
    {b : UInt8} (hb : isBreak b = true) :
    s.step b = ({ s with here := s.here.advance b }.next, some s.record) := by
  have hcomma : b ≠ comma := by
    intro h
    subst h
    exact absurd hb (by decide)
  have hquote : b ≠ quote := by
    intro h
    subst h
    exact absurd hb (by decide)
  obtain ⟨stand, field, fields, start, here⟩ := s
  cases stand <;> simp_all [step, opening, plain, record]

/-- In front of a record a line break counts for nothing. -/
theorem step_blank {b : UInt8} (hb : isBreak b = true) :
    step ⟨.recordStart, field, fields, start, here⟩ b
      = (⟨.recordStart, field, fields, start, here.advance b⟩, none) := by
  simp [step, hb]

/-! ## Runs of bytes -/

theorem feed_bare {bs : List UInt8} (h : ∀ b ∈ bs, IsPlain b) :
    feed ⟨.bare, field, fields, start, here⟩ bs
      = ([], ⟨.bare, bs.reverse ++ field, fields, start, here.behind bs⟩) := by
  induction bs generalizing field here with
  | nil => rfl
  | cons b bs ih =>
    obtain ⟨hb, hbs⟩ := List.forall_mem_cons.mp h
    rw [feed_cons_of_step (step_bare hb), ih hbs, Position.behind_cons,
      List.reverse_cons, List.append_assoc, List.singleton_append]

/-- Outside quotes plain bytes go to the field, unless a quote is the first of them. -/
theorem exists_feed_plain {stand : Stand} (hstand : stand ≠ .quoted) {bs : List UInt8}
    (hplain : ∀ b ∈ bs, IsPlain b) (hhead : bs.head? ≠ some quote) :
    ∃ stand', feed ⟨stand, field, fields, start, here⟩ bs
        = ([], ⟨stand', bs.reverse ++ field, fields, start, here.behind bs⟩) ∧
      stand' ≠ .quoted ∧ (stand' = .recordStart → bs = [] ∧ stand = .recordStart) := by
  cases bs with
  | nil => exact ⟨stand, rfl, hstand, fun h => ⟨rfl, h⟩⟩
  | cons b bs =>
    obtain ⟨hb, hbs⟩ := List.forall_mem_cons.mp hplain
    have hquote : b ≠ quote := by simpa using hhead
    refine ⟨.bare, ?_, by simp, by simp⟩
    rw [feed_cons_of_step (step_plain hstand hb hquote), feed_bare hbs, Position.behind_cons,
      List.reverse_cons, List.append_assoc, List.singleton_append]

theorem feed_doubleQuotes (inner : List UInt8) :
    feed ⟨.quoted, field, fields, start, here⟩ (doubleQuotes inner)
      = ([], ⟨.quoted, inner.reverse ++ field, fields, start,
          here.behind (doubleQuotes inner)⟩) := by
  induction inner generalizing field here with
  | nil => rfl
  | cons b inner ih =>
    by_cases hb : b = quote
    · subst hb
      rw [doubleQuotes_cons_quote, feed_cons_of_step step_quoted_quote,
        feed_cons_of_step step_quoteSeen_quote, ih, Position.behind_cons, Position.behind_cons,
        List.reverse_cons, List.append_assoc, List.singleton_append]
    · rw [doubleQuotes_cons_of_ne hb, feed_cons_of_step (step_quoted_of_ne hb), ih,
        Position.behind_cons, List.reverse_cons, List.append_assoc, List.singleton_append]

theorem feed_blankLines {lead : List UInt8} (h : IsBlankLines lead) :
    feed ⟨.recordStart, field, fields, start, here⟩ lead
      = ([], ⟨.recordStart, field, fields, start, here.behind lead⟩) := by
  induction lead generalizing here with
  | nil => rfl
  | cons b lead ih =>
    obtain ⟨hb, hlead⟩ := List.forall_mem_cons.mp h
    rw [feed_cons_of_step (step_blank hb), ih hlead, Position.behind_cons]

/-! ## Fields -/

/-- A field is read into the reader's open field.  Only the end of the log leaves its
quotes open, and only the empty field leaves the reader in front of the record. -/
theorem exists_feed_fieldText {atEnd : Bool} {text content : List UInt8}
    (h : FieldText atEnd text content) {stand : Stand}
    (hstand : stand = .recordStart ∨ stand = .fieldStart) :
    ∃ stand', feed ⟨stand, [], fields, start, here⟩ text
        = ([], ⟨stand', content.reverse, fields, start, here.behind text⟩) ∧
      (atEnd = false → stand' ≠ .quoted) ∧
      (stand' = .recordStart → text = [] ∧ stand = .recordStart) := by
  have hopen : stand ≠ .quoted := by
    intro h
    subst h
    simp at hstand
  cases h with
  | bare hplain hhead =>
    obtain ⟨stand', hfeed, hquoted, hbegun⟩ := exists_feed_plain hopen hplain hhead
    rw [List.append_nil] at hfeed
    exact ⟨stand', hfeed, fun _ => hquoted, hbegun⟩
  | @quoted inner tail hplain hhead =>
    have hinner : feed ⟨stand, [], fields, start, here⟩ (quote :: (doubleQuotes inner ++ [quote]))
        = ([], ⟨.quoteSeen, inner.reverse, fields, start,
            here.behind (quote :: (doubleQuotes inner ++ [quote]))⟩) := by
      rw [feed_cons_of_step (step_opening_quote hstand),
        feed_append_of_feed (feed_doubleQuotes inner), feed_cons_of_step step_quoted_quote,
        feed_nil, List.append_nil, Position.behind_cons, Position.behind_append,
        Position.behind_cons, Position.behind_nil]
    have htext : quote :: (doubleQuotes inner ++ quote :: tail)
        = quote :: (doubleQuotes inner ++ [quote]) ++ tail := by
      simp only [List.cons_append, List.append_assoc, List.nil_append]
    have hseen : Stand.quoteSeen ≠ .quoted := by decide
    obtain ⟨stand', hfeed, hquoted, hbegun⟩ := exists_feed_plain hseen hplain hhead
    refine ⟨stand', ?_, fun _ => hquoted, fun h => nomatch (hbegun h).2⟩
    rw [htext, feed_append_of_feed hinner, hfeed, List.reverse_append, Position.behind_append]
  | unclosed hend =>
    refine ⟨.quoted, ?_, by simp [hend], by simp⟩
    rw [feed_cons_of_step (step_opening_quote hstand), feed_doubleQuotes, List.append_nil,
      Position.behind_cons]

/-! ## Records -/

/-- The reader stands at `place` and has read all of a record but what ends it. -/
structure Holds (s : Scan) (r : Record) (place : Position) : Prop where
  record : s.record = r
  here : s.here = place
  start : s.start = r.position

/-- All fields of a record are read before its end is known. -/
theorem exists_feed_recordText {atEnd : Bool} {text : List UInt8} {contents : List (List UInt8)}
    (h : RecordText atEnd text contents) {stand : Stand}
    (hstand : stand = .recordStart ∨ stand = .fieldStart) :
    ∃ s, feed ⟨stand, [], fields, start, here⟩ text = ([], s) ∧
      s.Holds ⟨start, fields.reverse ++ contents⟩ (here.behind text) ∧
      (atEnd = false → s.stand ≠ .quoted) ∧
      (s.stand = .recordStart → text = [] ∧ stand = .recordStart) := by
  induction h generalizing stand fields here with
  | @one text field hfield =>
    obtain ⟨stand', hfeed, hquoted, hbegun⟩ := exists_feed_fieldText hfield hstand
    refine ⟨_, hfeed, ⟨?_, rfl, rfl⟩, hquoted, hbegun⟩
    simp only [record, List.reverse_cons, List.reverse_reverse]
  | @more text field rest contents hfield _ ih =>
    obtain ⟨stand', hfeed, hquoted, -⟩ := exists_feed_fieldText hfield hstand
    obtain ⟨s, hrest, hholds, hopen, hbegun⟩ := ih (Or.inr rfl)
    refine ⟨s, ?_, ?_, hopen, fun h => nomatch (hbegun h).2⟩
    · rw [feed_append_of_feed hfeed, feed_cons_of_step (step_comma (hquoted rfl)), hrest]
    · rw [List.reverse_reverse, List.reverse_cons, List.append_assoc, List.singleton_append]
        at hholds
      rw [Position.behind_append, Position.behind_cons]
      exact hholds

end Scan

/-! ## Logs -/

/-- The record with the given number, at its place. -/
def Placed.record (p : Placed) (index : Nat) : Record :=
  { position := placeBehind p.before index, fields := p.fields }

/-- Records with numbers from `index` on. -/
def numbered (index : Nat) : List Placed → List Record
  | [] => []
  | p :: ps => p.record index :: numbered (index + 1) ps

/-- The records of a log whose first record is said to begin at `start`. -/
def recordsFrom (start : Position) : List Placed → List Record
  | [] => []
  | p :: ps => { position := start, fields := p.fields } :: numbered (start.record + 1) ps

namespace Scan

/-- In front of a record, behind the bytes `before`. -/
def waiting (start : Position) (before : List UInt8) : Scan :=
  { start, here := placeBehind before start.record }

/-- From where it waits the reader comes to the end of a record. -/
theorem exists_feed_waiting {atEnd : Bool} {lead text : List UInt8} {contents : List (List UInt8)}
    (hlead : IsBlankLines lead) (htext : RecordText atEnd text contents) (start : Position)
    (before : List UInt8) :
    ∃ s, (waiting start before).feed (lead ++ text) = ([], s) ∧
      s.Holds ⟨start, contents⟩ (placeBehind (before ++ lead ++ text) start.record) ∧
      (atEnd = false → s.stand ≠ .quoted) ∧ (s.stand = .recordStart → text = []) := by
  have hfeed : (waiting start before).feed lead
      = ([], ⟨.recordStart, [], [], start, (placeBehind before start.record).behind lead⟩) :=
    feed_blankLines hlead
  obtain ⟨s, hrecord, hholds, hquoted, hbegun⟩ := exists_feed_recordText htext (Or.inl rfl)
  refine ⟨s, ?_, ?_, hquoted, fun h => (hbegun h).1⟩
  · rw [feed_append_of_feed hfeed, hrecord]
  · rw [← placeBehind_append, ← placeBehind_append] at hholds
    exact hholds

/-- Behind the line break that ends a record the reader waits for the next one. -/
theorem Holds.next_eq {s : Scan} {r : Record} {before : List UInt8} {index : Nat}
    (h : s.Holds r (placeBehind before index)) (b : UInt8) :
    ({ s with here := s.here.advance b } : Scan).next
      = waiting (placeBehind (before ++ [b]) (r.position.record + 1)) (before ++ [b]) := by
  have hplace : { s.here.advance b with record := s.start.record + 1 }
      = placeBehind (before ++ [b]) (r.position.record + 1) := by
    rw [placeBehind_append, Position.behind_cons, Position.behind_nil, h.here, h.start]
    rfl
  show ({ start := _, here := _ } : Scan) = _
  rw [hplace]
  rfl

/-- A log whose first record is said to begin where it begins. -/
theorem recordsFrom_placeBehind {before bs : List UInt8} {log : List Placed}
    (h : LogText before bs log) (index : Nat) :
    recordsFrom (placeBehind before index) log = numbered index log := by
  cases h <;> rfl

/-- The line break behind a record completes it and puts the reader back to where a
record begins. -/
theorem feed_waiting_record {lead text : List UInt8} {contents : List (List UInt8)}
    {stop : UInt8} (hlead : IsBlankLines lead) (htext : RecordText false text contents)
    (hne : text ≠ []) (hstop : isBreak stop = true) (start : Position) (before rest : List UInt8) :
    let behind := before ++ lead ++ text ++ [stop]
    let s := waiting (placeBehind behind (start.record + 1)) behind
    (waiting start before).feed (lead ++ text ++ stop :: rest)
      = (⟨start, contents⟩ :: (s.feed rest).1, (s.feed rest).2) := by
  obtain ⟨s, hfeed, hholds, hquoted, hbegun⟩ := exists_feed_waiting hlead htext start before
  have hstep := step_break (hquoted rfl) (fun h => hne (hbegun h)) hstop
  rw [hholds.next_eq, hholds.record] at hstep
  rw [feed_append_of_feed hfeed, feed_cons, hstep]
  rfl

/-- The reader finds the records of a log. -/
theorem records_of_logText {before bs : List UInt8} {log : List Placed}
    (h : LogText before bs log) (start : Position) :
    ((waiting start before).feed bs).1 ++ ((waiting start before).feed bs).2.finish
      = recordsFrom start log := by
  induction h generalizing start with
  | @done before lead hlead =>
    have hfeed : (waiting start before).feed lead
        = ([], ⟨.recordStart, [], [], start, (placeBehind before start.record).behind lead⟩) :=
      feed_blankLines hlead
    rw [hfeed]
    rfl
  | @record before lead text rest stop contents records hlead htext hne hstop hrest ih =>
    rw [feed_waiting_record hlead htext hne hstop, List.cons_append, ih,
      recordsFrom_placeBehind hrest]
    rfl
  | @last before lead text contents hlead htext hne =>
    obtain ⟨s, hfeed, hholds, -, hbegun⟩ := exists_feed_waiting hlead htext start before
    have hfinish : s.finish = [s.record] := by
      unfold finish
      split
      · next h => exact absurd (hbegun h) hne
      · rfl
    rw [hfeed, hfinish, hholds.record]
    rfl

end Scan

/-! ## Sources that never fail -/

namespace Source

/-- The byte order mark in front of a log, when the first read holds it whole. -/
def leadingMark (reads : List (List UInt8)) : List UInt8 :=
  if byteOrderMark <+: reads.headD [] then byteOrderMark else []

theorem markLength_eq (s : Source) : s.markLength = (leadingMark s.reads).length := by
  have hnone : ¬byteOrderMark <+: [] := by decide
  unfold markLength leadingMark
  cases s.reads with
  | nil => rw [List.headD_nil, if_neg hnone]; rfl
  | cons first _ =>
    simp only [List.headD_cons, ← List.isPrefixOf_iff_prefix]
    split <;> rfl

/-- A byte order mark that is read at once is dropped from the log. -/
theorem leadingMark_of_length_le {reads : List (List UInt8)}
    (h : byteOrderMark.length ≤ (reads.headD []).length ∨ ¬byteOrderMark <+: reads.flatten) :
    leadingMark reads = if byteOrderMark <+: reads.flatten then byteOrderMark else [] := by
  have hfirst : reads.headD [] <+: reads.flatten := by
    cases reads with
    | nil => exact List.prefix_refl []
    | cons first rest => exact List.prefix_append first rest.flatten
  have hiff : byteOrderMark <+: reads.headD [] ↔ byteOrderMark <+: reads.flatten := by
    refine ⟨fun hmark => hmark.trans hfirst, fun hmark => ?_⟩
    rcases h with hlen | hnot
    · exact List.prefix_of_prefix_length_le hmark hfirst hlen
    · exact absurd hmark hnot
  unfold leadingMark
  simp only [hiff]

/-- The bytes behind a byte order mark.  A mark that is read alone is taken for the end of
the input, and nothing is left. -/
def behindMark (reads : List (List UInt8)) : List UInt8 :=
  if reads.head? = some byteOrderMark then []
  else reads.flatten.drop (leadingMark reads).length

/-- Only what follows a mark that is read alone is lost. -/
theorem behindMark_of_ne {reads : List (List UInt8)}
    (h : reads.head? ≠ some byteOrderMark ∨ reads.flatten = byteOrderMark) :
    behindMark reads = reads.flatten.drop (leadingMark reads).length := by
  unfold behindMark
  split
  · next halone =>
    obtain ⟨rest, rfl⟩ := List.head?_eq_some_iff.mp halone
    rcases h with hne | hall
    · exact absurd halone hne
    · rw [hall, leadingMark, List.headD_cons, if_pos (List.prefix_refl _), List.drop_length]
  · rfl

theorem behindMark_singleton (bs : List UInt8) :
    behindMark [bs] = bs.drop (leadingMark [bs]).length := by
  by_cases hbs : bs = byteOrderMark
  · rw [behindMark_of_ne (Or.inr (by rw [List.flatten_singleton, hbs])), List.flatten_singleton]
  · have hne : [bs].head? ≠ some byteOrderMark := by simpa using hbs
    rw [behindMark_of_ne (Or.inl hne), List.flatten_singleton]

theorem entries_of_alone {s : Source} (h : s.reads.head? = some byteOrderMark) :
    s.entries = [] := by
  unfold entries markAlone
  rw [if_pos (decide_eq_true h)]

/-- The entries of a source whose first read is not the byte order mark alone. -/
theorem entries_of_ne {s : Source} (h : s.reads.head? ≠ some byteOrderMark) :
    s.entries =
      let (records, scan) := Scan.feed { here := { byte := s.markLength } }
        (s.reads.flatten.drop s.markLength)
      match s.failure with
      | none => (records ++ scan.finish).map .record
      | some e => records.map .record ++ [.failure e] := by
  unfold entries markAlone
  exact if_neg (by simpa using h)

/-- The entries of a source that never fails are the records of its log. -/
theorem entries_of_logText {reads : List (List UInt8)} {log : List Placed}
    (h : LogText (leadingMark reads) (behindMark reads) log) :
    entries { reads } = (recordsFrom {} log).map .record := by
  have hplace : ({ byte := (leadingMark reads).length } : Position)
      = placeBehind (leadingMark reads) 0 := by
    unfold leadingMark
    split <;> rfl
  rw [← Scan.records_of_logText h {}, Scan.waiting, ← hplace]
  unfold behindMark
  split
  · next halone =>
    rw [entries_of_alone halone]
    rfl
  · next hne =>
    rw [entries_of_ne hne, markLength_eq]

end Source

end BenchCharts.ResourceLog
