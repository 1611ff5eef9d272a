import BenchCharts.Proofs.ResourceLog.Reading

/-!
# Calling a decoder again

A call ends at the first bad row or at the end of the log, and the next call goes on
behind it.  So the calls on one decoder go through the bad rows one by one; then one
call answers the samples behind the last bad row, and every further call finds
nothing left.

`AreBadRows` says which rows are bad and what each of them is answered with.
`badRows` lists them, and `exists_decodeTimes` takes the calls apart at the rows of
this list.  What stands behind the rows is arbitrary there, as long as one call reads
it to its end: nothing in a log that was read as a whole, a failure in one that was
not.
-/

namespace BenchCharts.ResourceLog

/-! ## The bad rows of a log -/

/-- Record `i` of a log is a row that holds no sample, and a call that comes to it
answers `e`.  The header has the number zero. -/
def IsBadRow (log : List Placed) (i : Nat) (e : DecodeError) : Prop :=
  ∃ row fault, (row, i) ∈ log.tail.zipIdx 1 ∧ RowFails (rowWidth log) row.fields fault ∧
    e = .row (faultPosition (row.record i) fault) fault

/-- All bad rows of a log by their numbers, in the order of the log. -/
structure AreBadRows (log : List Placed) (bad : List (Nat × DecodeError)) : Prop where
  ordered : bad.Pairwise fun x y => x.1 < y.1
  mem_iff : ∀ i e, (i, e) ∈ bad ↔ IsBadRow log i e

/-- The number and the error of a row, if it holds no sample. -/
def badRow? (width : Nat) (row : Placed × Nat) : Option (Nat × DecodeError) :=
  match decodeRow width (row.1.record row.2) with
  | .ok _ => none
  | .error e => some (row.2, e)

/-- The bad ones among the rows that stand behind record `i`. -/
def badRows (width i : Nat) (rows : List Placed) : List (Nat × DecodeError) :=
  (rows.zipIdx (i + 1)).filterMap (badRow? width)

variable {width i : Nat} {rows : List Placed} {samples : List Sample}

theorem badRow?_eq_none {row : Placed} {s : Sample} (h : IsRow width row.fields s) (k : Nat) :
    badRow? width (row, k) = none := by
  have hrow : decodeRow width (row.record k) = .ok s := decodeRow_eq_ok_iff.mpr h
  unfold badRow?
  rw [hrow]

theorem badRow?_eq_some {row : Placed} {fault : RowFault} (h : RowFails width row.fields fault)
    (k : Nat) :
    badRow? width (row, k) = some (k, .row (faultPosition (row.record k) fault) fault) := by
  have hrow : decodeRow width (row.record k) = .error _ :=
    decodeRow_eq_error_iff.mpr ⟨fault, h, rfl⟩
  unfold badRow?
  rw [hrow]

theorem badRow?_eq_some_iff {row : Placed × Nat} {b : Nat × DecodeError} :
    badRow? width row = some b
      ↔ ∃ fault, RowFails width row.1.fields fault ∧
          b = (row.2, .row (faultPosition (row.1.record row.2) fault) fault) := by
  constructor
  · intro h
    cases hrow : readRow width row.1.fields with
    | ok s =>
      rw [badRow?_eq_none (readRow_eq_ok_iff.mp hrow)] at h
      cases h
    | error fault =>
      have hfails := readRow_eq_error_iff.mp hrow
      rw [badRow?_eq_some hfails] at h
      exact ⟨fault, hfails, (Option.some.inj h).symm⟩
  · intro h
    obtain ⟨fault, hfails, rfl⟩ := h
    exact badRow?_eq_some hfails row.2

/-- The numbers of a numbered list grow. -/
theorem pairwise_zipIdx (rows : List Placed) (k : Nat) :
    (rows.zipIdx k).Pairwise fun x y => x.2 < y.2 := by
  induction rows generalizing k with
  | nil => exact List.Pairwise.nil
  | cons row rows ih =>
    rw [List.zipIdx_cons]
    exact List.pairwise_cons.mpr ⟨fun y hy => List.le_snd_of_mem_zipIdx hy, ih (k + 1)⟩

theorem badRows_append (width i : Nat) (rows more : List Placed) :
    badRows width i (rows ++ more)
      = badRows width i rows ++ badRows width (i + rows.length) more := by
  unfold badRows
  rw [List.zipIdx_append, List.filterMap_append, Nat.add_right_comm]

theorem badRows_of_areRows (h : AreRows width rows samples) (i : Nat) :
    badRows width i rows = [] := by
  induction h generalizing i with
  | nil => rfl
  | cons hrow _ ih =>
    unfold badRows
    rw [List.zipIdx_cons, List.filterMap_cons_none (badRow?_eq_none hrow (i + 1))]
    exact ih (i + 1)

theorem badRows_cons_of_rowFails {row : Placed} {fault : RowFault}
    (h : RowFails width row.fields fault) (i : Nat) (rows : List Placed) :
    badRows width i (row :: rows)
      = (i + 1, .row (faultPosition (row.record (i + 1)) fault) fault)
          :: badRows width (i + 1) rows := by
  unfold badRows
  rw [List.zipIdx_cons, List.filterMap_cons_some (badRow?_eq_some h (i + 1))]

/-- The list holds all bad rows of the log. -/
theorem areBadRows_badRows (log : List Placed) :
    AreBadRows log (badRows (rowWidth log) 0 log.tail) where
  ordered := by
    apply List.Pairwise.filterMap (R := fun x y => x.2 < y.2) _ _ (pairwise_zipIdx _ 1)
    intro x y hxy b hb c hc
    obtain ⟨_, _, rfl⟩ := badRow?_eq_some_iff.mp hb
    obtain ⟨_, _, rfl⟩ := badRow?_eq_some_iff.mp hc
    exact hxy
  mem_iff := by
    intro i e
    unfold badRows IsBadRow
    simp only [List.mem_filterMap, badRow?_eq_some_iff]
    constructor
    · intro h
      obtain ⟨⟨row, k⟩, hrow, fault, hfails, hb⟩ := h
      obtain ⟨rfl, rfl⟩ := Prod.mk.inj hb
      exact ⟨row, fault, hrow, hfails, rfl⟩
    · intro h
      obtain ⟨row, fault, hrow, hfails, rfl⟩ := h
      exact ⟨(row, i), hrow, fault, hfails, rfl⟩

/-! ## Calls -/

/-- The answer of a call. -/
abbrev Answer := Except DecodeError (List Sample)

/-- What calls answer that come to bad rows. -/
def refusals (bad : List (Nat × DecodeError)) : List Answer :=
  bad.map fun b => .error b.2

/-- The answers of a number of calls: first the given ones, and behind them each call
finds nothing left. -/
def answersOf (first : List Answer) (calls : Nat) : List Answer :=
  (first ++ List.replicate calls (.ok [] : Answer)).take calls

theorem answersOf_nil (calls : Nat) : answersOf [] calls = List.replicate calls (.ok []) := by
  unfold answersOf
  rw [List.nil_append, List.take_replicate, Nat.min_self]

theorem answersOf_cons (answer : Answer) (first : List Answer) (calls : Nat) :
    answersOf (answer :: first) (calls + 1) = answer :: answersOf first calls := by
  have hlen : calls ≤ (first ++ List.replicate calls (Except.ok [] : Answer)).length := by
    rw [List.length_append, List.length_replicate]
    omega
  unfold answersOf
  rw [List.cons_append, List.take_succ_cons, List.replicate_succ', ← List.append_assoc,
    List.take_append_of_le_length hlen]

theorem decodeTimes_nil (width calls : Nat) :
    Decoder.decodeTimes ⟨width, []⟩ calls = answersOf [] calls := by
  rw [answersOf_nil]
  induction calls with
  | zero => rfl
  | succ calls ih =>
    rw [List.replicate_succ, ← ih]
    rfl

/-- The first call answers, and the others go on behind what it read. -/
theorem decodeTimes_eq_answersOf_cons {entries rest : List Entry} {answer : Answer}
    {first : List Answer} (h : decodeRows width entries = (answer, rest))
    (hrest : ∀ calls, Decoder.decodeTimes ⟨width, rest⟩ calls = answersOf first calls)
    (calls : Nat) :
    Decoder.decodeTimes ⟨width, entries⟩ calls = answersOf (answer :: first) calls := by
  cases calls with
  | zero => rfl
  | succ calls => rw [Decoder.decodeTimes, Decoder.decode, h, answersOf_cons, ← hrest]

/-- The calls on rows with something behind them that one call reads to its end.  There
is a call for each bad row, and then one for the samples behind the last of them and
for what stands behind the rows. -/
theorem exists_decodeTimes {behind : List Entry} {result : Answer}
    (hbehind : decodeRows width behind = (result, [])) (before rows : List Placed)
    (hbefore : before.length = i + 1) :
    ∃ samples,
      AreRows width ((before ++ rows).drop (((badRows width i rows).map Prod.fst).getLastD i + 1))
        samples ∧
      ∀ calls, Decoder.decodeTimes ⟨width, (numbered (i + 1) rows).map .record ++ behind⟩ calls
        = answersOf (refusals (badRows width i rows) ++ [result.map (samples ++ ·)]) calls := by
  induction hn : rows.length using Nat.strongRecOn generalizing i before rows with
  | ind n ih =>
    rcases exists_areRows width rows with
      ⟨samples, hsamples⟩ | ⟨good, samples, row, rest, fault, rfl, hgood, hrow⟩
    · rw [badRows_of_areRows hsamples]
      refine ⟨samples, ?_, ?_⟩
      · rw [List.map_nil, List.getLastD_nil, ← hbefore, List.drop_left]
        exact hsamples
      · have hlast := decodeRows_append hsamples (i + 1) behind
        rw [hbehind] at hlast
        exact decodeTimes_eq_answersOf_cons hlast (decodeTimes_nil width)
    · have hlt : rest.length < n := by
        simp only [List.length_append, List.length_cons] at hn
        omega
      have hlen : (before ++ good ++ [row]).length = i + good.length + 1 + 1 := by
        simp only [List.length_append, List.length_cons, List.length_nil]
        omega
      obtain ⟨samples, hsamples, hcalls⟩ := ih _ hlt (before ++ good ++ [row]) rest hlen rfl
      -- one call comes to the bad row, and the next one goes on behind it
      have hfirst := decodeRows_append_of_rowFails hgood hrow (i + 1) rest behind
      rw [Nat.add_right_comm i 1] at hfirst
      have hbad := badRows_append width i good (row :: rest)
      rw [badRows_of_areRows hgood, List.nil_append, badRows_cons_of_rowFails hrow] at hbad
      rw [hbad]
      refine ⟨samples, ?_, decodeTimes_eq_answersOf_cons hfirst hcalls⟩
      rw [List.map_cons, List.getLastD_cons]
      simpa only [List.append_assoc, List.singleton_append] using hsamples

/-! ## A log -/

/-- The calls on the rows of a log. -/
theorem exists_decodeTimes_tail {log : List Placed} {behind : List Entry} {result : Answer}
    (hbehind : decodeRows (rowWidth log) behind = (result, [])) :
    ∃ samples,
      AreRows (rowWidth log)
        (log.drop (((badRows (rowWidth log) 0 log.tail).map Prod.fst).getLastD 0 + 1)) samples ∧
      ∀ calls, Decoder.decodeTimes
          ⟨rowWidth log, (numbered 1 log.tail).map .record ++ behind⟩ calls
        = answersOf (refusals (badRows (rowWidth log) 0 log.tail) ++ [result.map (samples ++ ·)])
            calls := by
  cases log with
  | nil =>
    refine ⟨[], List.Forall₂.nil, decodeTimes_eq_answersOf_cons ?_ (decodeTimes_nil _)⟩
    rw [List.tail_nil, numbered, List.map_nil, List.nil_append, hbehind]
    cases result <;> rfl
  | cons header rows => exact exists_decodeTimes hbehind [header] rows rfl

/-- What the calls on one decoder answer.

Behind a byte order mark the bytes of a source are a log, and however the grammar
divides them into records, there is a call for each bad row, which answers the error
of that row; the next call answers the samples of exactly the rows behind the last bad
one; and every call after that answers no samples.  The header is read once, since it
has the number zero and stands for the last bad row of a log that has none.  Only a byte
order mark that is read alone ends the log. -/
theorem decodeTimes_eq_answersOf (reads : List (List UInt8)) :
    let mark := Source.leadingMark reads
    let bytes := Source.behindMark reads
    (byteOrderMark.length ≤ (reads.headD []).length ∨ ¬byteOrderMark <+: reads.flatten →
      mark = if byteOrderMark <+: reads.flatten then byteOrderMark else []) ∧
    (reads.head? ≠ some byteOrderMark ∨ reads.flatten = byteOrderMark →
      bytes = reads.flatten.drop mark.length) ∧
    (∃ log, LogText mark bytes log) ∧
    ∀ log, LogText mark bytes log →
      ∃ bad samples, AreBadRows log bad ∧
        AreRows (rowWidth log) (log.drop ((bad.map Prod.fst).getLastD 0 + 1)) samples ∧
        ∀ calls, (Decoder.ofSource { reads }).decodeTimes calls
          = answersOf (refusals bad ++ [.ok samples]) calls := by
  intro mark bytes
  refine ⟨Source.leadingMark_of_length_le, Source.behindMark_of_ne, exists_logText _ _,
    fun log hlog => ?_⟩
  have hnothing : decodeRows (rowWidth log) [] = (.ok [], []) := rfl
  obtain ⟨samples, hsamples, hcalls⟩ := exists_decodeTimes_tail hnothing
  refine ⟨_, samples, areBadRows_badRows log, hsamples, fun calls => ?_⟩
  rw [ofSource_of_logText hlog]
  have h := hcalls calls
  rw [List.append_nil, Except.map, List.append_nil] at h
  exact h

end BenchCharts.ResourceLog
