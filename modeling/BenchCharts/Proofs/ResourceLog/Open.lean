import BenchCharts.Proofs.ResourceLog.ErrorPlace
import BenchCharts.ResourceLog.Open

/-!
# Logs that can be read and logs that cannot

`GoodLog` says what a log is that can be read to its end, and `LogFault` lists what can be
wrong with a log that exists.  Opening a log answers the samples of a good log, and fails with
the fault of any other, or because there is no log (`openLog_eq_ok_iff`,
`openLog_eq_error_iff`).

A file is read in pieces, each of them longer than a byte order mark, so it is decoded as if
it were read at once (`openLog_of_file_at_once`).
-/

namespace BenchCharts.ResourceLog

open FileTree

/-- The records of a byte list, behind the byte order mark that it may begin with. -/
def IsLog (content : List UInt8) (log : List Placed) : Prop :=
  LogText (Source.markOf content) (content.drop (Source.markOf content).length) log

/-- The path leads to a file of which every row holds a sample. -/
def GoodLog (t : FileTree) (path : String) (samples : List Sample) : Prop :=
  ∃ content log, t.lookup path = .ok (.file content) ∧ IsLog content log ∧
    AreRows (rowWidth log) log.tail samples

/-- What is wrong with a log that exists: it cannot be opened, it is a directory and cannot
be read, or one of its rows holds no sample.  Of several such rows it is the first. -/
inductive LogFault (t : FileTree) (path : String) : OpenError → Prop where
  | socket : t.lookup path = .ok .socket → LogFault t path (.opening .noDevice)
  | directory : t.lookup path = .ok .directory →
      LogFault t path (.decoding (.reading .isDirectory))
  | badRow {content : List UInt8} {log good rest : List Placed} {samples : List Sample}
      {bad : Placed} {fault : RowFault} : t.lookup path = .ok (.file content) →
      IsLog content log → log.tail = good ++ bad :: rest →
      AreRows (rowWidth log) good samples → RowFails (rowWidth log) bad.fields fault →
      LogFault t path
        (.decoding (.row (faultPosition (bad.record (1 + good.length)) fault) fault))

/-- A log that exists cannot be opened or not be read, or one of its rows is bad. -/
def BadLog (t : FileTree) (path : String) : Prop :=
  t.lookup path = .ok .socket ∨ t.lookup path = .ok .directory ∨
    ∃ content log, t.lookup path = .ok (.file content) ∧ IsLog content log ∧
      ∃ row ∈ log.tail, ∀ sample, ¬IsRow (rowWidth log) row.fields sample

section

variable {t : FileTree} {path : String}

theorem contains_eq_true_iff : t.contains path = true ↔ ∃ node, t.lookup path = .ok node := by
  unfold contains
  cases t.lookup path with
  | error e => exact iff_of_false (fun h => nomatch h) fun h => nomatch h
  | ok node => exact iff_of_true rfl ⟨node, rfl⟩

theorem passMark_fileReadSize (content : List UInt8) :
    Source.PassMark Source.fileReadSize content :=
  fun _ => by decide

theorem openLog_of_lookup_eq_ok {node : Node} (h : t.lookup path = .ok node) :
    openLog t path = readLog t path := by
  rw [openLog, if_pos (contains_eq_true_iff.mpr ⟨node, h⟩)]

/-- A file is decoded from its first byte to its last. -/
theorem openLog_of_file {content : List UInt8} {log : List Placed}
    (h : t.lookup path = .ok (.file content)) (hlog : IsLog content log) :
    openLog t path
      = (decodeRows (rowWidth log) ((numbered 1 log.tail).map .record)).1.mapError .decoding := by
  have hdecoder := ofSource_ofBytes hlog (passMark_fileReadSize content)
  rw [openLog_of_lookup_eq_ok h, readLog, h]
  show (Decoder.ofSource (.ofBytes content)).decode.1.mapError _ = _
  rw [hdecoder]
  rfl

/-- For a file it makes no difference that it is read in pieces. -/
theorem openLog_of_file_at_once {content : List UInt8}
    (h : t.lookup path = .ok (.file content)) :
    openLog t path = (Decoder.ofSource { reads := [content] }).decode.1.mapError .decoding := by
  obtain ⟨log, hlog⟩ : ∃ log, IsLog content log := exists_logText _ _
  rw [openLog_of_file h hlog, ofSource_singleton hlog]
  rfl

theorem openLog_of_goodLog {samples : List Sample} (h : GoodLog t path samples) :
    openLog t path = .ok samples := by
  obtain ⟨content, log, hlookup, hlog, hrows⟩ := h
  rw [openLog_of_file hlookup hlog, Except.mapError_eq_ok_iff]
  exact decodeRows_eq_ok_iff.mpr hrows

theorem openLog_of_logFault {e : OpenError} (h : LogFault t path e) :
    openLog t path = .error e := by
  cases h with
  | socket hlookup =>
    rw [openLog_of_lookup_eq_ok hlookup, readLog, hlookup]
    rfl
  | directory hlookup =>
    rw [openLog_of_lookup_eq_ok hlookup, readLog, hlookup]
    rfl
  | @badRow _ _ good rest samples bad fault hlookup hlog htail hgood hbad =>
    rw [openLog_of_file hlookup hlog, Except.mapError_eq_error_iff]
    exact ⟨_, decodeRows_eq_error_iff.mpr
      ⟨good, samples, bad, rest, fault, htail, hgood, hbad, rfl⟩, rfl⟩

/-- A log that exists is good, or there is something wrong with it. -/
theorem exists_goodLog_or_logFault (h : t.contains path = true) :
    (∃ samples, GoodLog t path samples) ∨ ∃ e, LogFault t path e := by
  obtain ⟨node, hlookup⟩ := contains_eq_true_iff.mp h
  cases node with
  | socket => exact Or.inr ⟨_, .socket hlookup⟩
  | directory => exact Or.inr ⟨_, .directory hlookup⟩
  | file content =>
    obtain ⟨log, hlog⟩ : ∃ log, IsLog content log := exists_logText _ _
    rcases exists_areRows (rowWidth log) log.tail with
      ⟨samples, hrows⟩ | ⟨good, samples, bad, rest, fault, htail, hgood, hbad⟩
    · exact Or.inl ⟨samples, content, log, hlookup, hlog, hrows⟩
    · exact Or.inr ⟨_, .badRow hlookup hlog htail hgood hbad⟩

theorem openLog_eq_ok_iff {samples : List Sample} :
    openLog t path = .ok samples ↔ GoodLog t path samples := by
  refine ⟨fun h => ?_, openLog_of_goodLog⟩
  cases hcontains : t.contains path with
  | false =>
    rw [openLog, hcontains] at h
    cases h
  | true =>
    rcases exists_goodLog_or_logFault hcontains with ⟨found, hfound⟩ | ⟨e, he⟩
    · rw [openLog_of_goodLog hfound] at h
      rwa [← Except.ok.inj h]
    · rw [openLog_of_logFault he] at h
      cases h

/-- Opening a log fails if there is none, and otherwise with what is wrong with it. -/
theorem openLog_eq_error_iff {e : OpenError} :
    openLog t path = .error e
      ↔ t.contains path = false ∧ e = .notFound path ∨ LogFault t path e := by
  cases hcontains : t.contains path with
  | false =>
    have hnone : ¬LogFault t path e := by
      intro h
      have hlookup : ∃ node, t.lookup path = .ok node := by
        cases h with
        | socket h => exact ⟨_, h⟩
        | directory h => exact ⟨_, h⟩
        | badRow h => exact ⟨_, h⟩
      rw [contains_eq_true_iff.mpr hlookup] at hcontains
      cases hcontains
    rw [openLog, hcontains]
    simp [hnone, eq_comm]
  | true =>
    simp only [Bool.true_eq_false, false_and, false_or]
    refine ⟨fun h => ?_, openLog_of_logFault⟩
    rcases exists_goodLog_or_logFault hcontains with ⟨samples, hsamples⟩ | ⟨found, hfound⟩
    · rw [openLog_of_goodLog hsamples] at h
      cases h
    · rw [openLog_of_logFault hfound] at h
      rwa [← Except.error.inj h]

/-- There is something wrong with a log if it cannot be opened or not be read, or if any of
its rows is bad. -/
theorem exists_logFault_iff : (∃ e, LogFault t path e) ↔ BadLog t path := by
  constructor
  · intro h
    obtain ⟨e, h⟩ := h
    cases h with
    | socket hlookup => exact Or.inl hlookup
    | directory hlookup => exact Or.inr (Or.inl hlookup)
    | @badRow content log good rest samples bad fault hlookup hlog htail _ hbad =>
      refine Or.inr (Or.inr ⟨content, log, hlookup, hlog, bad, ?_, fun sample hrow => ?_⟩)
      · rw [htail]
        exact List.mem_append_right good List.mem_cons_self
      · have hread := readRow_eq_ok_iff.mpr hrow
        rw [readRow_eq_error_iff.mpr hbad] at hread
        cases hread
  · intro h
    rcases h with hlookup | hlookup | ⟨content, log, hlookup, hlog, row, hmem, hnone⟩
    · exact ⟨_, .socket hlookup⟩
    · exact ⟨_, .directory hlookup⟩
    · rcases exists_areRows (rowWidth log) log.tail with
        ⟨samples, hrows⟩ | ⟨good, samples, bad, rest, fault, htail, hgood, hbad⟩
      · obtain ⟨i, hi, rfl⟩ := List.getElem_of_mem hmem
        exact absurd (hrows.get hi (hrows.length_eq ▸ hi)) (hnone _)
      · exact ⟨_, .badRow hlookup hlog htail hgood hbad⟩

end

end BenchCharts.ResourceLog
