import BenchCharts.Program
import BenchCharts.Proofs.Report.Interruption

/-!
# Exit status and log setting of the program

The program is a report with the standard settings, and two facts about it say all that
its exit status and its log setting can do.

* `run_eq` splits a run of the program into the report, which the setting does not reach,
  and the lines on the error stream, where the setting chooses among the events.
* `Settings.run_of_limit` tells how the report ends, if it does, by the length of its text.  A
  sink without a limit is one whose limit is that length, so that there is one case and not two.

The outcomes of the charts are in the text and nowhere else: the exit status is decided by
the length of the text, the limit and the flushing, and there is none if the resource chart is
drawn for ever.
-/

namespace BenchCharts

open FileTree

/-! ## A report into a sink with or without a limit -/

theorem Outcome.line_ne_nil (o : Outcome) (kind : ChartKind) : o.line kind ≠ [] := by
  rw [Outcome.line]
  apply Text.Utf8.encode_ne_nil
  cases o <;> simp [Outcome.status, toString]

namespace Settings

section

variable {size room : Nat} {full : SystemError} {flushError : Option SystemError}
  {outcomes : Option (List (ChartKind × Outcome))}

theorem exists_ending_eq_ok_iff : (∃ x, ending size room full flushError outcomes = some (.ok x))
    ↔ outcomes ≠ none ∧ ¬room < size ∧ flushError = none := by
  simp only [ending_eq_ok_iff, Option.ne_none_iff_exists']
  constructor
  · exact fun ⟨x, hle, hflush, hall⟩ => ⟨⟨_, hall⟩, Nat.not_lt.mpr hle, hflush⟩
  · exact fun ⟨⟨x, hall⟩, hle, hflush⟩ => ⟨⟨x⟩, Nat.not_lt.mp hle, hflush, hall⟩

theorem exists_ending_eq_error_iff :
    (∃ e, ending size room full flushError outcomes = some (.error e))
      ↔ room < size ∨ outcomes ≠ none ∧ flushError ≠ none := by
  simp only [ending_eq_error_iff]
  rcases Nat.lt_or_ge room size with hlt | hle
  · simp [hlt]
  · cases flushError <;> simp [hle, Nat.not_lt.mpr hle]

end

/-- How a report ends depends on the length of its text: without a limit it ends as it
does with this length as the limit. -/
theorem run_of_limit (s : Settings) (t : FileTree) (sink : Sink) (hsink : sink.written = []) :
    let whole := s.run t {}
    let text := whole.sink.written
    let room := sink.capacity.getD text.length
    let r := s.run t sink
    r.sink.written = text.take room ∧
      r.result = ending text.length room sink.full sink.flushError
        (outcomesOf [] (s.attempts t ChartKind.all)) ∧
      (text.length ≤ room → r.files = whole.files) := by
  intro whole text room r
  obtain ⟨w, capacity, full, flushError⟩ := sink
  obtain rfl : w = [] := hsink
  obtain ⟨-, htext, -, hwhole⟩ := s.run_of_unlimited t [] .noSpace none
  rw [List.nil_append] at htext
  have htext : text = s.reportText [] (s.attempts t ChartKind.all) := htext
  cases capacity with
  | none =>
    obtain ⟨hresult, hwritten, -, hfiles⟩ := s.run_of_unlimited t [] full flushError
    have hroom : room = text.length := rfl
    rw [hroom, List.take_of_length_le (Nat.le_refl _), ending_of_le (Nat.le_refl _)]
    exact ⟨hwritten.trans htext.symm, hresult, fun _ => hfiles.trans hwhole.symm⟩
  | some bound =>
    have hroom : room = bound := rfl
    obtain ⟨hwritten, hresult, -, hfiles⟩ := s.runFrom_of_capacity full flushError bound
      (s.attempts t ChartKind.all) t [] s.warnings []
    rw [List.length_nil, Nat.sub_zero, List.nil_append] at hwritten
    rw [List.length_nil, Nat.sub_zero] at hresult hfiles
    rw [hroom, htext]
    refine ⟨hwritten, hresult, fun hle => ?_⟩
    rw [reached_of_le hle] at hfiles
    exact hfiles.trans hwhole.symm

/-- A report whose first line is refused comes to the latency chart and to no other. -/
theorem run_refused {s : Settings} {t : FileTree} {first : Outcome}
    (hfirst : (s.renderChart t .latency).outcome = some first) (full : SystemError)
    (flushError : Option SystemError) :
    s.run t { capacity := some 0, full, flushError } =
      { result := some (.error full)
        sink := { capacity := some 0, full, flushError }
        files := (s.renderChart t .latency).files
        journal := s.warnings ++ (s.renderChart t .latency).journal } := by
  have hline : 0 < (first.line .latency).length :=
    List.length_pos_iff.mpr (first.line_ne_nil .latency)
  have hrefused : Sink.write { capacity := some 0, full, flushError } (first.status .latency)
      = (.error full, { capacity := some 0, full, flushError }) := Sink.write_of_lt hline
  rw [run, ChartKind.all, attempts_cons_of_some hfirst]
  exact s.runFrom_cons_of_error hfirst hrefused

end Settings

theorem LogFilter.lines_append (f : LogFilter) (xs ys : Journal) :
    f.lines (xs ++ ys) = f.lines xs ++ f.lines ys := by
  rw [LogFilter.lines, List.filter_append, List.map_append]
  rfl

/-! ## The standard report -/

namespace Settings

/-- The outcomes of the charts over the standard scenarios. -/
theorem exists_standard_outcomes (t : FileTree) :
    ∃ first second, (standard.renderChart t .latency).outcome = some first ∧
      (standard.renderChart t .stability).outcome = some second ∧
      (standard.renderChart (standard.renderChart t .latency).files .stability).outcome
        = some second := by
  obtain ⟨first, hfirst⟩ := exists_outcome_iff.mpr (drawingEnds_standard t).1
  obtain ⟨second, hsecond⟩ := exists_outcome_iff.mpr (drawingEnds_standard t).2
  obtain ⟨⟨hsame, -⟩, -⟩ := renderChart_in_run (logApart_standard t)
  exact ⟨first, second, hfirst, hsecond, hsame.trans hsecond⟩

/-- Whether all attempts of the standard report end depends on the resource chart. -/
theorem outcomesOf_standard_eq_none_iff (t : FileTree) :
    outcomesOf [] (standard.attempts t ChartKind.all) = none
      ↔ ¬standard.DrawingEnds t .resources := by
  obtain ⟨hlatency, hstability⟩ := drawingEnds_standard t
  rw [outcomesOf_attempts_eq_none_iff, drawingsEnd_all_iff (logApart_standard t)]
  refine not_congr ⟨fun h => h .resources, fun h kind => ?_⟩
  cases kind <;> assumption

/-- The text of the standard report: one line for the outcome that each chart has on the files
before it, and the banner. -/
theorem written_standard {t : FileTree} (hends : standard.DrawingEnds t .resources) :
    ∃ outcome : ChartKind → Outcome,
      (∀ kind, (standard.renderChart t kind).outcome = some (outcome kind)) ∧
      let outcomes := [ChartKind.latency, .stability, .resources].map fun kind =>
        (kind, outcome kind)
      (standard.run t {}).sink.written = Text.Utf8.encode
        (statusText outcomes ++ (Summary.mk outcomes).banner ".").toList := by
  obtain ⟨hlatency, hstability⟩ := drawingEnds_standard t
  have hall : ∀ kind, standard.DrawingEnds t kind := fun kind => by cases kind <;> assumption
  let outcome (kind : ChartKind) : Outcome :=
    (standard.renderChart t kind).outcome.get (isSome_outcome_iff.mpr (hall kind))
  have houtcome : ∀ kind, (standard.renderChart t kind).outcome = some (outcome kind) :=
    fun kind => (Option.some_get _).symm
  refine ⟨outcome, houtcome, ?_⟩
  intro outcomes
  have hmap : (standard.attempts t ChartKind.all).map (fun a => (a.kind, a.outcome))
      = outcomes.map fun o => (o.1, some o.2) := by
    rw [(attempts_all (logApart_standard t) hall).1, List.map_map]
    exact List.map_congr_left fun kind _ => congrArg _ (houtcome kind)
  obtain ⟨-, hwritten, -⟩ := standard.run_of_unlimited t [] .noSpace none
  rw [List.nil_append, reportText_of_attempts hmap] at hwritten
  exact hwritten

/-- The text of the standard report if the resource chart is drawn for ever: the lines about
the other two. -/
theorem written_standard_of_not_drawingEnds {t : FileTree} {first second : Outcome}
    (hfirst : (standard.renderChart t .latency).outcome = some first)
    (hsecond : (standard.renderChart (standard.renderChart t .latency).files .stability).outcome
      = some second)
    (hends : ¬standard.DrawingEnds t .resources) :
    (standard.run t {}).sink.written = first.line .latency ++ second.line .stability := by
  obtain ⟨-, hsame, -⟩ := renderChart_in_run (logApart_standard t)
  have hthird := hsame.trans (outcome_eq_none_iff.mpr hends)
  obtain ⟨-, hwritten, -⟩ := standard.run_of_unlimited t [] .noSpace none
  rw [List.nil_append, reportText_of_last_none hfirst hsecond hthird] at hwritten
  exact hwritten

end Settings

namespace Program

/-! ## The program around its report -/

/-- The exit status that the result of a report stands for. -/
def exitStatus : Except SystemError Summary → Nat
  | .ok _ => 0
  | .error _ => 1

/-- The events behind a report. -/
def lastEvents : Option (Except SystemError Summary) → Journal
  | some (.ok summary) => [farewell summary]
  | _ => []

/-- The lines about the result of a report that no log setting suppresses. -/
def complaints : Option (Except SystemError Summary) → List String
  | some (.error e) => complaint e
  | _ => []

section

variable {result : Option (Except SystemError Summary)}

theorem exitStatus_eq_zero_iff :
    result.map exitStatus = some 0 ↔ ∃ summary, result = some (.ok summary) := by
  rcases result with _ | e | summary <;> simp [exitStatus]

theorem exitStatus_eq_one_iff :
    result.map exitStatus = some 1 ↔ ∃ e, result = some (.error e) := by
  rcases result with _ | e | summary <;> simp [exitStatus]

end

/-- A run of the program is a report, and the setting chooses what is said about it. -/
theorem run_eq (read : PatternReader) (files : FileTree) (setting : Option String) (sink : Sink) :
    let r := Settings.standard.run files sink
    run read files setting sink =
      { exit := r.result.map exitStatus
        output := r.sink.written
        errors := LogFilter.warnings read (setting.getD "")
          ++ (LogFilter.ofString read (setting.getD "")).lines (r.journal ++ lastEvents r.result)
          ++ complaints r.result
        files := r.files } := by
  intro r
  have hr : r = Settings.standard.run files sink := rfl
  unfold run
  rw [← hr]
  rcases hresult : r.result with _ | e | summary <;>
    simp only [hresult, exitStatus, lastEvents, complaints, Option.map_none, Option.map_some,
      LogFilter.lines_append, List.append_nil, List.append_assoc]

/-- A program whose first status line is refused ends there. -/
theorem run_refused (read : PatternReader) (files : FileTree) (setting : Option String)
    (full : SystemError) (flushError : Option SystemError) :
    let first := Settings.standard.renderChart files .latency
    run read files setting { capacity := some 0, full, flushError } =
      { exit := some 1
        output := []
        errors := LogFilter.warnings read (setting.getD "")
          ++ (LogFilter.ofString read (setting.getD "")).lines first.journal ++ complaint full
        files := first.files } := by
  intro first
  obtain ⟨_, _, hfirst, -, -⟩ := Settings.exists_standard_outcomes files
  have hwarnings : Settings.standard.warnings = [] := rfl
  rw [run_eq, Settings.run_refused hfirst, hwarnings, List.nil_append]
  simp only [exitStatus, lastEvents, complaints, List.append_nil, Option.map_some]
  rfl

/-- The exit status and the log setting of the program.

If the axes of the resource chart have finite spans, the text of the report has one line for
the outcome of each chart, whatever these are, and the program exits.  If not, its text are
the lines about the other two charts, and the program exits only if these cannot be written.

The program writes as much of its text as its sink takes.  Its exit status, if there is one, is
zero if and only if the sink takes all of it and flushing succeeds.  If the sink refuses every
byte, the program has attempted the latency chart and no other: only the image of this chart
can differ from what was on disk before, and its attempt alone is reported.

Two log settings leave the same exit status, the same output and the same files.  Only the
lines on the error stream depend on the setting: it admits events of one and the same
journal, and the lines about a text that could not be written are behind them. -/
theorem run_exit (read : PatternReader) (files : FileTree) (setting : Option String)
    (limit : Option Nat) (full : SystemError) (flushError : Option SystemError) :
    let sink : Sink := { capacity := limit, full, flushError }
    let whole := Settings.standard.run files {}
    let text := whole.sink.written
    let p := run read files setting sink
    let first := Settings.standard.renderChart files .latency
    let ends := Settings.standard.DrawingEnds files .resources
    let refused := ∃ n, limit = some n ∧ n < text.length
    (ends → ∃ outcome : ChartKind → Outcome,
      (∀ kind, (Settings.standard.renderChart files kind).outcome = some (outcome kind)) ∧
      let outcomes := [ChartKind.latency, .stability, .resources].map fun kind =>
        (kind, outcome kind)
      text = Text.Utf8.encode
        (Settings.statusText outcomes ++ (Summary.mk outcomes).banner ".").toList) ∧
    (¬ends → ∃ o o', first.outcome = some o ∧
      (Settings.standard.renderChart files .stability).outcome = some o' ∧
      text = Text.Utf8.encode (o.status .latency ++ o'.status .stability).toList) ∧
    p.output = text.take (limit.getD text.length) ∧
    (p.exit = some 0 ↔ ends ∧ ¬refused ∧ flushError = none) ∧
    (p.exit = some 1 ↔ refused ∨ ends ∧ flushError ≠ none) ∧
    (p.exit = none ↔ ¬ends ∧ ¬refused) ∧
    (p.exit = some 0 → p.output = text ∧ p.files = whole.files) ∧
    run read files setting { sink with capacity := some 0 } =
      { exit := some 1
        output := []
        errors := LogFilter.warnings read (setting.getD "")
          ++ (LogFilter.ofString read (setting.getD "")).lines first.journal ++ complaint full
        files := first.files } ∧
    (∀ l, (∀ f ∈ Settings.standard.written files .latency, f.1 ≠ l) →
      first.files.get? l = files.get? l) ∧
    (∀ other,
      run read files other sink = { p with errors := (run read files other sink).errors }) ∧
    ∃ events trouble, ∀ other, (run read files other sink).errors
      = LogFilter.warnings read (other.getD "")
        ++ (LogFilter.ofString read (other.getD "")).lines events ++ trouble := by
  intro sink whole text p first ends refused
  obtain ⟨hwritten, hresult, hfiles⟩ := Settings.standard.run_of_limit files sink rfl
  have hp : p = _ := run_eq read files setting sink
  have houtput : p.output = text.take (limit.getD text.length) := by
    rw [hp]
    with_reducible exact hwritten
  have hfiles : text.length ≤ limit.getD text.length → p.files = whole.files := by
    rw [hp]
    with_reducible exact hfiles
  have hexit : p.exit = (Settings.standard.run files sink).result.map exitStatus := by
    rw [hp]
  rw [hresult] at hexit
  have hends : Settings.outcomesOf [] (Settings.standard.attempts files ChartKind.all) ≠ none
      ↔ ends := by
    rw [Ne, Settings.outcomesOf_standard_eq_none_iff, Classical.not_not]
  have hrefused : limit.getD text.length < text.length ↔ refused := by
    cases limit <;> simp [refused]
  have hzero : p.exit = some 0 ↔ ends ∧ ¬refused ∧ flushError = none := by
    rw [hexit, exitStatus_eq_zero_iff, Settings.exists_ending_eq_ok_iff, hends, hrefused]
  have hone : p.exit = some 1 ↔ refused ∨ ends ∧ flushError ≠ none := by
    rw [hexit, exitStatus_eq_one_iff, Settings.exists_ending_eq_error_iff, hends, hrefused]
  have hnone : p.exit = none ↔ ¬ends ∧ ¬refused := by
    rw [hexit, Option.map_eq_none_iff, Settings.ending_eq_none_iff, ← Nat.not_lt, hrefused, ← hends,
      Classical.not_not, and_comm]
  refine ⟨fun hends => ?_, fun hstays => ?_, houtput, hzero, hone, hnone, fun hok => ?_, ?_, ?_,
    ?_, ?_⟩
  · obtain ⟨outcome, houtcome, htext⟩ := Settings.written_standard hends
    refine ⟨outcome, houtcome, ?_⟩
    with_reducible exact htext
  · obtain ⟨o, o', ho, ho', hbehind⟩ := Settings.exists_standard_outcomes files
    refine ⟨o, o', ho, ho', ?_⟩
    have htext := Settings.written_standard_of_not_drawingEnds ho hbehind hstays
    rw [Outcome.line, Outcome.line, ← Text.Utf8.encode_toList_append] at htext
    with_reducible exact htext
  · have hle : text.length ≤ limit.getD text.length :=
      Nat.not_lt.mp fun hlt => (hzero.mp hok).2.1 (hrefused.mp hlt)
    exact ⟨houtput.trans (List.take_of_length_le hle), hfiles hle⟩
  · exact run_refused read files setting full flushError
  · intro l hl
    have hfirst : first.files = _ := Settings.standard.files_eq_setFiles files .latency
    rw [hfirst]
    exact get?_setFiles_of_forall_ne _ files fun f hf => hl f (Option.mem_toList.mp hf)
  · intro other
    rw [hp, run_eq read files other sink]
  · exact ⟨_, _, fun other => congrArg Result.errors (run_eq read files other sink)⟩

/-- A program that never exits, whatever its log setting is. -/
theorem exists_run_without_exit :
    ∃ files, ∀ read setting, (run read files setting {}).exit = none := by
  refine ⟨Settings.logOnly Settings.unboundedLoad, fun read setting => ?_⟩
  have hstays := Settings.not_drawingEnds_unboundedLoad
  have hnone := (Settings.outcomesOf_standard_eq_none_iff _).mpr hstays
  rw [run_eq, (Settings.standard.run_of_unlimited _ [] .noSpace none).1, hnone]
  rfl

end Program

end BenchCharts
