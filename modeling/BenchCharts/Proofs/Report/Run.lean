import BenchCharts.Proofs.Report.Frame
import BenchCharts.Proofs.Text.Utf8
import BenchCharts.Report.Run

/-!
# The course of a run

A run goes through its attempts and writes a line for each.  Two things can stop it:
an attempt that never ends, and a line that the sink refuses.

`runFrom_of_capacity` follows a run through its attempts with `room`, the number of
bytes that the sink still takes.  It compares the run with the text that a sink
without a limit takes (`reportText`), of which the sink has the first bytes, and with
the attempts that are reached (`reached`), whose reports and files are the last ones
that the run leaves behind.  Nothing is assumed about the files; a chart that is made
from the image of another one is attempted on what that one left behind.

A sink without a limit is one that takes the length of the text (`runFrom_of_room`), so
`run_of_unlimited` needs no induction of its own.
-/

namespace BenchCharts

namespace Sink

variable {w : List UInt8} {capacity : Nat} {full : SystemError} {flushError : Option SystemError}

/-- A text that fits is taken as a whole. -/
theorem write_of_le {text : String}
    (h : (Text.Utf8.encode text.toList).length ≤ capacity - w.length) :
    write ⟨w, some capacity, full, flushError⟩ text
      = (.ok (), ⟨w ++ Text.Utf8.encode text.toList, some capacity, full, flushError⟩) := by
  unfold write writeBytes
  simp only [if_pos h, List.take_of_length_le h]

/-- Of a text that does not fit the first bytes are taken, as many as there is room for. -/
theorem write_of_lt {text : String}
    (h : capacity - w.length < (Text.Utf8.encode text.toList).length) :
    write ⟨w, some capacity, full, flushError⟩ text
      = (.error full, ⟨w ++ (Text.Utf8.encode text.toList).take (capacity - w.length),
          some capacity, full, flushError⟩) := by
  unfold write writeBytes
  simp only [if_neg (Nat.not_le.mpr h)]

end Sink

/-- The bytes of the line that tells the outcome of a chart. -/
def Outcome.line (o : Outcome) (kind : ChartKind) : List UInt8 :=
  Text.Utf8.encode (o.status kind).toList

/-- The bytes of the banner. -/
def Summary.bannerBytes (x : Summary) (dir : String) : List UInt8 :=
  Text.Utf8.encode (x.banner dir).toList

namespace Settings

/-! ## The text of a run -/

/-- The outcomes of a run that is behind the outcomes `done`, if all its attempts end. -/
def outcomesOf (done : List (ChartKind × Outcome)) :
    List Attempted → Option (List (ChartKind × Outcome))
  | [] => some done
  | a :: rest => a.outcome.bind fun o => outcomesOf (done ++ [(a.kind, o)]) rest

/-- The bytes that a run writes about the attempts that are left, behind the outcomes
`done`.  It writes nothing behind an attempt that never ends. -/
def reportText (s : Settings) (done : List (ChartKind × Outcome)) : List Attempted → List UInt8
  | [] => (Summary.mk done).bannerBytes s.outputDir
  | a :: rest =>
      match a.outcome with
      | none => []
      | some o => o.line a.kind ++ s.reportText (done ++ [(a.kind, o)]) rest

/-- The attempts that a run comes to when its sink takes `room` more bytes.  The one
whose line does not fit is the last, and so is one that never ends. -/
def reached (room : Nat) : List Attempted → List Attempted
  | [] => []
  | a :: rest =>
      a :: match a.outcome with
        | none => []
        | some o =>
            let size := (o.line a.kind).length
            if size ≤ room then reached (room - size) rest else []

section

variable {a : Attempted} {o : Outcome} {done : List (ChartKind × Outcome)}
  (rest : List Attempted)

theorem outcomesOf_cons_of_none (ha : a.outcome = none) : outcomesOf done (a :: rest) = none := by
  rw [outcomesOf, ha, Option.bind_none]

theorem outcomesOf_cons_of_some (ha : a.outcome = some o) :
    outcomesOf done (a :: rest) = outcomesOf (done ++ [(a.kind, o)]) rest := by
  rw [outcomesOf, ha, Option.bind_some]

theorem reportText_cons_of_none (s : Settings) (ha : a.outcome = none) :
    s.reportText done (a :: rest) = [] := by
  rw [reportText, ha]

theorem reportText_cons_of_some (s : Settings) (ha : a.outcome = some o) :
    s.reportText done (a :: rest)
      = o.line a.kind ++ s.reportText (done ++ [(a.kind, o)]) rest := by
  rw [reportText, ha]

variable {room : Nat}

theorem reached_cons_of_none (ha : a.outcome = none) : reached room (a :: rest) = [a] := by
  rw [reached, ha]

theorem reached_cons_of_lt (ha : a.outcome = some o) (h : room < (o.line a.kind).length) :
    reached room (a :: rest) = [a] := by
  rw [reached, ha]
  simp only [if_neg (Nat.not_le.mpr h)]

theorem reached_cons_of_le (ha : a.outcome = some o) (h : (o.line a.kind).length ≤ room) :
    reached room (a :: rest) = a :: reached (room - (o.line a.kind).length) rest := by
  rw [reached, ha]
  simp only [if_pos h]

end

theorem reached_isPrefix (room : Nat) (rest : List Attempted) : reached room rest <+: rest := by
  induction rest generalizing room with
  | nil => exact List.prefix_refl []
  | cons a rest ih =>
    cases ha : a.outcome with
    | none =>
      rw [reached_cons_of_none rest ha]
      exact List.prefix_append [a] rest
    | some o =>
      rcases Nat.lt_or_ge room (o.line a.kind).length with hlt | hle
      · rw [reached_cons_of_lt rest ha hlt]
        exact List.prefix_append [a] rest
      · rw [reached_cons_of_le rest ha hle, List.cons_prefix_cons]
        exact ⟨rfl, ih _⟩

/-- How a run ends, if it does, that has `size` bytes to write into a sink that takes `room`
of them. -/
def ending (size room : Nat) (full : SystemError) (flushError : Option SystemError)
    (outcomes : Option (List (ChartKind × Outcome))) : Option (Except SystemError Summary) :=
  if size ≤ room then outcomes.map fun x => flushError.elim (.ok ⟨x⟩) .error
  else some (.error full)

section

variable {size room : Nat} {full : SystemError} {flushError : Option SystemError}
  {outcomes : Option (List (ChartKind × Outcome))}

theorem ending_of_lt (h : room < size) :
    ending size room full flushError outcomes = some (.error full) :=
  if_neg (Nat.not_le.mpr h)

theorem ending_of_le (h : size ≤ room) : ending size room full flushError outcomes
    = outcomes.map fun x => flushError.elim (.ok ⟨x⟩) .error :=
  if_pos h

theorem ending_eq_ok_iff {x : Summary} :
    ending size room full flushError outcomes = some (.ok x)
      ↔ size ≤ room ∧ flushError = none ∧ outcomes = some x.outcomes := by
  rcases Nat.lt_or_ge room size with hlt | hle
  · simp [ending_of_lt hlt, Nat.not_le.mpr hlt]
  · obtain ⟨x⟩ := x
    cases outcomes <;> cases flushError <;> simp [ending_of_le hle, hle]

theorem ending_eq_error_iff {e : SystemError} :
    ending size room full flushError outcomes = some (.error e)
      ↔ room < size ∧ e = full ∨ size ≤ room ∧ flushError = some e ∧ outcomes ≠ none := by
  rcases Nat.lt_or_ge room size with hlt | hle
  · simp [ending_of_lt hlt, hlt, Nat.not_le.mpr hlt, eq_comm]
  · cases outcomes <;> cases flushError <;> simp [ending_of_le hle, hle, Nat.not_lt.mpr hle]

theorem ending_eq_none_iff :
    ending size room full flushError outcomes = none ↔ size ≤ room ∧ outcomes = none := by
  rcases Nat.lt_or_ge room size with hlt | hle
  · simp [ending_of_lt hlt, Nat.not_le.mpr hlt]
  · simp [ending_of_le hle, hle]

end

/-- The outcomes of a run are those that it was behind and those of its attempts. -/
theorem exists_of_outcomesOf {rest : List Attempted} {done all : List (ChartKind × Outcome)}
    (h : outcomesOf done rest = some all) : ∃ outcomes, all = done ++ outcomes ∧
      rest.map (fun a => (a.kind, a.outcome)) = outcomes.map fun o => (o.1, some o.2) := by
  induction rest generalizing done with
  | nil => exact ⟨[], by rw [List.append_nil]; exact (Option.some.inj h).symm, rfl⟩
  | cons a rest ih =>
    obtain ⟨o, ho, hrest⟩ := Option.bind_eq_some_iff.mp h
    obtain ⟨outcomes, rfl, hmap⟩ := ih hrest
    refine ⟨(a.kind, o) :: outcomes, by rw [List.append_assoc, List.singleton_append], ?_⟩
    rw [List.map_cons, List.map_cons, hmap, ho]

/-- Attempts that all end have outcomes. -/
theorem outcomesOf_of_outcomes {rest : List Attempted} {outcomes : List (ChartKind × Outcome)}
    (h : rest.map (fun a => (a.kind, a.outcome)) = outcomes.map fun o => (o.1, some o.2))
    (done : List (ChartKind × Outcome)) : outcomesOf done rest = some (done ++ outcomes) := by
  induction rest generalizing outcomes done with
  | nil =>
    obtain rfl := List.map_eq_nil_iff.mp h.symm
    rw [List.append_nil]
    rfl
  | cons a rest ih =>
    obtain ⟨⟨kind, o⟩, outcomes, rfl, hfirst, hrest⟩ := List.map_eq_cons_iff.mp h.symm
    obtain ⟨rfl, houtcome⟩ := Prod.mk.inj hfirst
    rw [outcomesOf_cons_of_some rest houtcome.symm, ih hrest.symm, List.append_assoc,
      List.singleton_append]

/-- The text about attempts that all end. -/
theorem reportText_of_outcomes (s : Settings) {rest : List Attempted}
    {outcomes : List (ChartKind × Outcome)}
    (h : rest.map (fun a => (a.kind, a.outcome)) = outcomes.map fun o => (o.1, some o.2))
    (done : List (ChartKind × Outcome)) :
    s.reportText done rest = outcomes.flatMap (fun o => o.2.line o.1)
      ++ (Summary.mk (done ++ outcomes)).bannerBytes s.outputDir := by
  induction rest generalizing outcomes done with
  | nil =>
    obtain rfl := List.map_eq_nil_iff.mp h.symm
    rw [List.append_nil, List.flatMap_nil, List.nil_append, reportText]
  | cons a rest ih =>
    obtain ⟨⟨kind, o⟩, outcomes, rfl, hfirst, hrest⟩ := List.map_eq_cons_iff.mp h.symm
    obtain ⟨rfl, houtcome⟩ := Prod.mk.inj hfirst
    rw [s.reportText_cons_of_some rest houtcome.symm, ih hrest.symm, List.flatMap_cons,
      List.append_assoc, List.append_assoc, List.singleton_append]

/-! ## Steps of a run -/

section

variable (s : Settings) {t : FileTree} {sink behind : Sink} {journal : Journal}
  {done : List (ChartKind × Outcome)} {rest : List Attempted} {a : Attempted} {o : Outcome}

/-- A run stays in an attempt that never ends. -/
theorem runFrom_cons_of_none (ha : a.outcome = none) :
    s.runFrom t sink journal done (a :: rest)
      = { result := none, sink, files := a.files, journal := journal ++ a.journal } := by
  rw [runFrom, ha]

/-- A line that is written takes a run to its next attempt. -/
theorem runFrom_cons_of_ok (ha : a.outcome = some o)
    (h : sink.write (o.status a.kind) = (.ok (), behind)) :
    s.runFrom t sink journal done (a :: rest)
      = s.runFrom a.files behind (journal ++ a.journal) (done ++ [(a.kind, o)]) rest := by
  rw [runFrom, ha]
  simp only [h]

/-- A line that is refused ends a run. -/
theorem runFrom_cons_of_error (ha : a.outcome = some o) {e : SystemError}
    (h : sink.write (o.status a.kind) = (.error e, behind)) :
    s.runFrom t sink journal done (a :: rest)
      = { result := some (.error e)
          sink := behind
          files := a.files
          journal := journal ++ a.journal } := by
  rw [runFrom, ha]
  simp only [h]

end

/-- The banner is written as far as it fits. -/
theorem finish_of_capacity (s : Settings) (t : FileTree) {w : List UInt8} {capacity : Nat}
    {full : SystemError} {flushError : Option SystemError} (journal : Journal)
    (done : List (ChartKind × Outcome)) :
    let r := s.finish ⟨done⟩ t ⟨w, some capacity, full, flushError⟩ journal
    let room := capacity - w.length
    r.sink.written = w ++ (s.reportText done []).take room ∧
      r.result = ending (s.reportText done []).length room full flushError (some done) := by
  intro r room
  have hr : r = s.finish ⟨done⟩ t ⟨w, some capacity, full, flushError⟩ journal := rfl
  unfold finish at hr
  rw [hr, reportText, Summary.bannerBytes]
  rcases Nat.lt_or_ge room
    (Text.Utf8.encode ((Summary.mk done).banner s.outputDir).toList).length with hlt | hle
  · rw [Sink.write_of_lt hlt, ending_of_lt hlt]
    exact ⟨rfl, rfl⟩
  · rw [Sink.write_of_le hle, ending_of_le hle, List.take_of_length_le hle]
    refine ⟨rfl, ?_⟩
    cases flushError <;> rfl

/-! ## Whole runs -/

/-- A run into a sink that takes `room` more bytes writes that much of its text.  It
ends well if all attempts end, all of the text fits and is flushed, and it leaves behind
what the attempts left behind that it came to. -/
theorem runFrom_of_capacity (s : Settings) (full : SystemError)
    (flushError : Option SystemError) (capacity : Nat) (rest : List Attempted) :
    ∀ (t : FileTree) (w : List UInt8) (journal : Journal) (done : List (ChartKind × Outcome)),
      let r := s.runFrom t ⟨w, some capacity, full, flushError⟩ journal done rest
      let room := capacity - w.length
      r.sink.written = w ++ (s.reportText done rest).take room ∧
        r.result = ending (s.reportText done rest).length room full flushError
          (outcomesOf done rest) ∧
        r.journal = journal ++ (reached room rest).flatMap Attempted.journal ∧
        r.files = ((reached room rest).getLast?.map (·.files)).getD t := by
  induction rest with
  | nil =>
    intro t w journal done
    obtain ⟨hwritten, hresult⟩ := s.finish_of_capacity t journal done
    refine ⟨hwritten, hresult, ?_, rfl⟩
    rw [reached, List.flatMap_nil, List.append_nil]
    rfl
  | cons a rest ih =>
    intro t w journal done r room
    have hr : r = s.runFrom t ⟨w, some capacity, full, flushError⟩ journal done (a :: rest) := rfl
    cases ha : a.outcome with
    | none =>
      rw [hr, s.runFrom_cons_of_none ha, s.reportText_cons_of_none rest ha,
        outcomesOf_cons_of_none rest ha, reached_cons_of_none rest ha, List.flatMap_singleton,
        List.take_nil, List.append_nil, List.length_nil, ending_of_le (Nat.zero_le room)]
      exact ⟨rfl, rfl, rfl, rfl⟩
    | some o =>
      have htext : s.reportText done (a :: rest) = _ := s.reportText_cons_of_some rest ha
      rcases Nat.lt_or_ge room (o.line a.kind).length with hlt | hle
      · have hlong : room < (s.reportText done (a :: rest)).length := by
          rw [htext, List.length_append]
          omega
        rw [hr, s.runFrom_cons_of_error ha (Sink.write_of_lt hlt), ending_of_lt hlong, htext,
          List.take_append_of_le_length (Nat.le_of_lt hlt), reached_cons_of_lt rest ha hlt,
          List.flatMap_singleton]
        exact ⟨rfl, rfl, rfl, rfl⟩
      · obtain ⟨hwritten, hresult, hjournal, hfiles⟩ := ih a.files
          (w ++ o.line a.kind) (journal ++ a.journal) (done ++ [(a.kind, o)])
        have hroom : capacity - (w ++ o.line a.kind).length = room - (o.line a.kind).length := by
          rw [List.length_append]
          omega
        have hending : ending (s.reportText done (a :: rest)).length room
            = ending (s.reportText (done ++ [(a.kind, o)]) rest).length
                (room - (o.line a.kind).length) := by
          unfold ending
          have hfits : (s.reportText done (a :: rest)).length ≤ room
              ↔ (s.reportText (done ++ [(a.kind, o)]) rest).length
                  ≤ room - (o.line a.kind).length := by
            rw [htext, List.length_append]
            omega
          simp only [hfits]
        rw [hroom] at hwritten hresult hjournal hfiles
        rw [hr, s.runFrom_cons_of_ok ha (Sink.write_of_le hle), reached_cons_of_le rest ha hle]
        refine ⟨?_, ?_, ?_, ?_⟩
        · exact hwritten.trans (by
            rw [htext, List.take_append, List.take_of_length_le hle, List.append_assoc])
        · rw [hending, outcomesOf_cons_of_some rest ha]
          exact hresult
        · rw [List.flatMap_cons, ← List.append_assoc]
          exact hjournal
        · refine hfiles.trans ?_
          rw [List.getLast?_cons]
          cases (reached (room - (o.line a.kind).length) rest).getLast? <;> rfl

/-- A limit that the rest of the text keeps to makes no difference. -/
theorem runFrom_of_room (s : Settings) (full : SystemError) (flushError : Option SystemError)
    (capacity : Nat) (rest : List Attempted) :
    ∀ {t : FileTree} {w : List UInt8} {journal : Journal} {done : List (ChartKind × Outcome)},
      (s.reportText done rest).length ≤ capacity - w.length →
      let r := s.runFrom t ⟨w, none, full, flushError⟩ journal done rest
      s.runFrom t ⟨w, some capacity, full, flushError⟩ journal done rest
        = { r with sink := { r.sink with capacity := some capacity } } := by
  induction rest with
  | nil =>
    intro t w journal done hroom r
    show s.finish ⟨done⟩ t ⟨w, some capacity, full, flushError⟩ journal = _
    rw [finish, Sink.write_of_le hroom]
    cases flushError <;> rfl
  | cons a rest ih =>
    intro t w journal done hroom
    cases ha : a.outcome with
    | none => rw [s.runFrom_cons_of_none ha, s.runFrom_cons_of_none ha]
    | some o =>
      rw [s.reportText_cons_of_some rest ha, List.length_append] at hroom
      have hline : (o.line a.kind).length ≤ capacity - w.length := by omega
      rw [s.runFrom_cons_of_ok ha (Sink.write_of_le hline)]
      have hfree : Sink.write ⟨w, none, full, flushError⟩ (o.status a.kind)
          = (.ok (), ⟨w ++ o.line a.kind, none, full, flushError⟩) := rfl
      rw [s.runFrom_cons_of_ok ha hfree]
      apply ih
      show _ ≤ capacity - (w ++ o.line a.kind).length
      rw [List.length_append]
      omega

/-! ## The attempts of a run -/

/-- Drawing ends for all of some charts, each on the files behind the one before it. -/
def DrawingsEnd (s : Settings) : FileTree → List ChartKind → Prop
  | _, [] => True
  | t, kind :: rest => s.DrawingEnds t kind ∧ s.DrawingsEnd (s.renderChart t kind).files rest

section

variable {s : Settings} {t : FileTree}

theorem outcome_eq_none_iff {kind : ChartKind} :
    (s.renderChart t kind).outcome = none ↔ ¬s.DrawingEnds t kind := by
  rw [← isSome_outcome_iff, Bool.not_eq_true, Option.isSome_eq_false_iff, Option.isNone_iff_eq_none]

theorem exists_outcome_iff {kind : ChartKind} :
    (∃ o, (s.renderChart t kind).outcome = some o) ↔ s.DrawingEnds t kind := by
  rw [← isSome_outcome_iff, Option.isSome_iff_exists]

/-- Behind an attempt that has an outcome there is the next one. -/
theorem attempts_cons_of_some {kind : ChartKind} {o : Outcome}
    (h : (s.renderChart t kind).outcome = some o) (rest : List ChartKind) :
    s.attempts t (kind :: rest)
      = s.renderChart t kind :: s.attempts (s.renderChart t kind).files rest := by
  rw [attempts, h]
  rfl

theorem attempts_cons_of_none {kind : ChartKind} (h : (s.renderChart t kind).outcome = none)
    (rest : List ChartKind) : s.attempts t (kind :: rest) = [s.renderChart t kind] := by
  rw [attempts, h]
  rfl

/-- The attempts at some charts have outcomes if drawing ends for all of them. -/
theorem outcomesOf_attempts_ne_none_iff {kinds : List ChartKind}
    {done : List (ChartKind × Outcome)} :
    outcomesOf done (s.attempts t kinds) ≠ none ↔ s.DrawingsEnd t kinds := by
  induction kinds generalizing t done with
  | nil => simp [attempts, outcomesOf, DrawingsEnd]
  | cons kind rest ih =>
    cases ha : (s.renderChart t kind).outcome with
    | none =>
      have hends := outcome_eq_none_iff.mp ha
      rw [attempts_cons_of_none ha, outcomesOf_cons_of_none [] ha, DrawingsEnd]
      simp only [ne_eq, not_true, hends, false_and]
    | some o =>
      have hends := exists_outcome_iff.mp ⟨o, ha⟩
      rw [attempts_cons_of_some ha, outcomesOf_cons_of_some _ ha, ih, DrawingsEnd,
        and_iff_right hends]

theorem outcomesOf_attempts_eq_none_iff {kinds : List ChartKind}
    {done : List (ChartKind × Outcome)} :
    outcomesOf done (s.attempts t kinds) = none ↔ ¬s.DrawingsEnd t kinds := by
  have hends : outcomesOf done (s.attempts t kinds) ≠ none ↔ s.DrawingsEnd t kinds :=
    outcomesOf_attempts_ne_none_iff
  rw [← hends, Decidable.not_not]

/-- Where drawing ends there is an attempt at every chart. -/
theorem map_kind_attempts {kinds : List ChartKind} (h : s.DrawingsEnd t kinds) :
    (s.attempts t kinds).map (·.kind) = kinds := by
  induction kinds generalizing t with
  | nil => rfl
  | cons kind rest ih =>
    obtain ⟨o, ho⟩ := exists_outcome_iff.mpr h.1
    rw [attempts_cons_of_some ho, List.map_cons, ih h.2]
    rfl

theorem exists_outcomes {kinds : List ChartKind} (h : s.DrawingsEnd t kinds) :
    ∃ outcomes, outcomesOf [] (s.attempts t kinds) = some outcomes ∧
      (s.attempts t kinds).map (fun a => (a.kind, a.outcome))
        = outcomes.map fun o => (o.1, some o.2) := by
  have hne : outcomesOf [] (s.attempts t kinds) ≠ none := outcomesOf_attempts_ne_none_iff.mpr h
  obtain ⟨all, hall⟩ := Option.ne_none_iff_exists'.mp hne
  obtain ⟨_, rfl, hmap⟩ := exists_of_outcomesOf hall
  exact ⟨_, hall, hmap⟩

/-- A whole run whose attempts all end has an outcome for each of the three charts. -/
theorem exists_three_outcomes (h : s.DrawingsEnd t ChartKind.all) :
    ∃ first second third,
      let outcomes := [(.latency, first), (.stability, second), (.resources, third)]
      outcomesOf [] (s.attempts t ChartKind.all) = some outcomes ∧
        (s.attempts t ChartKind.all).map (fun a => (a.kind, a.outcome))
          = outcomes.map fun o => (o.1, some o.2) := by
  obtain ⟨outcomes, hall, hmap⟩ := exists_outcomes h
  have hkinds : outcomes.map (·.1) = [.latency, .stability, .resources] := by
    have hkinds := map_kind_attempts h
    have hfirst := congrArg (List.map Prod.fst) hmap
    rw [List.map_map, List.map_map] at hfirst
    exact hfirst.symm.trans hkinds
  obtain ⟨⟨_, first⟩, _, rfl, rfl, hbehind⟩ := List.map_eq_cons_iff.mp hkinds
  obtain ⟨⟨_, second⟩, _, rfl, rfl, hlast⟩ := List.map_eq_cons_iff.mp hbehind
  obtain ⟨⟨_, third⟩, _, rfl, rfl, hnil⟩ := List.map_eq_cons_iff.mp hlast
  obtain rfl := List.map_eq_nil_iff.mp hnil
  exact ⟨first, second, third, hall, hmap⟩

/-- The text of a run that stays in its last chart. -/
theorem reportText_of_last_none {first second : Outcome}
    (hfirst : (s.renderChart t .latency).outcome = some first)
    (hsecond : (s.renderChart (s.renderChart t .latency).files .stability).outcome = some second)
    (hthird : (s.renderChart (s.renderChart (s.renderChart t .latency).files .stability).files
      .resources).outcome = none) :
    s.reportText [] (s.attempts t ChartKind.all)
      = first.line .latency ++ second.line .stability := by
  rw [ChartKind.all, attempts_cons_of_some hfirst, attempts_cons_of_some hsecond,
    attempts_cons_of_none hthird, s.reportText_cons_of_some _ hfirst,
    s.reportText_cons_of_some _ hsecond, s.reportText_cons_of_none _ hthird, List.append_nil]
  rfl

/-- Every attempt is reached if the text fits. -/
theorem reached_of_le {kinds : List ChartKind} {room : Nat} {done : List (ChartKind × Outcome)}
    (h : (s.reportText done (s.attempts t kinds)).length ≤ room) :
    reached room (s.attempts t kinds) = s.attempts t kinds := by
  induction kinds generalizing t room done with
  | nil => rfl
  | cons kind rest ih =>
    cases ha : (s.renderChart t kind).outcome with
    | none => rw [attempts_cons_of_none ha, reached_cons_of_none [] ha]
    | some o =>
      rw [attempts_cons_of_some ha, s.reportText_cons_of_some _ ha, List.length_append] at h
      rw [attempts_cons_of_some ha, reached_cons_of_le _ ha (by omega)]
      exact congrArg _ (ih (Nat.le_sub_of_add_le' h))

end

/-- A run into a sink without a limit writes all of its text.  It ends if drawing does. -/
theorem run_of_unlimited (s : Settings) (t : FileTree) (w : List UInt8) (full : SystemError)
    (flushError : Option SystemError) :
    let r := s.run t ⟨w, none, full, flushError⟩
    let attempts := s.attempts t ChartKind.all
    r.result = (outcomesOf [] attempts).map (fun x => flushError.elim (.ok ⟨x⟩) .error) ∧
      r.sink.written = w ++ s.reportText [] attempts ∧
      r.journal = s.warnings ++ attempts.flatMap Attempted.journal ∧
      r.files = (attempts.getLast?.map (·.files)).getD t := by
  intro r attempts
  -- the run does what it does with a limit that its text keeps to
  let text := s.reportText [] attempts
  have hroom : text.length ≤ (w.length + text.length) - w.length := by omega
  have hrun : s.runFrom t ⟨w, some (w.length + text.length), full, flushError⟩ s.warnings []
      attempts = _ := s.runFrom_of_room full flushError _ attempts hroom
  obtain ⟨hwritten, hresult, hjournal, hfiles⟩ := s.runFrom_of_capacity full flushError
    (w.length + text.length) attempts t w s.warnings []
  rw [hrun] at hwritten hresult hjournal hfiles
  rw [ending_of_le hroom] at hresult
  rw [List.take_of_length_le hroom] at hwritten
  rw [reached_of_le hroom] at hjournal hfiles
  exact ⟨hresult, hwritten, hjournal, hfiles⟩

/-- A run into a sink without a limit never ends if drawing a chart does not. -/
theorem run_result_eq_none_iff (s : Settings) (t : FileTree) (w : List UInt8)
    (full : SystemError) (flushError : Option SystemError) :
    (s.run t ⟨w, none, full, flushError⟩).result = none ↔ ¬s.DrawingsEnd t ChartKind.all := by
  rw [(s.run_of_unlimited t w full flushError).1, Option.map_eq_none_iff,
    outcomesOf_attempts_eq_none_iff]

end Settings

end BenchCharts
