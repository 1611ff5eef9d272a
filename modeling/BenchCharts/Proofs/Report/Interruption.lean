import BenchCharts.Proofs.Report.Isolation

/-!
# A run whose status text does not fit

A sink with a capacity takes the first bytes of a text and refuses the rest.  A run
stops at the first text that does not fit: the charts up to that status line have been
attempted, and their images stay.

What is written, and how the run ends, is known from the course of a run.  What is left are
the files: the attempts that a run comes to are the first ones of all attempts
(`reached_attempts_cons`), and each of them puts its own image in and leaves those before it
alone (`files_reached`, `exists_read_of_mem_reached`).
-/

namespace BenchCharts

open FileTree

namespace Settings

/-! ## The attempts that a run comes to -/

/-- The first attempt is reached, and then nothing or what is reached behind it. -/
theorem reached_attempts_cons (s : Settings) (t : FileTree) (room : Nat) (kind : ChartKind)
    (rest : List ChartKind) :
    ∃ more, reached room (s.attempts t (kind :: rest)) = s.renderChart t kind :: more ∧
      (more = [] ∨
        ∃ left, more = reached left (s.attempts (s.renderChart t kind).files rest)) := by
  cases ha : (s.renderChart t kind).outcome with
  | none =>
    rw [attempts_cons_of_none ha, reached_cons_of_none [] ha]
    exact ⟨[], rfl, .inl rfl⟩
  | some o =>
    rw [attempts_cons_of_some ha]
    rcases Nat.lt_or_ge room (o.line (s.renderChart t kind).kind).length with hlt | hle
    · rw [reached_cons_of_lt _ ha hlt]
      exact ⟨[], rfl, .inl rfl⟩
    · rw [reached_cons_of_le _ ha hle]
      exact ⟨_, rfl, .inr ⟨_, rfl⟩⟩

theorem kind_mem_of_mem_reached {s : Settings} {t : FileTree} {room : Nat}
    {kinds : List ChartKind} {a : Attempted} (h : a ∈ reached room (s.attempts t kinds)) :
    a.kind ∈ kinds := by
  induction kinds generalizing t room with
  | nil => cases h
  | cons kind rest ih =>
    obtain ⟨more, hmore, hcases⟩ := s.reached_attempts_cons t room kind rest
    rw [hmore] at h
    rcases List.mem_cons.mp h with rfl | h
    · exact List.mem_cons_self
    · rcases hcases with rfl | ⟨left, rfl⟩
      · cases h
      · exact List.mem_cons_of_mem kind (ih h)

/-! ## The files of these attempts -/

/-- The files that attempts at some charts write, each attempt on the files behind the
one before it. -/
def writtenBy (s : Settings) (t : FileTree) : List ChartKind → List (Location × List UInt8)
  | [] => []
  | kind :: rest => (s.written t kind).toList ++ s.writtenBy (s.renderChart t kind).files rest

theorem setFiles_writtenBy_cons (s : Settings) (t : FileTree) (kind : ChartKind)
    (rest : List ChartKind) : t.setFiles (s.writtenBy t (kind :: rest))
      = (s.renderChart t kind).files.setFiles
          (s.writtenBy (s.renderChart t kind).files rest) := by
  rw [writtenBy, setFiles_append, ← files_eq_setFiles]

/-- The attempts that are reached leave the files behind with what they wrote put in. -/
theorem files_reached (s : Settings) (t : FileTree) (room : Nat) (kinds : List ChartKind) :
    let attempted := reached room (s.attempts t kinds)
    (attempted.getLast?.map (·.files)).getD t
      = t.setFiles (s.writtenBy t (attempted.map (·.kind))) := by
  induction kinds generalizing t room with
  | nil => rfl
  | cons kind rest ih =>
    obtain ⟨more, hmore, hcases⟩ := s.reached_attempts_cons t room kind rest
    have hlast : ((s.renderChart t kind :: more).getLast?.map (·.files)).getD t
        = (more.getLast?.map (·.files)).getD (s.renderChart t kind).files := by
      rw [List.getLast?_cons]
      cases more.getLast? <;> rfl
    have hkind : (s.renderChart t kind).kind = kind := rfl
    simp only [hmore, hlast, List.map_cons, hkind, setFiles_writtenBy_cons]
    rcases hcases with rfl | ⟨left, rfl⟩
    · rfl
    · exact ih _ left

/-- Every file that attempts write is the image of one of their charts. -/
theorem exists_written_of_mem_writtenBy {s : Settings} {t : FileTree} {kinds : List ChartKind}
    {f : Location × List UInt8} (h : f ∈ s.writtenBy t kinds) :
    ∃ kind ∈ kinds, ∃ u, s.written u kind = some f := by
  induction kinds generalizing t with
  | nil => cases h
  | cons kind rest ih =>
    rcases List.mem_append.mp h with h | h
    · exact ⟨kind, List.mem_cons_self, t, Option.mem_toList.mp h⟩
    · obtain ⟨b, hb, hwritten⟩ := ih h
      exact ⟨b, List.mem_cons_of_mem kind hb, hwritten⟩

theorem sameDirectories_writtenBy (s : Settings) (t : FileTree) (kinds : List ChartKind) :
    SameDirectories t (t.setFiles (s.writtenBy t kinds)) := by
  induction kinds generalizing t with
  | nil => exact fun _ => Iff.rfl
  | cons kind rest ih =>
    rw [setFiles_writtenBy_cons]
    exact (s.sameDirectories_renderChart t kind).trans (ih _)

/-- Charts of other kinds leave an image as it was written. -/
theorem read_setFiles_writtenBy {s : Settings} {t : FileTree} {kind : ChartKind}
    {kinds : List ChartKind} (hkind : kind ∉ kinds) {path : String}
    (h : (s.renderChart t kind).outcome = some (.rendered path)) :
    let behind := (s.renderChart t kind).files
    ∃ f, s.figure t kind = .ok (some f) ∧ path = s.pathOf kind ∧
      (behind.setFiles (s.writtenBy behind kinds)).read path = .ok f.content := by
  intro behind
  obtain ⟨rfl, f, l, hf, hl, hu, hread⟩ := exists_replacedAt_of_rendered h
  have hdirs : SameDirectories t (behind.setFiles (s.writtenBy behind kinds)) :=
    (s.sameDirectories_renderChart t kind).trans (s.sameDirectories_writtenBy behind kinds)
  have hothers : ∀ g ∈ s.writtenBy behind kinds, g.1 ≠ l := by
    intro g hg
    obtain ⟨b, hb, u, hwritten⟩ := exists_written_of_mem_writtenBy hg
    have hne : b ≠ kind := fun heq => hkind (heq ▸ hb)
    exact written_ne hne hwritten (written_eq_some h hl hread)
  refine ⟨f, hf, rfl, ?_⟩
  refine read_of_leadsTo ((leadsTo_congr hdirs _ _).mp (target_eq_ok_iff.mp hl).1) ?_
  rw [get?_setFiles_of_forall_ne _ _ hothers, hu.replaced]

/-- Behind the attempts that are reached there is the image of each that was rendered, with
the bytes of its figure. -/
theorem exists_read_of_mem_reached {s : Settings} {kinds : List ChartKind}
    (hkinds : kinds.Nodup) {t : FileTree} {room : Nat} {a : Attempted} {path : String}
    (ha : a ∈ reached room (s.attempts t kinds)) (h : a.outcome = some (.rendered path)) :
    let attempted := reached room (s.attempts t kinds)
    ∃ u f, a = s.renderChart u a.kind ∧ s.figure u a.kind = .ok (some f) ∧
      path = s.pathOf a.kind ∧
      (t.setFiles (s.writtenBy t (attempted.map (·.kind)))).read path = .ok f.content := by
  induction kinds generalizing t room with
  | nil => cases ha
  | cons kind rest ih =>
    obtain ⟨hkind, hrest⟩ := List.nodup_cons.mp hkinds
    obtain ⟨more, hmore, hcases⟩ := s.reached_attempts_cons t room kind rest
    have hname : (s.renderChart t kind).kind = kind := rfl
    simp only [hmore, List.map_cons, hname, setFiles_writtenBy_cons] at ha ⊢
    rcases List.mem_cons.mp ha with rfl | ha
    · have hothers : kind ∉ more.map (·.kind) := by
        intro hmem
        obtain ⟨b, hb, rfl⟩ := List.mem_map.mp hmem
        rcases hcases with rfl | ⟨left, rfl⟩
        · cases hb
        · exact hkind (kind_mem_of_mem_reached hb)
      obtain ⟨f, hf, hpath, hread⟩ := read_setFiles_writtenBy hothers h
      exact ⟨t, f, rfl, hf, hpath, hread⟩
    · rcases hcases with rfl | ⟨left, rfl⟩
      · cases ha
      · exact ih hrest ha

/-! ## Runs into a sink with a limit -/

/-- The charts that a run comes to, by the number of bytes that its sink takes and the
lengths of its first two lines. -/
def kindsReached (limit first second : Nat) : List ChartKind :=
  if limit < first then [.latency]
  else if limit < first + second then [.latency, .stability]
  else [.latency, .stability, .resources]

/-- All charts are attempted whether or not the last line fits, and whether or not the last
attempt ends. -/
theorem kinds_reached {s : Settings} {t : FileTree} {first second : Outcome}
    (hfirst : (s.renderChart t .latency).outcome = some first)
    (hsecond : (s.renderChart (s.renderChart t .latency).files .stability).outcome = some second)
    (limit : Nat) :
    (reached limit (s.attempts t ChartKind.all)).map (·.kind)
      = kindsReached limit (first.line .latency).length (second.line .stability).length := by
  have hname : ∀ u kind, (s.renderChart u kind).kind = kind := fun _ _ => rfl
  unfold kindsReached
  rw [ChartKind.all, attempts_cons_of_some hfirst, attempts_cons_of_some hsecond]
  rcases Nat.lt_or_ge limit (first.line .latency).length with hlt | hle
  · rw [reached_cons_of_lt _ hfirst hlt, if_pos hlt]
    rfl
  rw [reached_cons_of_le _ hfirst hle, if_neg (Nat.not_lt.mpr hle), hname]
  rcases Nat.lt_or_ge limit
    ((first.line .latency).length + (second.line .stability).length) with hlt' | hle'
  · rw [reached_cons_of_lt _ hsecond (by rw [hname]; omega), if_pos hlt']
    rfl
  · rw [reached_cons_of_le _ hsecond (by rw [hname]; omega), if_neg (Nat.not_lt.mpr hle')]
    obtain ⟨more, hmore, rfl | ⟨left, rfl⟩⟩ := s.reached_attempts_cons
      (s.renderChart (s.renderChart t .latency).files .stability).files
      (limit - (first.line .latency).length - (second.line .stability).length) .resources []
    all_goals
      rw [hname, hmore]
      rfl

/-- What a run does whose sink refuses all bytes behind the first `limit` ones.

It writes as many bytes of the text that it writes without a limit.  A run that ends without
a limit ends well if this is all of the text and flushing succeeds, and then with the same
summary; it ends with the error of the sink if the text is longer, and with that of flushing
if only flushing fails.  A run that never ends without a limit, because it draws an axis whose
span is not finite, ends only if its text is cut off before.

A chart is attempted if and only if the lines about the charts before it are written, and the
files behind the run are the files before with the images put in that the attempted charts
wrote: under the path of each of them stand the bytes of its figure. -/
theorem run_of_capacity (s : Settings) (t : FileTree) (limit : Nat) (full : SystemError)
    (flushError : Option SystemError) :
    let whole := s.run t {}
    let text := whole.sink.written
    let r := s.run t { capacity := some limit, full, flushError }
    let attempted := reached limit (s.attempts t ChartKind.all)
    let images := s.writtenBy t (attempted.map (·.kind))
    r.sink.written = text.take limit ∧
    (∀ x, r.result = some (.ok x) ↔
      text.length ≤ limit ∧ flushError = none ∧ whole.result = some (.ok x)) ∧
    (∀ e, r.result = some (.error e) ↔ limit < text.length ∧ e = full ∨
      text.length ≤ limit ∧ flushError = some e ∧ whole.result ≠ none) ∧
    (r.result = none ↔ text.length ≤ limit ∧ whole.result = none) ∧
    (whole.result = none ↔ ¬s.DrawingsEnd t ChartKind.all) ∧
    (∀ first second, (s.renderChart t .latency).outcome = some first →
      (s.renderChart (s.renderChart t .latency).files .stability).outcome = some second →
      attempted.map (·.kind)
        = kindsReached limit (first.line .latency).length (second.line .stability).length) ∧
    r.journal = s.warnings ++ attempted.flatMap Attempted.journal ∧
    r.files = t.setFiles images ∧
    (∀ a ∈ attempted, ∀ path, a.outcome = some (.rendered path) →
      ∃ u f, a = s.renderChart u a.kind ∧ s.figure u a.kind = .ok (some f) ∧
        path = s.pathOf a.kind ∧ r.files.read path = .ok f.content) ∧
    (∀ l, (∀ f ∈ images, f.1 ≠ l) → r.files.get? l = t.get? l) ∧
    (s.DrawingsEnd t ChartKind.all →
      (∃ first second third summary, whole.result = some (.ok summary) ∧
        summary.outcomes = [(.latency, first), (.stability, second), (.resources, third)] ∧
        text = first.line .latency ++ second.line .stability ++ third.line .resources
          ++ summary.bannerBytes s.outputDir ∧
        attempted.map (fun a => (a.kind, a.outcome))
          = (summary.outcomes.take attempted.length).map fun o => (o.1, some o.2)) ∧
      (attempted.map (·.kind) = ChartKind.all → r.files = whole.files)) := by
  intro whole text r attempted images
  obtain ⟨hwritten, hresult, hjournal, hlast⟩ := s.runFrom_of_capacity full flushError limit
    (s.attempts t ChartKind.all) t [] s.warnings []
  obtain ⟨hwhole, htext, -, hwholeFiles⟩ := s.run_of_unlimited t [] .noSpace none
  rw [List.length_nil, Nat.sub_zero] at hwritten hresult hjournal hlast
  rw [List.nil_append] at htext hwritten
  rw [← htext] at hwritten hresult
  have hfiles : r.files = t.setFiles images := hlast.trans (s.files_reached t limit ChartKind.all)
  have hok : ∀ x, whole.result = some (.ok x)
      ↔ outcomesOf [] (s.attempts t ChartKind.all) = some x.outcomes := by
    intro x
    refine (congrArg (· = some (.ok x)) hwhole).to_iff.trans ?_
    cases outcomesOf [] (s.attempts t ChartKind.all) <;> obtain ⟨x⟩ := x <;> simp
  have hnone : whole.result = none ↔ outcomesOf [] (s.attempts t ChartKind.all) = none :=
    (congrArg (· = none) hwhole).to_iff.trans Option.map_eq_none_iff
  refine ⟨hwritten, fun x => ?_, fun e => ?_, ?_, s.run_result_eq_none_iff t [] .noSpace none,
    fun _ _ hfirst hsecond => kinds_reached hfirst hsecond limit, hjournal, hfiles, ?_, ?_, ?_⟩
  · rw [hok]
    exact (congrArg (· = some (.ok x)) hresult).to_iff.trans ending_eq_ok_iff
  · rw [Ne, hnone]
    exact (congrArg (· = some (.error e)) hresult).to_iff.trans ending_eq_error_iff
  · rw [hnone]
    exact (congrArg (· = none) hresult).to_iff.trans ending_eq_none_iff
  · intro a ha path hpath
    rw [hfiles]
    exact exists_read_of_mem_reached (by decide) ha hpath
  · intro l hl
    rw [hfiles]
    exact get?_setFiles_of_forall_ne _ t hl
  · intro hends
    obtain ⟨first, second, third, hall, hmap⟩ := exists_three_outcomes hends
    have hprefix : attempted = (s.attempts t ChartKind.all).take attempted.length :=
      List.prefix_iff_eq_take.mp (reached_isPrefix limit _)
    refine ⟨⟨first, second, third, ⟨_⟩, (hok _).mpr hall, rfl, ?_, ?_⟩, fun hkinds => ?_⟩
    · refine htext.trans ((s.reportText_of_outcomes hmap []).trans ?_)
      simp only [List.flatMap_cons, List.flatMap_nil, List.append_nil, List.append_assoc,
        List.nil_append]
    · rw [List.map_take, ← hmap, ← List.map_take, ← hprefix]
    · have hlen : (s.attempts t ChartKind.all).length ≤ attempted.length := by
        rw [← List.length_map (f := fun a => a.kind), map_kind_attempts hends, ← hkinds,
          List.length_map]
      rw [List.take_of_length_le hlen] at hprefix
      refine (hlast.trans ?_).trans hwholeFiles.symm
      exact congrArg (fun l : List Attempted => (l.getLast?.map (·.files)).getD t) hprefix

/-- A run that stays in its last chart writes the first two lines, if they fit, and meets no
error. -/
theorem run_of_last_none {s : Settings} {t : FileTree} {first second : Outcome}
    (hfirst : (s.renderChart t .latency).outcome = some first)
    (hsecond : (s.renderChart (s.renderChart t .latency).files .stability).outcome = some second)
    (hthird : (s.renderChart (s.renderChart (s.renderChart t .latency).files .stability).files
      .resources).outcome = none)
    {limit : Nat} (hlimit : (first.line .latency).length + (second.line .stability).length ≤ limit) :
    let r := s.run t { capacity := some limit }
    r.result = none ∧ r.sink.written = first.line .latency ++ second.line .stability := by
  intro r
  obtain ⟨hwritten, hresult, -⟩ := s.runFrom_of_capacity .noSpace none limit
    (s.attempts t ChartKind.all) t [] s.warnings []
  have hstays : ¬s.DrawingsEnd t ChartKind.all := fun hall =>
    outcome_eq_none_iff.mp hthird hall.2.2.1
  have hnever : outcomesOf [] (s.attempts t ChartKind.all) = none :=
    outcomesOf_attempts_eq_none_iff.mpr hstays
  have hfits : (s.reportText [] (s.attempts t ChartKind.all)).length ≤ limit := by
    rw [reportText_of_last_none hfirst hsecond hthird, List.length_append]
    exact hlimit
  rw [List.length_nil, Nat.sub_zero] at hwritten hresult
  rw [ending_of_le hfits, hnever] at hresult
  rw [List.take_of_length_le hfits, reportText_of_last_none hfirst hsecond hthird] at hwritten
  exact ⟨hresult, hwritten⟩

/-- A run whose last chart is drawn for ever.  Its sink takes the first two lines and more,
but nothing is written any more and no error is met. -/
theorem exists_run_stays_in_last_chart :
    let t := logOnly unboundedLoad
    ∃ first second, (standard.renderChart t .latency).outcome = some first ∧
      (standard.renderChart (standard.renderChart t .latency).files .stability).outcome
        = some second ∧
      ∀ limit, (first.line .latency).length + (second.line .stability).length ≤ limit →
        let r := standard.run t { capacity := some limit }
        r.result = none ∧ r.sink.written = first.line .latency ++ second.line .stability := by
  intro t
  obtain ⟨⟨hstability, -⟩, hresources, -⟩ := renderChart_in_run (logApart_standard t)
  obtain ⟨first, hfirst⟩ := exists_outcome_iff.mpr (drawingEnds_standard t).1
  obtain ⟨second, hsecond⟩ := exists_outcome_iff.mpr (drawingEnds_standard t).2
  have hthird := hresources.trans (outcome_eq_none_iff.mpr not_drawingEnds_unboundedLoad)
  exact ⟨first, second, hfirst, hstability.trans hsecond, fun limit hlimit =>
    run_of_last_none hfirst (hstability.trans hsecond) hthird hlimit⟩

end Settings

end BenchCharts
