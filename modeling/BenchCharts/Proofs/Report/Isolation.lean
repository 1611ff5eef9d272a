import BenchCharts.Proofs.Report.Run
import BenchCharts.Proofs.ResourceLog.Open

/-!
# Charts of one run do not disturb each other

Every chart of a run is attempted on the files that the charts before it left
behind.  `renderChart_behind` is the one fact that carries the isolation: behind
an attempt at a chart, an attempt at any chart has the outcome and writes the
file that it has and writes on the files before.  The images share a directory,
so writing one does not move another, and the only file that is read is the
resource log; where the image that was written is the log itself, nothing is
claimed.

Together with the course of a run this says what a whole run does, if drawing ends
for all of its charts (`run_isolated`).  Finite axis bounds are not enough for that: the
distance between them can overflow (`exists_isolated_run_never_ends`).
-/

namespace BenchCharts

open FileTree

/-! ## The log behind a replaced file -/

/-- A log that is not the replaced file opens as it did before. -/
theorem FileTree.ReplacedAt.openLog_eq {before after : FileTree} {l : Location}
    {content : List UInt8} (h : ReplacedAt before after l content) {path : String}
    (hpath : ¬before.LeadsTo path l) :
    ResourceLog.openLog after path = ResourceLog.openLog before path := by
  have hsame := h.lookup_ok_congr hpath
  rw [ResourceLog.openLog, ResourceLog.openLog, contains, contains]
  cases hbefore : before.lookup path with
  | ok n =>
    have hafter := (hsame n).mpr hbefore
    rw [ResourceLog.readLog, ResourceLog.readLog, hbefore, hafter]
  | error e =>
    cases hafter : after.lookup path with
    | ok n =>
      rw [(hsame n).mp hafter] at hbefore
      cases hbefore
    | error e' => rfl

/-- The banner with the number of charts in words of its text. -/
theorem Summary.banner_eq (x : Summary) (dir : String) :
    x.banner dir = s!"\nDone: {x.rendered} of 3 charts rendered into {dir}\n" := by
  have hthree : toString " of 3 charts rendered into " = toString " of " ++
      (toString ChartKind.all.length ++ toString " charts rendered into ") := by
    decide
  rw [Summary.banner, hthree]
  simp only [String.append_assoc]

namespace Settings

/-! ## The file of an attempt -/

/-- The location and the bytes of the file that an attempt at a chart writes. -/
def written (s : Settings) (t : FileTree) (kind : ChartKind) :
    Option (Location × List UInt8) :=
  match (s.renderChart t kind).outcome with
  | some (.rendered path) => do
      let l ← (t.target path).toOption
      let content ← (s.renderChart t kind).image?
      some (l, content)
  | _ => none

theorem written_eq_some {s : Settings} {t : FileTree} {kind : ChartKind} {path : String}
    {l : Location} {content : List UInt8}
    (h : (s.renderChart t kind).outcome = some (.rendered path)) (hl : t.target path = .ok l)
    (hread : (s.renderChart t kind).files.read path = .ok content) :
    s.written t kind = some (l, content) := by
  simp only [written, Attempted.image?, h, hl, hread]
  rfl

theorem written_eq_none {s : Settings} {t : FileTree} {kind : ChartKind}
    (h : (s.renderChart t kind).isRendered = false) : s.written t kind = none := by
  rw [written]
  split
  · next path hpath => exact absurd hpath (Attempted.isRendered_eq_false_iff.mp h path)
  · rfl

theorem exists_of_written_eq_some {s : Settings} {t : FileTree} {kind : ChartKind}
    {f : Location × List UInt8} (h : s.written t kind = some f) :
    (s.renderChart t kind).outcome = some (.rendered (s.pathOf kind)) ∧
      t.target (s.pathOf kind) = .ok f.1 ∧
      (s.renderChart t kind).files.read (s.pathOf kind) = .ok f.2 := by
  cases hout : (s.renderChart t kind).isRendered with
  | false =>
    rw [written_eq_none hout] at h
    cases h
  | true =>
    obtain ⟨path, hpath⟩ := Attempted.isRendered_iff.mp hout
    obtain ⟨rfl, g, l, _, hl, _, hread⟩ := exists_replacedAt_of_rendered hpath
    rw [written_eq_some hpath hl hread] at h
    have hf := Option.some.inj h
    rw [← hf]
    exact ⟨hpath, hl, hread⟩

/-- The files behind an attempt are the files before with its file put in. -/
theorem files_eq_setFiles (s : Settings) (t : FileTree) (kind : ChartKind) :
    (s.renderChart t kind).files = t.setFiles (s.written t kind).toList := by
  cases hout : (s.renderChart t kind).isRendered with
  | false =>
    rw [written_eq_none hout, files_eq_of_not_rendered hout]
    rfl
  | true =>
    obtain ⟨path, hpath⟩ := Attempted.isRendered_iff.mp hout
    obtain ⟨_, f, l, _, hl, hu, hread⟩ := exists_replacedAt_of_rendered hpath
    rw [written_eq_some hpath hl hread, Option.toList_some, setFiles_singleton, hu.tree]

theorem sameDirectories_renderChart (s : Settings) (t : FileTree) (kind : ChartKind) :
    SameDirectories t (s.renderChart t kind).files := by
  cases hout : (s.renderChart t kind).isRendered with
  | false =>
    rw [files_eq_of_not_rendered hout]
    exact fun m => Iff.rfl
  | true =>
    obtain ⟨path, hpath⟩ := Attempted.isRendered_iff.mp hout
    obtain ⟨_, f, l, _, _, hu, _⟩ := exists_replacedAt_of_rendered hpath
    exact hu.sameDirectories

/-! ## An attempt behind another one -/

/-- The name of an image can stand in every directory. -/
theorem isFileName_image (s : Settings) (kind : ChartKind) :
    IsFileName (kind.stem ++ "." ++ s.format.extension) := by
  cases kind <;> cases s.format <;> exact ⟨by decide, by decide, by decide⟩

/-- Whether an image can be written depends on the target of its path alone. -/
theorem settle_outcome_congr (s : Settings) {t u : FileTree}
    (found : Except ReportError (Option Figure))
    (h : ∀ f, found = .ok (some f) →
      u.target (s.imagePath f.chart) = t.target (s.imagePath f.chart)) :
    (s.settle u found).1 = (s.settle t found).1 := by
  cases found with
  | error e => rfl
  | ok found =>
    cases found with
    | none => rfl
    | some f =>
      rw [settle, settle, writeImage_chart, writeImage_chart]
      cases s.format with
      | png => rfl
      | svg =>
        rw [replace, replace, h f rfl]
        by_cases hends : f.chart.FiniteSpans
        · rw [if_pos hends, if_pos hends]
          cases t.target (s.imagePath f.chart) with
          | error e => rfl
          | ok l => rfl
        · rw [if_neg hends, if_neg hends]

theorem figure_congr {s : Settings} {t u : FileTree} {kind : ChartKind}
    (h : kind = .resources →
      ResourceLog.openLog u s.resourceLog = ResourceLog.openLog t s.resourceLog) :
    s.figure u kind = s.figure t kind := by
  cases kind with
  | latency => rfl
  | stability => rfl
  | resources => rw [figure, figure, h rfl]

/-- Behind an attempt at a chart, every chart has the outcome and writes the file
that it has and writes without that attempt, unless the attempt replaced the
resource log from which the chart is made. -/
theorem renderChart_behind (s : Settings) (t : FileTree) (a b : ChartKind)
    (hlog : b = .resources → ∀ f ∈ s.written t a, ¬t.LeadsTo s.resourceLog f.1) :
    (s.renderChart (s.renderChart t a).files b).outcome = (s.renderChart t b).outcome ∧
      s.written (s.renderChart t a).files b = s.written t b := by
  cases hout : (s.renderChart t a).isRendered with
  | false =>
    rw [files_eq_of_not_rendered hout]
    exact ⟨rfl, rfl⟩
  | true =>
    obtain ⟨path, hpath⟩ := Attempted.isRendered_iff.mp hout
    obtain ⟨rfl, f, l, _, hl, hu, hread⟩ := exists_replacedAt_of_rendered hpath
    have hfigure : s.figure (s.renderChart t a).files b = s.figure t b :=
      figure_congr fun hb =>
        hu.openLog_eq (hlog hb (l, f.content) (written_eq_some hpath hl hread))
    have htarget : (s.renderChart t a).files.target (s.pathOf b) = t.target (s.pathOf b) :=
      hu.target_join_congr (s.isFileName_image a) (s.isFileName_image b)
        (target_eq_ok_iff.mp hl).1
    have houtcome : (s.renderChart (s.renderChart t a).files b).outcome =
        (s.renderChart t b).outcome := by
      rw [outcome_eq_settle, outcome_eq_settle, hfigure]
      apply settle_outcome_congr
      intro g hg
      rw [imagePath_chart, kind_of_figure hg, htarget]
    refine ⟨houtcome, ?_⟩
    cases hb : (s.renderChart t b).isRendered with
    | false =>
      rw [written_eq_none hb]
      exact written_eq_none ((congrArg (Option.any Outcome.isRendered) houtcome).trans hb)
    | true =>
      obtain ⟨path, hpath⟩ := Attempted.isRendered_iff.mp hb
      have hpath' := houtcome.trans hpath
      obtain ⟨hpathOf, g, m, hg, hm, _, hread⟩ := exists_replacedAt_of_rendered hpath
      obtain ⟨_, g', m', hg', hm', _, hread'⟩ := exists_replacedAt_of_rendered hpath'
      rw [hfigure, hg] at hg'
      rw [hpathOf, htarget, ← hpathOf, hm] at hm'
      obtain rfl : g = g' := by simpa using hg'
      obtain rfl : m = m' := Except.ok.inj hm'
      rw [written_eq_some hpath hm hread,
        written_eq_some hpath' (by rw [hpathOf, htarget, ← hpathOf, hm]) hread']

/-- The file of an image has the name that its chart and the format give it. -/
theorem getLast?_of_written_eq_some {s : Settings} {t : FileTree} {kind : ChartKind}
    {f : Location × List UInt8} (h : s.written t kind = some f) :
    f.1.getLast? = some (kind.stem ++ "." ++ s.format.extension) := by
  obtain ⟨_, hl, _⟩ := exists_of_written_eq_some h
  obtain ⟨d, _, _, hd⟩ := exists_directory_of_leadsTo_join (s.isFileName_image kind)
    (target_eq_ok_iff.mp hl).1
  rw [hd, List.getLast?_concat]

/-- The images of two charts are never the same file, whatever files they were written
to. -/
theorem written_ne {s : Settings} {t u : FileTree} {a b : ChartKind} (hab : a ≠ b)
    {f g : Location × List UInt8} (hf : s.written t a = some f) (hg : s.written u b = some g) :
    f.1 ≠ g.1 := by
  intro heq
  have hnames := (getLast?_of_written_eq_some hf).symm.trans
    ((congrArg List.getLast? heq).trans (getLast?_of_written_eq_some hg))
  revert hab hnames
  cases a <;> cases b <;> cases s.format <;> decide

/-! ## All attempts of a run -/

/-- The condition on the files under which the charts of a run are isolated: the
resource log is neither of the two images that are written before it is read. -/
def LogApart (s : Settings) (t : FileTree) : Prop :=
  ∀ kind ∈ [ChartKind.latency, ChartKind.stability], ∀ f ∈ s.written t kind,
    ¬t.LeadsTo s.resourceLog f.1

section

variable {s : Settings} {t : FileTree} (hlog : s.LogApart t)

include hlog

/-- Behind the first chart, and behind the first two, the charts that follow come out as
they do on the files before the run. -/
theorem renderChart_in_run :
    let t₁ := (s.renderChart t .latency).files
    let t₂ := (s.renderChart t₁ .stability).files
    ((s.renderChart t₁ .stability).outcome = (s.renderChart t .stability).outcome ∧
      s.written t₁ .stability = s.written t .stability) ∧
    (s.renderChart t₂ .resources).outcome = (s.renderChart t .resources).outcome ∧
      s.written t₂ .resources = s.written t .resources := by
  intro t₁ t₂
  have hlog₁ : ∀ f ∈ s.written t .latency, ¬t.LeadsTo s.resourceLog f.1 :=
    hlog .latency (by decide)
  have hstability := s.renderChart_behind t .latency .stability (fun h => by cases h)
  have hlog₂ : ∀ f ∈ s.written t₁ .stability, ¬t₁.LeadsTo s.resourceLog f.1 := by
    intro f hf hlead
    rw [hstability.2] at hf
    exact hlog .stability (by decide) f hf
      ((leadsTo_congr (s.sameDirectories_renderChart t .latency) _ _).mpr hlead)
  have hbehind₁ := s.renderChart_behind t .latency .resources fun _ => hlog₁
  have hbehind₂ := s.renderChart_behind t₁ .stability .resources fun _ => hlog₂
  exact ⟨hstability, hbehind₂.1.trans hbehind₁.1, hbehind₂.2.trans hbehind₁.2⟩

/-- Whether drawing ends does not depend on the images that the run has written. -/
theorem drawingsEnd_all_iff :
    s.DrawingsEnd t ChartKind.all ↔ ∀ kind, s.DrawingEnds t kind := by
  obtain ⟨⟨hstability, -⟩, hresources, -⟩ := renderChart_in_run hlog
  simp only [ChartKind.all, DrawingsEnd, ← exists_outcome_iff, hstability, hresources, and_true]
  constructor
  · rintro ⟨hfirst, hsecond, hthird⟩ kind
    cases kind <;> assumption
  · exact fun h => ⟨h .latency, h .stability, h .resources⟩

/-- The attempts of a run have the outcomes of attempts on the files before the run,
and together they write the files that those would write. -/
theorem attempts_all (hends : ∀ kind, s.DrawingEnds t kind) :
    (s.attempts t ChartKind.all).map (fun a => (a.kind, a.outcome)) =
        ChartKind.all.map (fun kind => (kind, (s.renderChart t kind).outcome)) ∧
      (s.attempts t ChartKind.all).getLast?.map (·.files) =
        some (t.setFiles (ChartKind.all.filterMap (s.written t))) ∧
      SameDirectories t (t.setFiles (ChartKind.all.filterMap (s.written t))) := by
  -- the files behind the first, the second and the third attempt
  let t₁ := (s.renderChart t .latency).files
  let t₂ := (s.renderChart t₁ .stability).files
  let t₃ := (s.renderChart t₂ .resources).files
  obtain ⟨⟨houtcome₁, hwritten₁⟩, houtcome₂, hwritten₂⟩ := renderChart_in_run hlog
  have hset : t₃ = t.setFiles (ChartKind.all.filterMap (s.written t)) := by
    have hall : ChartKind.all.filterMap (s.written t) =
        (s.written t .latency).toList ++
          ((s.written t .stability).toList ++ (s.written t .resources).toList) := by
      simp only [ChartKind.all, List.filterMap_cons, List.filterMap_nil]
      cases s.written t .latency <;> cases s.written t .stability <;>
        cases s.written t .resources <;> rfl
    rw [hall, setFiles_append, setFiles_append, ← files_eq_setFiles, ← hwritten₁,
      ← files_eq_setFiles, ← hwritten₂, ← files_eq_setFiles]
  have hdirs : SameDirectories t t₃ :=
    ((s.sameDirectories_renderChart t .latency).trans
      (s.sameDirectories_renderChart t₁ .stability)).trans
      (s.sameDirectories_renderChart t₂ .resources)
  obtain ⟨first, hfirst⟩ := exists_outcome_iff.mpr (hends .latency)
  obtain ⟨second, hsecond⟩ := exists_outcome_iff.mpr (hends .stability)
  have hthree : s.attempts t ChartKind.all = [s.renderChart t .latency,
      s.renderChart t₁ .stability, s.renderChart t₂ .resources] := by
    rw [ChartKind.all, attempts_cons_of_some hfirst,
      attempts_cons_of_some (houtcome₁.trans hsecond), attempts, attempts, ite_self]
  rw [hthree]
  refine ⟨?_, congrArg some hset, hset ▸ hdirs⟩
  simp only [List.map_cons, List.map_nil, ChartKind.all]
  rw [houtcome₁, houtcome₂]
  rfl

end

/-- The images of a run are different files. -/
theorem pairwise_written (s : Settings) (t : FileTree) :
    (ChartKind.all.filterMap (s.written t)).Pairwise fun f g => f.1 ≠ g.1 := by
  have hkinds : ChartKind.all.Pairwise (· ≠ ·) := by decide
  exact List.Pairwise.filterMap (s.written t)
    (fun a b (hab : a ≠ b) f hf g hg => written_ne hab hf hg) hkinds

/-- Behind all images a path leads to the bytes of the figure that its own attempt drew. -/
theorem read_setFiles_of_rendered {s : Settings} {t : FileTree}
    (hdirs : SameDirectories t (t.setFiles (ChartKind.all.filterMap (s.written t))))
    {kind : ChartKind} {path : String}
    (h : (s.renderChart t kind).outcome = some (.rendered path)) :
    ∃ f, s.figure t kind = .ok (some f) ∧
      (t.setFiles (ChartKind.all.filterMap (s.written t))).read path = .ok f.content ∧
      (s.renderChart t kind).files.read path = .ok f.content := by
  obtain ⟨rfl, f, l, hf, hl, _, hread⟩ := exists_replacedAt_of_rendered h
  obtain ⟨hlead, hfree⟩ := target_eq_ok_iff.mp hl
  have hkind : kind ∈ ChartKind.all := by cases kind <;> decide
  have hmem : (l, f.content) ∈ ChartKind.all.filterMap (s.written t) :=
    List.mem_filterMap.mpr ⟨kind, hkind, written_eq_some h hl hread⟩
  refine ⟨f, hf, ?_, hread⟩
  exact read_of_leadsTo ((leadsTo_congr hdirs _ _).mp hlead)
    (get?_setFiles_of_mem (isOutside_eq_false hfree) _ t (s.pairwise_written t) hmem)

/-- All images leave every other location alone. -/
theorem get?_setFiles_of_forall_written_ne {s : Settings} {t : FileTree} {l : Location}
    (h : ∀ kind, ∀ f ∈ s.written t kind, f.1 ≠ l) :
    (t.setFiles (ChartKind.all.filterMap (s.written t))).get? l = t.get? l := by
  apply get?_setFiles_of_forall_ne
  intro f hf
  obtain ⟨kind, _, hkind⟩ := List.mem_filterMap.mp hf
  exact h kind f hkind

/-! ## A run into a sink without a limit -/

/-- The status lines of a report. -/
def statusText (outcomes : List (ChartKind × Outcome)) : String :=
  String.join (outcomes.map fun o => o.2.status o.1)

theorem statusText_nil : statusText [] = "" := by
  rw [statusText, List.map_nil, String.join_nil]

theorem statusText_cons (o : ChartKind × Outcome) (rest : List (ChartKind × Outcome)) :
    statusText (o :: rest) = o.2.status o.1 ++ statusText rest := by
  rw [statusText, statusText, List.map_cons, String.join_cons]

theorem encode_statusText (outcomes : List (ChartKind × Outcome)) :
    Text.Utf8.encode (statusText outcomes).toList = outcomes.flatMap fun o => o.2.line o.1 := by
  induction outcomes with
  | nil =>
    rw [statusText_nil]
    rfl
  | cons o outcomes ih =>
    rw [statusText_cons, Text.Utf8.encode_toList_append, ih, List.flatMap_cons, Outcome.line]

/-- The text of a run whose attempts have these outcomes. -/
theorem reportText_of_attempts {s : Settings} {t : FileTree}
    {outcomes : List (ChartKind × Outcome)}
    (h : (s.attempts t ChartKind.all).map (fun a => (a.kind, a.outcome))
      = outcomes.map fun o => (o.1, some o.2)) :
    s.reportText [] (s.attempts t ChartKind.all) = Text.Utf8.encode
      (statusText outcomes ++ (Summary.mk outcomes).banner s.outputDir).toList := by
  rw [s.reportText_of_outcomes h, Text.Utf8.encode_toList_append, encode_statusText,
    List.nil_append, Summary.bannerBytes]

/-- Every chart of a run is attempted, and none of them disturbs another.

Into a sink that takes everything, a run whose charts have axes with finite spans ends with
an outcome for each of the three charts, in their order, and each outcome is the one that
the chart has when it is attempted alone on the files before the run.  The files behind the
run are those files with the images put in that the three attempts alone would write, and
under the path of each image stand the bytes of its figure.  The text is a status line for
each outcome, an empty line and a banner with the number of charts that were rendered. -/
theorem run_isolated (s : Settings) (t : FileTree) (w : List UInt8) (e : SystemError)
    (hlog : s.LogApart t) (hends : ∀ kind, s.DrawingEnds t kind) :
    let r := s.run t { written := w, full := e }
    ∃ outcome : ChartKind → Outcome,
      (∀ kind, (s.renderChart t kind).outcome = some (outcome kind)) ∧
      let count := ([ChartKind.latency, .stability, .resources].filter
        fun kind => (outcome kind).isRendered).length
      (∃ summary, r.result = some (.ok summary) ∧
        summary.outcomes = [(.latency, outcome .latency), (.stability, outcome .stability),
          (.resources, outcome .resources)] ∧
        summary.rendered = count) ∧
      r.files = t.setFiles
        ([ChartKind.latency, .stability, .resources].filterMap (s.written t)) ∧
      (∀ kind path, outcome kind = .rendered path →
        ∃ f, s.figure t kind = .ok (some f) ∧ r.files.read path = .ok f.content ∧
          (s.renderChart t kind).files.read path = .ok f.content) ∧
      (∀ l, (∀ kind, ∀ f ∈ s.written t kind, f.1 ≠ l) → r.files.get? l = t.get? l) ∧
      r.sink.written = w ++ Text.Utf8.encode
        ((outcome .latency).status .latency ++ (outcome .stability).status .stability ++
          (outcome .resources).status .resources ++
          s!"\nDone: {count} of 3 charts rendered into {s.outputDir}\n").toList := by
  intro r
  let outcome (kind : ChartKind) : Outcome :=
    (s.renderChart t kind).outcome.get (isSome_outcome_iff.mpr (hends kind))
  have houtcome : ∀ kind, (s.renderChart t kind).outcome = some (outcome kind) :=
    fun kind => (Option.some_get _).symm
  obtain ⟨hmap, hlast, hdirs⟩ := attempts_all hlog hends
  obtain ⟨hresult, hwritten, -, hfiles⟩ := s.run_of_unlimited t w e none
  let outcomes := ChartKind.all.map fun kind => (kind, outcome kind)
  have hmap : (s.attempts t ChartKind.all).map (fun a => (a.kind, a.outcome))
      = outcomes.map fun o => (o.1, some o.2) := by
    rw [hmap, List.map_map]
    exact List.map_congr_left fun kind _ => congrArg _ (houtcome kind)
  rw [outcomesOf_of_outcomes hmap, List.nil_append] at hresult
  rw [reportText_of_attempts hmap] at hwritten
  have hset : r.files = t.setFiles (ChartKind.all.filterMap (s.written t)) := by
    refine hfiles.trans ?_
    rw [hlast]
    rfl
  have hcount : (Summary.mk outcomes).rendered = ([ChartKind.latency, .stability, .resources].filter
      fun kind => (outcome kind).isRendered).length := by
    rw [Summary.rendered, List.countP_map, List.countP_eq_length_filter]
    rfl
  refine ⟨outcome, houtcome, ⟨_, hresult, rfl, hcount⟩, hset, ?_, ?_, ?_⟩
  · intro kind path hpath
    rw [hset]
    exact read_setFiles_of_rendered hdirs ((houtcome kind).trans (congrArg some hpath))
  · intro l hne
    rw [hset]
    exact get?_setFiles_of_forall_written_ne hne
  · refine hwritten.trans ?_
    rw [Summary.banner_eq, hcount]
    simp only [outcomes, ChartKind.all, List.map_cons, List.map_nil, statusText_cons,
      statusText_nil, String.append_empty, String.append_assoc]

/-! ## The standard report -/

/-- The standard log is never an image: its name is another one. -/
theorem not_leadsTo_image_standard (t : FileTree) (kind : ChartKind) :
    ∀ f ∈ standard.written t kind, ¬t.LeadsTo standard.resourceLog f.1 := by
  intro f hf hlead
  obtain ⟨p, hp, _, hl⟩ := hlead
  have hpath : Path.ofString standard.resourceLog
      = .ok { absolute := false, names := ["resource_log.csv"], asDirectory := false } := rfl
  rw [hpath] at hp
  obtain rfl := Except.ok.inj hp
  have hplace : Except.ok ["resource_log.csv"] = Except.ok f.1 := hl
  have hname := getLast?_of_written_eq_some hf
  rw [← Except.ok.inj hplace] at hname
  revert hname
  cases kind <;> decide

theorem logApart_standard (t : FileTree) : standard.LogApart t :=
  fun kind _ => not_leadsTo_image_standard t kind

/-- The charts over the standard scenarios are the same on all files. -/
theorem figure_standard (t : FileTree) :
    standard.figure t .latency = .ok (some (.latency ⟨defaultScenarios.labels,
        defaultScenarios.averageLatency, defaultScenarios.p95Latency⟩)) ∧
      standard.figure t .stability = .ok (some (.stability ⟨defaultScenarios.labels,
        defaultScenarios.throughput, defaultScenarios.errorRate⟩)) :=
  ⟨rfl, rfl⟩

/-- Whether drawing ends in the standard report depends on the resource log alone. -/
theorem drawingEnds_standard (t : FileTree) :
    standard.DrawingEnds t .latency ∧ standard.DrawingEnds t .stability := by
  obtain ⟨hlatency, hstability⟩ := figure_standard t
  refine ⟨fun _ f hf => ?_, fun _ f hf => ?_⟩
  · obtain rfl := Option.some.inj (Except.ok.inj (hlatency.symm.trans hf))
    decide +kernel
  · obtain rfl := Option.some.inj (Except.ok.inj (hstability.symm.trans hf))
    decide +kernel

/-- The files with nothing but a resource log in them. -/
def logOnly (text : List Char) : FileTree :=
  { entries := [(["resource_log.csv"], .file (Text.Utf8.encode text))] }

/-- The resource chart over a log that decodes to some samples. -/
theorem figure_logOnly {text : List Char} {samples : List ResourceLog.Sample}
    (h : (ResourceLog.Decoder.ofSource { reads := [Text.Utf8.encode text] }).decode.1
      = .ok samples) :
    standard.figure (logOnly text) .resources = .ok (some (.resources ⟨samples⟩)) := by
  have hlookup : (logOnly text).lookup standard.resourceLog
      = .ok (.file (Text.Utf8.encode text)) := rfl
  rw [figure, ResourceLog.openLog_of_file_at_once hlookup, h]
  rfl

/-- Whether drawing ends in the standard report depends on the samples of its log. -/
theorem drawingEnds_logOnly_iff {text : List Char} {samples : List ResourceLog.Sample}
    (h : (ResourceLog.Decoder.ofSource { reads := [Text.Utf8.encode text] }).decode.1
      = .ok samples) :
    standard.DrawingEnds (logOnly text) .resources ↔ (ResourceChart.chart ⟨samples⟩).FiniteSpans := by
  constructor
  · exact fun hends => hends rfl _ (figure_logOnly h)
  · intro hends _ f hf
    obtain rfl := Option.some.inj (Except.ok.inj ((figure_logOnly h).symm.trans hf))
    exact hends

/-- Two samples with their memory so far apart that the span of the axis overflows, while
its bounds are finite. -/
def farApart : List Char :=
  ['t', ',', 'c', ',', 'r', '\n', '0', ',', '1', ',', '-', '8', '.', '8', '5', 'e', '3', '0', '7',
    '\n', '1', ',', '1', ',', '8', '.', '8', '5', 'e', '3', '0', '7', '\n']

theorem decode_farApart :
    (ResourceLog.Decoder.ofSource { reads := [Text.Utf8.encode farApart] }).decode.1
      = .ok [⟨0, 1, -8.85e307⟩, ⟨1, 1, 8.85e307⟩] := by
  decide +kernel

theorem not_drawingEnds_farApart : ¬standard.DrawingEnds (logOnly farApart) .resources := by
  rw [drawingEnds_logOnly_iff decode_farApart]
  decide +kernel

theorem isFinite_bounds_farApart {f : Figure}
    (h : standard.figure (logOnly farApart) .resources = .ok (some f)) :
    ∀ range ∈ f.chart.ranges, range.start.isFinite = true ∧ range.stop.isFinite = true := by
  obtain rfl := Option.some.inj (Except.ok.inj ((figure_logOnly decode_farApart).symm.trans h))
  decide +kernel

/-- One sample with a processor load without bound. -/
def unboundedLoad : List Char :=
  ['t', ',', 'c', ',', 'r', '\n', '0', ',', 'i', 'n', 'f', ',', '1', '\n']

theorem decode_unboundedLoad :
    (ResourceLog.Decoder.ofSource { reads := [Text.Utf8.encode unboundedLoad] }).decode.1
      = .ok [⟨0, .infinite false, 1⟩] := by
  decide +kernel

theorem not_drawingEnds_unboundedLoad :
    ¬standard.DrawingEnds (logOnly unboundedLoad) .resources := by
  rw [drawingEnds_logOnly_iff decode_unboundedLoad]
  decide +kernel

/-- One sample as a monitor writes it. -/
def oneSample : List Char := ['t', ',', 'c', ',', 'r', '\n', '0', ',', '1', ',', '2', '\n']

theorem decode_oneSample :
    (ResourceLog.Decoder.ofSource { reads := [Text.Utf8.encode oneSample] }).decode.1
      = .ok [⟨0, 1, 2⟩] := by
  decide +kernel

theorem drawingEnds_oneSample : standard.DrawingEnds (logOnly oneSample) .resources := by
  rw [drawingEnds_logOnly_iff decode_oneSample]
  decide +kernel

/-- A log with one sample, next to which all three images are written. -/
theorem run_isolated_standard :
    let t := logOnly oneSample
    standard.LogApart t ∧ (∀ kind, standard.DrawingEnds t kind) ∧
      ∃ summary, (standard.run t {}).result = some (.ok summary) ∧
        summary.outcomes.map (·.1) = [.latency, .stability, .resources] := by
  intro t
  have hends : ∀ kind, standard.DrawingEnds t kind := by
    intro kind
    cases kind with
    | latency => exact (drawingEnds_standard t).1
    | stability => exact (drawingEnds_standard t).2
    | resources => exact drawingEnds_oneSample
  obtain ⟨outcome, -, ⟨summary, hresult, houtcomes, -⟩, -⟩ :=
    run_isolated standard t [] .noSpace (logApart_standard t) hends
  refine ⟨logApart_standard t, hends, summary, hresult, ?_⟩
  rw [houtcomes]
  rfl

/-- Finite bounds do not make a run end. -/
theorem exists_isolated_run_never_ends :
    let t := logOnly farApart
    standard.LogApart t ∧
      (∀ kind f, standard.figure t kind = .ok (some f) → ∀ range ∈ f.chart.ranges,
        range.start.isFinite = true ∧ range.stop.isFinite = true) ∧
      (standard.run t {}).result = none := by
  intro t
  obtain ⟨hlatency, hstability⟩ := figure_standard t
  refine ⟨logApart_standard t, fun kind f hf => ?_, ?_⟩
  · cases kind with
    | latency =>
      obtain rfl := Option.some.inj (Except.ok.inj (hlatency.symm.trans hf))
      decide +kernel
    | stability =>
      obtain rfl := Option.some.inj (Except.ok.inj (hstability.symm.trans hf))
      decide +kernel
    | resources => exact isFinite_bounds_farApart hf
  · rw [run_result_eq_none_iff, drawingsEnd_all_iff (logApart_standard t)]
    exact fun hall => not_drawingEnds_farApart (hall .resources)

end Settings

end BenchCharts
