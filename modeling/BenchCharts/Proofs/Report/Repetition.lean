import BenchCharts.Proofs.Report.Isolation

/-!
# Running a report again

What a report leaves behind does not change what it does next.  Two facts about a tree
carry this.

* `SameCharts t u`: every chart has on `u` the outcome and writes the file that it has
  and writes on `t`.  Every attempt keeps it, as long as the resource log is none of the
  images (`LogKept`).
* `Settled t kind`: an attempt at the chart leaves `t` as it is.  An attempt makes its own
  chart settled and keeps the others settled, because the images are different files.

`files_runFrom` follows a run to the charts that it comes to (`comesTo`), each of which is
settled behind it (`settled_renderAll`); a run of settled charts changes nothing.  All this
holds of every sink, also of one that refuses a line and so ends the run: a second run into
the same sink comes to the same charts.
-/

namespace BenchCharts.Settings

open FileTree

/-! ## Trees on which the charts come out alike -/

/-- The resource log is none of the images that the charts write. -/
def LogKept (s : Settings) (t : FileTree) : Prop :=
  ∀ kind, ∀ f ∈ s.written t kind, ¬t.LeadsTo s.resourceLog f.1

/-- Every chart has the same outcome on both trees and writes the same file. -/
structure SameCharts (s : Settings) (t u : FileTree) : Prop where
  directories : SameDirectories t u
  outcome : ∀ kind, (s.renderChart u kind).outcome = (s.renderChart t kind).outcome
  written : ∀ kind, s.written u kind = s.written t kind

theorem SameCharts.refl (s : Settings) (t : FileTree) : s.SameCharts t t :=
  ⟨fun _ => Iff.rfl, fun _ => rfl, fun _ => rfl⟩

/-- An attempt changes nothing for the charts behind it. -/
theorem SameCharts.renderChart {s : Settings} {t u : FileTree} (hlog : s.LogKept t)
    (h : s.SameCharts t u) (kind : ChartKind) : s.SameCharts t (s.renderChart u kind).files := by
  have hkept : ∀ f ∈ s.written u kind, ¬u.LeadsTo s.resourceLog f.1 := by
    intro f hf hlead
    rw [h.written kind] at hf
    exact hlog kind f hf ((leadsTo_congr h.directories _ _).mpr hlead)
  have hbehind := fun b => s.renderChart_behind u kind b fun _ => hkept
  exact
    { directories := h.directories.trans (s.sameDirectories_renderChart u kind)
      outcome := fun b => (hbehind b).1.trans (h.outcome b)
      written := fun b => (hbehind b).2.trans (h.written b) }

/-! ## Settled charts -/

/-- An attempt at the chart leaves the files as they are. -/
def Settled (s : Settings) (t : FileTree) (kind : ChartKind) : Prop :=
  (s.renderChart t kind).files = t

/-- Behind an attempt its own chart is settled. -/
theorem settled_renderChart_self {s : Settings} {t u : FileTree} (hlog : s.LogKept t)
    (h : s.SameCharts t u) (kind : ChartKind) : s.Settled (s.renderChart u kind).files kind := by
  have hwritten : s.written (s.renderChart u kind).files kind = s.written u kind :=
    ((h.renderChart hlog kind).written kind).trans (h.written kind).symm
  rw [Settled, s.files_eq_setFiles _ kind, hwritten, s.files_eq_setFiles u kind]
  cases s.written u kind with
  | none => rfl
  | some f => exact set_set_self u f.1 (.file f.2)

/-- An attempt keeps every settled chart settled. -/
theorem Settled.renderChart {s : Settings} {t u : FileTree} (hlog : s.LogKept t)
    (h : s.SameCharts t u) {b : ChartKind} (hb : s.Settled u b) (a : ChartKind) :
    s.Settled (s.renderChart u a).files b := by
  by_cases hab : a = b
  · rw [← hab]
    exact settled_renderChart_self hlog h a
  have hwritten : s.written (s.renderChart u a).files b = s.written u b :=
    ((h.renderChart hlog a).written b).trans (h.written b).symm
  rw [Settled, s.files_eq_setFiles u b] at hb
  rw [Settled, s.files_eq_setFiles _ b, hwritten, s.files_eq_setFiles u a]
  cases hwa : s.written u a with
  | none => exact hb
  | some f =>
    cases hwb : s.written u b with
    | none => rfl
    | some g =>
      rw [hwb] at hb
      exact set_set_of_set_eq_self (written_ne hab hwa hwb) (.file f.2) hb

/-! ## The text of a run -/

/-- What a run answers and writes depends on the outcomes of its attempts alone. -/
theorem runFrom_congr (s : Settings) (xs : List Attempted) :
    ∀ {ys : List Attempted} {t u : FileTree} {sink : Sink} {journal journal' : Journal}
      {done : List (ChartKind × Outcome)},
      xs.map (fun a => (a.kind, a.outcome)) = ys.map (fun a => (a.kind, a.outcome)) →
      (s.runFrom t sink journal done xs).result = (s.runFrom u sink journal' done ys).result ∧
        (s.runFrom t sink journal done xs).sink = (s.runFrom u sink journal' done ys).sink := by
  induction xs with
  | nil =>
    intro ys t u sink journal journal' done hxs
    obtain rfl := List.map_eq_nil_iff.mp hxs.symm
    exact ⟨rfl, rfl⟩
  | cons a xs ih =>
    intro ys t u sink journal journal' done hxs
    obtain ⟨b, ys, rfl, hb, hys⟩ := List.map_eq_cons_iff.mp hxs.symm
    obtain ⟨hkind, houtcome⟩ := Prod.mk.inj hb
    cases ha : a.outcome with
    | none =>
      rw [s.runFrom_cons_of_none ha, s.runFrom_cons_of_none (houtcome.trans ha)]
      exact ⟨rfl, rfl⟩
    | some o =>
      have hb := houtcome.trans ha
      cases hw : sink.write (o.status a.kind) with
      | mk result behind =>
        cases result with
        | error e =>
          rw [s.runFrom_cons_of_error ha hw, s.runFrom_cons_of_error hb (hkind ▸ hw)]
          exact ⟨rfl, rfl⟩
        | ok =>
          rw [s.runFrom_cons_of_ok ha hw, s.runFrom_cons_of_ok hb (hkind ▸ hw), hkind]
          exact ih hys.symm

/-- Where the charts come out alike, so do the attempts of a run. -/
theorem SameCharts.attempts {s : Settings} {t : FileTree} (hlog : s.LogKept t)
    (kinds : List ChartKind) : ∀ {u v : FileTree}, s.SameCharts t u → s.SameCharts t v →
      (s.attempts u kinds).map (fun a => (a.kind, a.outcome))
        = (s.attempts v kinds).map (fun a => (a.kind, a.outcome)) := by
  induction kinds with
  | nil => exact fun _ _ => rfl
  | cons kind rest ih =>
    intro u v hu hv
    have hsame : ((s.renderChart u kind).kind, (s.renderChart u kind).outcome)
        = ((s.renderChart v kind).kind, (s.renderChart v kind).outcome) :=
      congrArg (Prod.mk kind) ((hu.outcome kind).trans (hv.outcome kind).symm)
    cases ho : (s.renderChart t kind).outcome with
    | none =>
      rw [attempts_cons_of_none ((hu.outcome kind).trans ho),
        attempts_cons_of_none ((hv.outcome kind).trans ho), List.map_singleton,
        List.map_singleton, hsame]
    | some o =>
      rw [attempts_cons_of_some ((hu.outcome kind).trans ho),
        attempts_cons_of_some ((hv.outcome kind).trans ho), List.map_cons, List.map_cons, hsame,
        ih (hu.renderChart hlog kind) (hv.renderChart hlog kind)]

/-- Where the charts come out alike, runs answer and write the same. -/
theorem SameCharts.run {s : Settings} {t u : FileTree} (hlog : s.LogKept t)
    (h : s.SameCharts t u) (sink : Sink) :
    (s.run u sink).result = (s.run t sink).result ∧ (s.run u sink).sink = (s.run t sink).sink :=
  s.runFrom_congr (s.attempts u ChartKind.all)
    (SameCharts.attempts hlog ChartKind.all h (SameCharts.refl s t))

/-! ## Attempts one after another -/

/-- The files behind attempts at some charts, each on the files behind the one before. -/
def renderAll (s : Settings) (t : FileTree) (kinds : List ChartKind) : FileTree :=
  kinds.foldl (fun t kind => (s.renderChart t kind).files) t

theorem SameCharts.renderAll {s : Settings} {t : FileTree} (hlog : s.LogKept t)
    (kinds : List ChartKind) : ∀ {u : FileTree}, s.SameCharts t u →
      s.SameCharts t (s.renderAll u kinds) := by
  induction kinds with
  | nil => exact fun h => h
  | cons kind rest ih => exact fun h => ih (h.renderChart hlog kind)

theorem Settled.renderAll {s : Settings} {t : FileTree} (hlog : s.LogKept t) {b : ChartKind}
    (kinds : List ChartKind) : ∀ {u : FileTree}, s.SameCharts t u → s.Settled u b →
      s.Settled (s.renderAll u kinds) b := by
  induction kinds with
  | nil => exact fun _ hb => hb
  | cons kind rest ih =>
    exact fun h hb => ih (h.renderChart hlog kind) (hb.renderChart hlog h kind)

/-- All charts that were attempted are settled. -/
theorem settled_renderAll {s : Settings} {t : FileTree} (hlog : s.LogKept t)
    (kinds : List ChartKind) : ∀ {u : FileTree}, s.SameCharts t u →
      ∀ kind ∈ kinds, s.Settled (s.renderAll u kinds) kind := by
  induction kinds with
  | nil => exact fun _ _ hkind => absurd hkind List.not_mem_nil
  | cons a rest ih =>
    intro u h kind hkind
    have hbehind := h.renderChart hlog a
    rcases List.mem_cons.mp hkind with rfl | hkind
    · exact (settled_renderChart_self hlog h kind).renderAll hlog rest hbehind
    · exact ih hbehind kind hkind

/-- Attempts at settled charts change nothing. -/
theorem renderAll_of_settled {s : Settings} {u : FileTree} {kinds : List ChartKind}
    (h : ∀ kind ∈ kinds, s.Settled u kind) : s.renderAll u kinds = u := by
  induction kinds with
  | nil => rfl
  | cons kind rest ih =>
    have hself : (s.renderChart u kind).files = u := h kind List.mem_cons_self
    rw [Settings.renderAll, List.foldl_cons, hself]
    exact ih fun b hb => h b (List.mem_cons_of_mem kind hb)

/-! ## The files of a run -/

/-- The charts that a run comes to, by the lines that it writes about them.  The one
whose line is refused is the last, and so is one that is drawn for ever and has no line. -/
def comesTo (line : ChartKind → Option String) : Sink → List ChartKind → List ChartKind
  | _, [] => []
  | sink, kind :: rest =>
      kind :: match line kind with
        | none => []
        | some text =>
            match sink.write text with
            | (.ok (), sink) => comesTo line sink rest
            | (.error _, _) => []

section

variable {line : ChartKind → Option String} {sink behind : Sink} {kind : ChartKind}
  (rest : List ChartKind) {text : String}

theorem comesTo_cons_of_none (h : line kind = none) :
    comesTo line sink (kind :: rest) = [kind] := by
  rw [comesTo, h]

theorem comesTo_cons_of_ok (h : line kind = some text) (hw : sink.write text = (.ok (), behind)) :
    comesTo line sink (kind :: rest) = kind :: comesTo line behind rest := by
  rw [comesTo, h]
  simp only [hw]

theorem comesTo_cons_of_error (h : line kind = some text) {e : SystemError}
    (hw : sink.write text = (.error e, behind)) :
    comesTo line sink (kind :: rest) = [kind] := by
  rw [comesTo, h]
  simp only [hw]

end

/-- The line about a chart on a tree. -/
def lineOn (s : Settings) (t : FileTree) (kind : ChartKind) : Option String :=
  (s.renderChart t kind).outcome.map (·.status kind)

theorem lineOn_eq_none {s : Settings} {t : FileTree} {kind : ChartKind}
    (h : (s.renderChart t kind).outcome = none) : s.lineOn t kind = none := by
  rw [lineOn, h, Option.map_none]

theorem lineOn_eq_some {s : Settings} {t : FileTree} {kind : ChartKind} {o : Outcome}
    (h : (s.renderChart t kind).outcome = some o) :
    s.lineOn t kind = some (o.status kind) := by
  rw [lineOn, h, Option.map_some]

/-- A run leaves behind what the attempts at the charts leave behind that it comes to. -/
theorem files_runFrom {s : Settings} {t : FileTree} (hlog : s.LogKept t)
    (kinds : List ChartKind) :
    ∀ {u : FileTree} {sink : Sink} {journal : Journal} {done : List (ChartKind × Outcome)},
      s.SameCharts t u → (s.runFrom u sink journal done (s.attempts u kinds)).files
        = s.renderAll u (comesTo (s.lineOn t) sink kinds) := by
  induction kinds with
  | nil => exact fun _ => rfl
  | cons kind rest ih =>
    intro u sink journal done h
    cases ho : (s.renderChart t kind).outcome with
    | none =>
      have ho' := (h.outcome kind).trans ho
      rw [attempts_cons_of_none ho', s.runFrom_cons_of_none ho',
        comesTo_cons_of_none rest (lineOn_eq_none ho)]
      rfl
    | some o =>
      have ho' := (h.outcome kind).trans ho
      rw [attempts_cons_of_some ho']
      cases hw : sink.write (o.status kind) with
      | mk result behind =>
        cases result with
        | error e =>
          rw [s.runFrom_cons_of_error ho' hw, comesTo_cons_of_error rest (lineOn_eq_some ho) hw]
          rfl
        | ok =>
          rw [s.runFrom_cons_of_ok ho' hw, comesTo_cons_of_ok rest (lineOn_eq_some ho) hw]
          exact ih (h.renderChart hlog kind)

theorem eq_of_finish_eq_ok {s : Settings} {summary x : Summary} {t : FileTree} {sink : Sink}
    {journal : Journal} (h : (s.finish summary t sink journal).result = some (.ok x)) :
    x = summary := by
  unfold finish at h
  have h := Option.some.inj h
  simp only [Except.bind_eq_ok_iff] at h
  obtain ⟨_, _, _, _, h⟩ := h
  exact (Except.ok.inj h).symm

/-- A run that ends well came to all its charts and answers their outcomes. -/
theorem comesTo_of_ok {s : Settings} {t : FileTree} (hlog : s.LogKept t) {x : Summary}
    (kinds : List ChartKind) :
    ∀ {u : FileTree} {sink : Sink} {journal : Journal} {done : List (ChartKind × Outcome)},
      s.SameCharts t u →
      (s.runFrom u sink journal done (s.attempts u kinds)).result = some (.ok x) →
      comesTo (s.lineOn t) sink kinds = kinds ∧
        x.outcomes.map (fun o => (o.1, some o.2)) = done.map (fun o => (o.1, some o.2))
          ++ kinds.map fun kind => (kind, (s.renderChart t kind).outcome) := by
  induction kinds with
  | nil =>
    intro u sink journal done _ hok
    refine ⟨rfl, ?_⟩
    rw [eq_of_finish_eq_ok hok, List.map_nil, List.append_nil]
  | cons kind rest ih =>
    intro u sink journal done h hok
    cases ho : (s.renderChart t kind).outcome with
    | none =>
      have ho' := (h.outcome kind).trans ho
      rw [attempts_cons_of_none ho', s.runFrom_cons_of_none ho'] at hok
      cases hok
    | some o =>
      have ho' := (h.outcome kind).trans ho
      rw [attempts_cons_of_some ho'] at hok
      cases hw : sink.write (o.status kind) with
      | mk result behind =>
        cases result with
        | error e =>
          rw [s.runFrom_cons_of_error ho' hw] at hok
          cases hok
        | ok =>
          rw [s.runFrom_cons_of_ok ho' hw] at hok
          obtain ⟨hall, houtcomes⟩ := ih (h.renderChart hlog kind) hok
          rw [comesTo_cons_of_ok rest (lineOn_eq_some ho) hw, hall]
          refine ⟨rfl, ?_⟩
          rw [houtcomes, List.map_append, List.append_assoc, List.map_singleton, List.map_cons, ho]
          rfl

/-! ## Requests -/

/-- What can be asked of a report: a run into a sink, or an attempt at one chart. -/
inductive Request where
  | run (sink : Sink)
  | render (kind : ChartKind)

/-- The files behind a request. -/
def Request.files (s : Settings) (t : FileTree) : Request → FileTree
  | run sink => (s.run t sink).files
  | render kind => (s.renderChart t kind).files

/-- The files behind some requests, one after another. -/
def filesBehind (s : Settings) (t : FileTree) (requests : List Request) : FileTree :=
  requests.foldl (Request.files s) t

/-- No request changes a tree on which all charts are settled. -/
theorem filesBehind_of_settled {s : Settings} {t u : FileTree} (hlog : s.LogKept t)
    (h : s.SameCharts t u) (hsettled : ∀ kind, s.Settled u kind) (requests : List Request) :
    s.filesBehind u requests = u := by
  induction requests with
  | nil => rfl
  | cons request rest ih =>
    have hfiles : request.files s u = u := by
      cases request with
      | run sink =>
        exact (files_runFrom hlog ChartKind.all h).trans
          (renderAll_of_settled fun kind _ => hsettled kind)
      | render kind => exact hsettled kind
    rw [filesBehind, List.foldl_cons, hfiles]
    exact ih

/-- A report that is run again does what it did before.

A second run into the same sink gives the same answer, with the same outcomes, writes the
same text and leaves the files exactly as the first run left them, and every chart that is
attempted alone has the outcome that it had before the first run.  If the first run came
to its end, no request changes the files any more, in whatever order and however often
runs and single charts are asked for.  Where all axes have finite spans, a run ends well into
a sink that takes everything.

The resource log must not be one of the images; where it is, the first run replaces the
samples that the second one is to read. -/
theorem run_again (s : Settings) (t : FileTree) (sink : Sink) (hlog : s.LogKept t) :
    let r := s.run t sink
    let again := s.run r.files sink
    again.result = r.result ∧ again.sink = r.sink ∧ again.files = r.files ∧
    (∀ kind, (s.renderChart r.files kind).outcome = (s.renderChart t kind).outcome) ∧
    (∀ summary, r.result = some (.ok summary) →
      summary.outcomes.map (fun o => (o.1, some o.2)) =
        [(.latency, (s.renderChart t .latency).outcome),
          (.stability, (s.renderChart t .stability).outcome),
          (.resources, (s.renderChart t .resources).outcome)] ∧
      ∀ requests, s.filesBehind r.files requests = r.files) ∧
    ((∀ kind, s.DrawingEnds t kind) → sink.capacity = none → sink.flushError = none →
      ∃ summary, r.result = some (.ok summary)) := by
  intro r again
  have hself := SameCharts.refl s t
  have hfiles : r.files = s.renderAll t (comesTo (s.lineOn t) sink ChartKind.all) :=
    files_runFrom hlog ChartKind.all hself
  have hsame : s.SameCharts t r.files := by
    rw [hfiles]
    exact hself.renderAll hlog _
  have hsettled : ∀ kind ∈ comesTo (s.lineOn t) sink ChartKind.all, s.Settled r.files kind := by
    rw [hfiles]
    exact settled_renderAll hlog _ hself
  obtain ⟨hresult, hsink⟩ := hsame.run hlog sink
  refine ⟨hresult, hsink, ?_, hsame.outcome, ?_, ?_⟩
  · exact (files_runFrom hlog ChartKind.all hsame).trans (renderAll_of_settled hsettled)
  · intro summary hok
    obtain ⟨hall, houtcomes⟩ := comesTo_of_ok hlog ChartKind.all hself hok
    refine ⟨houtcomes, filesBehind_of_settled hlog hsame fun kind => hsettled kind ?_⟩
    rw [hall]
    cases kind <;> decide
  · intro hends hcapacity hflush
    have hall : s.DrawingsEnd t ChartKind.all :=
      (drawingsEnd_all_iff fun kind _ => hlog kind).mpr hends
    obtain ⟨outcomes, houtcomes, -⟩ := exists_outcomes hall
    have hunlimited : sink = { written := sink.written, full := sink.full } := by
      rw [← hcapacity, ← hflush]
    obtain ⟨hok, -⟩ := s.run_of_unlimited t sink.written sink.full none
    rw [← hunlimited, houtcomes] at hok
    exact ⟨_, hok⟩

theorem logKept_standard (t : FileTree) : standard.LogKept t :=
  fun kind => not_leadsTo_image_standard t kind

/-- Two runs over an image of an older report and a log that cannot be decoded. -/
theorem run_again_standard :
    let t : FileTree :=
      { entries :=
          [(["Chart2_Stability.svg"], .file [60]), (["resource_log.csv"], .file [116, 10, 120])] }
    let r := standard.run t {}
    standard.LogKept t ∧ ∃ summary, r.result = some (.ok summary) ∧
      (standard.run r.files {}).result = some (.ok summary) ∧
      (standard.run r.files {}).files = r.files ∧
      ∀ requests, standard.filesBehind r.files requests = r.files := by
  intro t r
  have hkept := logKept_standard t
  have hends : ∀ kind, standard.DrawingEnds t kind := by
    intro kind
    cases kind with
    | latency => exact (drawingEnds_standard t).1
    | stability => exact (drawingEnds_standard t).2
    | resources =>
      intro _ f hf
      have hlookup : t.lookup standard.resourceLog = .ok (.file [116, 10, 120]) := rfl
      have hbad : (ResourceLog.Decoder.ofSource { reads := [[116, 10, 120]] }).decode.1.toOption
          = none := by
        decide +kernel
      rw [figure, ResourceLog.openLog_of_file_at_once hlookup] at hf
      cases hrows : (ResourceLog.Decoder.ofSource { reads := [[116, 10, 120]] }).decode.1 with
      | ok samples =>
        rw [hrows] at hbad
        cases hbad
      | error e =>
        rw [hrows] at hf
        cases hf
  obtain ⟨hresult, _, hfiles, _, hok, hwell⟩ := run_again standard t {} hkept
  obtain ⟨summary, hsummary⟩ := hwell hends rfl rfl
  exact ⟨hkept, summary, hsummary, hresult.trans hsummary, hfiles, (hok summary hsummary).2⟩

end BenchCharts.Settings
