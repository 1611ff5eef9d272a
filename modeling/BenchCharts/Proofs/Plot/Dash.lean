import BenchCharts.Plot.Dash
import BenchCharts.Proofs.Binary.Rank

/-!
# Dashes lie on their line

What a dashed line is can be said without a pen.  A `Stroke` is a straight move towards a
corner of the line.  The strokes of a line lead through all its corners, one after another
(`Route`), and put end to end they are pieces that are a dash and a gap in turn, each as long
as the pattern says (`Alternates`).  What is drawn are the strokes of the dashes (`drawn`).

A pen that comes to the end of its line draws the dashes of such pieces
(`exists_pieces_of_dashesEnd`).  One step of the pen is one stroke (`Pen.step_eq`), and the
proof puts the strokes of a trace together from the last one to the first.
-/

namespace BenchCharts.Plot

open Canvas

/-! ## Dashed lines -/

/-- A straight move towards a corner of a line. -/
structure Stroke where
  start : PenPoint
  corner : PenPoint
  length : Single

namespace Stroke

/-- The way from the start to the corner. -/
def way (s : Stroke) : Single := s.start.distance s.corner

/-- The end of a stroke lies on its way, at the share that the length has of it. -/
def stop (s : Stroke) : PenPoint :=
  if s.length < s.way then s.start.toward s.corner (s.length / s.way) else s.corner

end Stroke

/-- The strokes lead from a point through corners, one after another. -/
inductive Route : PenPoint → List PenPoint → List Stroke → Prop
  | done (p : PenPoint) : Route p [] []
  | turn {p corner : PenPoint} {corners : List PenPoint} {strokes : List Stroke}
      (hthere : p.same corner = true) (hrest : Route p corners strokes) :
      Route p (corner :: corners) strokes
  | go {s : Stroke} {corners : List PenPoint} {strokes : List Stroke}
      (haway : s.start.same s.corner = false)
      (hrest : Route s.stop (s.corner :: corners) strokes) :
      Route s.start (s.corner :: corners) (s :: strokes)

/-- The strokes of a piece of the given length, from where `covered` of it lies behind to
where `total` does.  Each goes to its corner, or as far as the piece reaches. -/
inductive Covers (length : Single) : Single → List Stroke → Single → Prop
  | done (covered : Single) : Covers length covered [] covered
  | go {covered total : Single} {s : Stroke} {strokes : List Stroke}
      (hopen : ¬length ≤ covered)
      (hlength : s.length = if length - covered < s.way then length - covered else s.way)
      (hrest : Covers length (covered + s.length) strokes total) :
      Covers length covered (s :: strokes) total

/-- The pieces are a dash and a gap in turn, or a gap and a dash.  Of the first one, `covered`
lies behind, and the last one is not complete. -/
inductive Alternates (pattern : DashPattern) : Bool → Single → List (List Stroke) → Prop
  | last {dash : Bool} {covered total : Single} {piece : List Stroke}
      (hcovers : Covers (pattern.length dash) covered piece total)
      (hopen : ¬pattern.length dash ≤ total) : Alternates pattern dash covered [piece]
  | next {dash : Bool} {covered total : Single} {piece : List Stroke}
      {pieces : List (List Stroke)}
      (hcovers : Covers (pattern.length dash) covered piece total)
      (hcomplete : pattern.length dash ≤ total) (hrest : Alternates pattern (!dash) 0 pieces) :
      Alternates pattern dash covered (piece :: pieces)

/-- The path along the strokes of a piece, if it has any. -/
def pathAlong : List Stroke → List (List Pixel)
  | [] => []
  | s :: strokes => [s.start.toPixel :: (s :: strokes).map (·.stop.toPixel)]

/-- The paths of the pieces that are dashes; the first one is, or the second one. -/
def drawn : Bool → List (List Stroke) → List (List Pixel)
  | _, [] => []
  | true, piece :: pieces => pathAlong piece ++ drawn false pieces
  | false, _ :: pieces => drawn true pieces

theorem Route.start_eq {p : PenPoint} {corners : List PenPoint} {s : Stroke}
    {strokes : List Stroke} (h : Route p corners (s :: strokes)) : s.start = p := by
  generalize hall : s :: strokes = all at h
  induction h with
  | done => cases hall
  | turn _ _ ih => exact ih hall
  | go =>
    cases hall
    rfl

/-! ## One step of a pen -/

variable {pattern : DashPattern}

namespace Pen

variable {pen : Pen} {corner : PenPoint}

/-- The stroke that is the next move of a pen. -/
def stroke (pattern : DashPattern) (corner : PenPoint) (pen : Pen) : Stroke where
  start := pen.point
  corner := corner
  length :=
    if pattern.length pen.down - pen.covered < pen.point.distance corner then
      pattern.length pen.down - pen.covered
    else pen.point.distance corner

theorem move_eq (pattern : DashPattern) (corner : PenPoint) (pen : Pen) :
    pen.move pattern corner =
      { pen with
        point := (pen.stroke pattern corner).stop
        covered := pen.covered + (pen.stroke pattern corner).length } := by
  by_cases h : pattern.length pen.down - pen.covered < pen.point.distance corner
  · simp only [move, target, stroke, Stroke.stop, Stroke.way, h, ↓reduceIte]
  · have hself := Binary.lt_irrefl (pen.point.distance corner)
    simp only [move, target, stroke, Stroke.stop, Stroke.way, h, hself, ↓reduceIte]

theorem length_stroke (pattern : DashPattern) (corner : PenPoint) (pen : Pen) :
    (pen.stroke pattern corner).length
      = if pattern.length pen.down - pen.covered < (pen.stroke pattern corner).way
        then pattern.length pen.down - pen.covered else (pen.stroke pattern corner).way := by
  rw [stroke, Stroke.way]

section Step

variable {s : Stroke}

/-- A stroke that does not complete its piece. -/
theorem step_of_open (hs : pen.stroke pattern corner = s)
    (h : ¬pattern.length pen.down ≤ pen.covered + s.length) :
    pen.step pattern corner =
      { pen with
        point := s.stop
        covered := pen.covered + s.length
        path := if pen.down then s.stop.toPixel :: pen.path else pen.path } := by
  rw [step, move_eq, hs]
  cases hdown : pen.down <;> rw [hdown] at h <;>
    simp only [mark, switch, target, h, ↓reduceIte, Bool.false_eq_true]

/-- A stroke that completes a dash. -/
theorem step_of_dash (hs : pen.stroke pattern corner = s) (hdown : pen.down = true)
    (h : pattern.length true ≤ pen.covered + s.length) :
    pen.step pattern corner =
      { point := s.stop, covered := 0, down := false, path := []
        paths := (s.stop.toPixel :: pen.path).reverse :: pen.paths } := by
  rw [step, move_eq, hs]
  simp only [mark, switch, target, h, hdown, ↓reduceIte]

/-- A stroke that completes a gap. -/
theorem step_of_gap (hs : pen.stroke pattern corner = s) (hdown : pen.down = false)
    (h : pattern.length false ≤ pen.covered + s.length) :
    pen.step pattern corner =
      { point := s.stop, covered := 0, down := true, path := s.stop.toPixel :: pen.path
        paths := pen.paths } := by
  rw [step, move_eq, hs]
  simp only [mark, switch, target, h, hdown, ↓reduceIte, Bool.false_eq_true]

/-- A stroke that completes a dash or a gap begins the other one. -/
theorem step_of_complete (hs : pen.stroke pattern corner = s)
    (h : pattern.length pen.down ≤ pen.covered + s.length) :
    (pen.step pattern corner).point = s.stop ∧ (pen.step pattern corner).covered = 0 ∧
      (pen.step pattern corner).down = !pen.down := by
  cases hdown : pen.down with
  | true =>
    rw [step_of_dash hs hdown (hdown ▸ h)]
    exact ⟨rfl, rfl, rfl⟩
  | false =>
    rw [step_of_gap hs hdown (hdown ▸ h)]
    exact ⟨rfl, rfl, rfl⟩

end Step

/-- The place of a lowered pen is on its path, and the dash or gap is not complete. -/
structure Drawing (pattern : DashPattern) (pen : Pen) : Prop where
  lowered : pen.down = true → ∃ older, pen.path = pen.point.toPixel :: older
  lifted : pen.down = false → pen.path = []
  unfinished : ¬pattern.length pen.down ≤ pen.covered

theorem drawing_lowered (hpattern : ∀ dash, ¬pattern.length dash ≤ 0) (p : Pixel) :
    (lowered p).Drawing pattern where
  lowered _ := ⟨[], rfl⟩
  lifted := nofun
  unfinished := hpattern true

theorem drawing_step (hpattern : ∀ dash, ¬pattern.length dash ≤ 0) (h : pen.Drawing pattern)
    (corner : PenPoint) : (pen.step pattern corner).Drawing pattern := by
  obtain ⟨s, hs⟩ : ∃ s, pen.stroke pattern corner = s := ⟨_, rfl⟩
  by_cases hcomplete : pattern.length pen.down ≤ pen.covered + s.length
  · cases hdown : pen.down with
    | true =>
      rw [step_of_dash hs hdown (hdown ▸ hcomplete)]
      exact ⟨nofun, fun _ => rfl, hpattern false⟩
    | false =>
      rw [step_of_gap hs hdown (hdown ▸ hcomplete)]
      exact ⟨fun _ => ⟨_, rfl⟩, nofun, hpattern true⟩
  · rw [step_of_open hs hcomplete]
    refine ⟨fun hdown => ?_, fun hdown => ?_, hcomplete⟩
    · dsimp only at hdown ⊢
      rw [hdown]
      exact ⟨_, rfl⟩
    · dsimp only at hdown ⊢
      rw [hdown]
      exact h.lifted hdown

/-! ## The pieces of a trace -/

/-- The path of a lowered pen with the strokes of the piece that it goes on with. -/
def pathOn (pen : Pen) (piece : List Stroke) : List (List Pixel) :=
  let path := pen.path.reverse ++ piece.map (·.stop.toPixel)
  if 1 < path.length then [path] else []

/-- From the first pen to the second one, the strokes lead through the corners in pieces of
which the dashes are drawn. -/
def Leads (pattern : DashPattern) (pen : Pen) (corners : List PenPoint) (last : Pen) : Prop :=
  ∃ piece pieces,
    Route pen.point corners (piece ++ pieces.flatten)
      ∧ Alternates pattern pen.down pen.covered (piece :: pieces)
      ∧ last.finish = pen.paths.reverse ++ (if pen.down then pen.pathOn piece else [])
          ++ drawn (!pen.down) pieces

theorem leads_nil (h : pen.Drawing pattern) : pen.Leads pattern [] pen := by
  refine ⟨[], [], .done _, .last (.done _) h.unfinished, ?_⟩
  rw [finish, pathOn, List.map_nil, List.append_nil, List.length_reverse, drawn, List.append_nil]
  cases hdown : pen.down with
  | true =>
    split
    · rw [List.reverse_cons]
      rfl
    · exact (List.append_nil _).symm
  | false =>
    rw [h.lifted hdown]
    exact (List.append_nil _).symm

theorem leads_turn {corners : List PenPoint} {last : Pen} (hthere : pen.point.same corner = true)
    (h : pen.Leads pattern corners last) : pen.Leads pattern (corner :: corners) last := by
  obtain ⟨piece, pieces, hroute, halternates, hfinish⟩ := h
  exact ⟨piece, pieces, .turn hthere hroute, halternates, hfinish⟩

/-- The path of a pen that has just been lowered. -/
theorem pathOn_eq_pathAlong {corners : List PenPoint} {piece rest : List Stroke}
    (hpath : pen.path = [pen.point.toPixel]) (hroute : Route pen.point corners (piece ++ rest)) :
    pen.pathOn piece = pathAlong piece := by
  cases piece with
  | nil =>
    rw [pathOn, hpath]
    rfl
  | cons s strokes =>
    rw [pathOn, hpath, pathAlong, hroute.start_eq]
    rfl

theorem leads_step {corners : List PenPoint} {last : Pen} (hdrawing : pen.Drawing pattern)
    (haway : pen.point.same corner = false)
    (h : (pen.step pattern corner).Leads pattern (corner :: corners) last) :
    pen.Leads pattern (corner :: corners) last := by
  obtain ⟨s, hs⟩ : ∃ s, pen.stroke pattern corner = s := ⟨_, rfl⟩
  have hlength := length_stroke pattern corner pen
  have hgo {strokes : List Stroke} (hrest : Route s.stop (corner :: corners) strokes) :
      Route pen.point (corner :: corners) (s :: strokes) := by
    subst hs
    exact .go (s := pen.stroke pattern corner) haway hrest
  rw [hs] at hlength
  obtain ⟨piece, pieces, hroute, halternates, hfinish⟩ := h
  by_cases hcomplete : pattern.length pen.down ≤ pen.covered + s.length
  · -- the stroke is the last one of its piece
    have hpiece : Covers (pattern.length pen.down) pen.covered [s] (pen.covered + s.length) :=
      .go hdrawing.unfinished hlength (.done _)
    cases hdown : pen.down with
    | true =>
      rw [hdown] at hcomplete hpiece
      rw [step_of_dash hs hdown hcomplete] at hroute halternates hfinish
      refine ⟨[s], piece :: pieces, hgo hroute, ?_, ?_⟩
      · rw [hdown]
        exact .next hpiece hcomplete halternates
      · obtain ⟨older, holder⟩ := hdrawing.lowered hdown
        have hpath : pen.pathOn [s] = [(s.stop.toPixel :: pen.path).reverse] := by
          simp [pathOn, holder]
        rw [hfinish, hdown, if_pos rfl, hpath]
        simp [drawn]
    | false =>
      rw [hdown] at hcomplete hpiece
      rw [step_of_gap hs hdown hcomplete] at hroute halternates hfinish
      refine ⟨[s], piece :: pieces, hgo hroute, ?_, ?_⟩
      · rw [hdown]
        exact .next hpiece hcomplete halternates
      · rw [hfinish, hdown, if_neg Bool.false_ne_true, List.append_nil,
          pathOn_eq_pathAlong (by rw [hdrawing.lifted hdown]) hroute, List.append_assoc]
        rfl
  · rw [step_of_open hs hcomplete] at hroute halternates hfinish
    refine ⟨s :: piece, pieces, hgo hroute, ?_, ?_⟩
    · cases halternates with
      | last hcovers hopen => exact .last (.go hdrawing.unfinished hlength hcovers) hopen
      | next hcovers hcomplete hrest =>
        exact .next (.go hdrawing.unfinished hlength hcovers) hcomplete hrest
    · rw [hfinish]
      cases hdown : pen.down with
      | false => rfl
      | true => simp [pathOn]

theorem leads_walk (hpattern : ∀ dash, ¬pattern.length dash ≤ 0) {corners : List PenPoint}
    {last : Pen} (fuel : Nat) (hdrawing : pen.Drawing pattern)
    (hthere : (pen.walk pattern corner fuel).point.same corner = true)
    (h : (pen.walk pattern corner fuel).Drawing pattern →
      (pen.walk pattern corner fuel).Leads pattern corners last) :
    pen.Leads pattern (corner :: corners) last := by
  induction fuel generalizing pen with
  | zero => exact leads_turn hthere (h hdrawing)
  | succ fuel ih =>
    rw [walk] at hthere h
    cases hsame : pen.point.same corner with
    | true =>
      rw [if_pos hsame] at h
      exact leads_turn hsame (h hdrawing)
    | false =>
      rw [hsame, if_neg Bool.false_ne_true] at hthere h
      exact leads_step hdrawing hsame (ih (drawing_step hpattern hdrawing corner) hthere h)

theorem leads_trace (hpattern : ∀ dash, ¬pattern.length dash ≤ 0) {pixel : Pixel}
    {pixels : List Pixel} (hdrawing : pen.Drawing pattern)
    (harrives : pen.arrives pattern pixel pixels = true) :
    pen.Leads pattern (pixels.map .ofPixel) (pen.trace pattern pixel pixels) := by
  induction pixels generalizing pen pixel with
  | nil => exact leads_nil hdrawing
  | cons p pixels ih =>
    rw [arrives, Bool.and_eq_true] at harrives
    exact leads_walk hpattern _ hdrawing harrives.1 fun hdrawing => ih hdrawing harrives.2

end Pen

/-- If the pen comes to the end of a line, what is drawn are the dashes of pieces that lead from
its first pixel through all others. -/
theorem exists_pieces_of_dashesEnd (hpattern : ∀ dash, ¬pattern.length dash ≤ 0) {first : Pixel}
    {rest : List Pixel} (h : dashesEnd pattern (first :: rest) = true) :
    ∃ pieces, Route (.ofPixel first) (rest.map .ofPixel) pieces.flatten
      ∧ Alternates pattern true 0 pieces
      ∧ dashes pattern (first :: rest) = drawn true pieces := by
  obtain ⟨piece, pieces, hroute, halternates, hfinish⟩ :=
    Pen.leads_trace hpattern (Pen.drawing_lowered hpattern first) h
  refine ⟨piece :: pieces, hroute, halternates, hfinish.trans ?_⟩
  rw [Pen.pathOn_eq_pathAlong rfl hroute]
  rfl

end BenchCharts.Plot
