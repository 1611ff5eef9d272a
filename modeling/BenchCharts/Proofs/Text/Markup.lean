import BenchCharts.Text.Markup
import Mathlib.Data.List.Basic

/-!
# Reading markup

An escaped text has no markup in it: of the five characters with a meaning of their own
only the ampersand occurs, and only where it begins an entity.

`Reader` is a reader that knows no more of markup than that `<` begins a tag and `>` ends
it.  It takes a text apart into its tags and the texts in front of them.  `read_write` says
that a text put together from such pieces is taken apart into the same pieces; what it asks
for is that no text between tags holds a `<`, which escaped texts never do.
-/

namespace BenchCharts.Text.Markup

/-! ## Escaped texts -/

theorem encode_cons (c : Char) (cs : List Char) :
    encode (c :: cs) = (entity? c).getD [c] ++ encode cs :=
  List.flatMap_cons

/-- The entities and the characters that they stand for. -/
theorem entity?_eq_some_iff {c : Char} {e : List Char} :
    entity? c = some e ↔ c = '<' ∧ e = ['&', 'l', 't', ';'] ∨ c = '>' ∧ e = ['&', 'g', 't', ';'] ∨
      c = '&' ∧ e = ['&', 'a', 'm', 'p', ';'] ∨ c = '"' ∧ e = ['&', 'q', 'u', 'o', 't', ';'] ∨
      c = '\'' ∧ e = ['&', 'a', 'p', 'o', 's', ';'] := by
  unfold entity?
  split <;> simp_all [eq_comm]

/-- An entity is an ampersand and characters that are no markup. -/
theorem exists_of_entity?_eq_some {c : Char} {e : List Char} (h : entity? c = some e) :
    ∃ name, e = '&' :: name ∧ ∀ d ∈ name, entity? d = none := by
  rcases entity?_eq_some_iff.mp h with ⟨_, rfl⟩ | ⟨_, rfl⟩ | ⟨_, rfl⟩ | ⟨_, rfl⟩ | ⟨_, rfl⟩ <;>
    exact ⟨_, rfl, by simp [entity?]⟩

/-- What a character is written as: markup characters as their entities, others as they are. -/
theorem written_cases (c : Char) :
    (∃ name, entity? c = some ('&' :: name) ∧ ∀ d ∈ name, entity? d = none) ∨
      entity? c = none := by
  cases h : entity? c with
  | none => exact .inr rfl
  | some e =>
    obtain ⟨name, rfl, hname⟩ := exists_of_entity?_eq_some h
    exact .inl ⟨name, rfl, hname⟩

/-- The only markup character in an escaped text is the ampersand. -/
theorem eq_ampersand_of_mem_encode {cs : List Char} {d : Char} (hd : d ∈ encode cs)
    (hmarkup : entity? d ≠ none) : d = '&' := by
  obtain ⟨c, _, hmem⟩ := List.mem_flatMap.mp hd
  rcases written_cases c with ⟨name, hc, hname⟩ | hc
  · rw [hc, Option.getD_some] at hmem
    rcases List.mem_cons.mp hmem with hd | hd
    · exact hd
    · exact absurd (hname d hd) hmarkup
  · rw [hc, Option.getD_none] at hmem
    rw [List.mem_singleton.mp hmem] at hmarkup
    exact absurd hc hmarkup

/-- Where a character is written with an ampersand, that is the beginning of its entity. -/
theorem entity?_of_written_eq {c : Char} {before after : List Char}
    (h : (entity? c).getD [c] = before ++ '&' :: after) : entity? c = some ('&' :: after) := by
  rcases written_cases c with ⟨name, hc, hname⟩ | hc
  · rw [hc, Option.getD_some] at h
    cases before with
    | nil => rw [hc, h, List.nil_append]
    | cons b before =>
      have hmem : '&' ∈ name := by
        rw [(List.cons_eq_cons.mp h).2]
        exact List.mem_append_right before List.mem_cons_self
      cases hname '&' hmem
  · rw [hc, Option.getD_none] at h
    have hmem : '&' ∈ [c] := by
      rw [h]
      exact List.mem_append_right before List.mem_cons_self
    rw [← List.mem_singleton.mp hmem] at hc
    cases hc

/-- Every ampersand of an escaped text begins an entity. -/
theorem exists_entity_of_encode_eq (cs : List Char) :
    ∀ {before after : List Char}, encode cs = before ++ '&' :: after →
      ∃ c e, entity? c = some e ∧ e <+: '&' :: after := by
  induction cs with
  | nil =>
    intro before after h
    cases before <;> cases h
  | cons c cs ih =>
    intro before after h
    rw [encode_cons] at h
    rcases List.append_eq_append_iff.mp h with ⟨between, hbefore, hrest⟩ | ⟨between, hc, hrest⟩
    · exact ih hrest
    · cases between with
      | nil =>
        have hcs : encode cs = [] ++ '&' :: after := hrest.symm
        exact ih hcs
      | cons d between =>
        obtain ⟨rfl, rfl⟩ := List.cons_eq_cons.mp hrest
        exact ⟨c, _, entity?_of_written_eq hc, List.prefix_append _ _⟩

/-! ## Pieces of a document -/

/-- A tag without its brackets, and the text in front of it. -/
structure Piece where
  before : List Char
  tag : List Char

namespace Piece

def write (p : Piece) : List Char :=
  p.before ++ '<' :: p.tag ++ ['>']

/-- The text in front of the tag does not open one, and the tag does not end early. -/
def IsClean (p : Piece) : Prop :=
  '<' ∉ p.before ∧ '>' ∉ p.tag

end Piece

/-- A reader in the middle of a document: the pieces that it has finished, the text behind
them, and the beginning of the tag that it is in. -/
structure Reader where
  done : List Piece := []
  before : List Char := []
  tag : Option (List Char) := none

namespace Reader

/-- Takes the next character. -/
def step (r : Reader) (c : Char) : Reader :=
  match r.tag with
  | none => if c = '<' then { r with tag := some [] } else { r with before := r.before ++ [c] }
  | some tag =>
      if c = '>' then { done := r.done ++ [⟨r.before, tag⟩] }
      else { r with tag := some (tag ++ [c]) }

/-- Takes the characters of a text. -/
def read (r : Reader) (cs : List Char) : Reader :=
  cs.foldl step r

theorem read_append (r : Reader) (xs ys : List Char) :
    r.read (xs ++ ys) = (r.read xs).read ys :=
  List.foldl_append

/-- Between tags a text without `<` is passed over. -/
theorem read_text {cs : List Char} (h : '<' ∉ cs) :
    ∀ (done : List Piece) (before : List Char),
      (⟨done, before, none⟩ : Reader).read cs = ⟨done, before ++ cs, none⟩ := by
  induction cs with
  | nil =>
    intro done before
    rw [List.append_nil]
    rfl
  | cons c cs ih =>
    intro done before
    have hc : c ≠ '<' := fun hc => h (hc ▸ List.mem_cons_self)
    have hstep : (⟨done, before, none⟩ : Reader).step c = ⟨done, before ++ [c], none⟩ :=
      if_neg hc
    rw [read, List.foldl_cons, hstep]
    refine (ih (fun hmem => h (List.mem_cons_of_mem c hmem)) done _).trans ?_
    rw [List.append_assoc, List.singleton_append]

/-- Inside a tag a text without `>` belongs to the tag. -/
theorem read_inside {cs : List Char} (h : '>' ∉ cs) :
    ∀ (done : List Piece) (before tag : List Char),
      (⟨done, before, some tag⟩ : Reader).read cs = ⟨done, before, some (tag ++ cs)⟩ := by
  induction cs with
  | nil =>
    intro done before tag
    rw [List.append_nil]
    rfl
  | cons c cs ih =>
    intro done before tag
    have hc : c ≠ '>' := fun hc => h (hc ▸ List.mem_cons_self)
    have hstep : (⟨done, before, some tag⟩ : Reader).step c = ⟨done, before, some (tag ++ [c])⟩ :=
      if_neg hc
    rw [read, List.foldl_cons, hstep]
    refine (ih (fun hmem => h (List.mem_cons_of_mem c hmem)) done before _).trans ?_
    rw [List.append_assoc, List.singleton_append]

/-- A clean piece is read as it was written. -/
theorem read_piece {p : Piece} (h : p.IsClean) (done : List Piece) :
    (⟨done, [], none⟩ : Reader).read p.write = ⟨done ++ [p], [], none⟩ := by
  have hopen : (⟨done, p.before, none⟩ : Reader).read ['<'] = ⟨done, p.before, some []⟩ := rfl
  have hclose : (⟨done, p.before, some p.tag⟩ : Reader).read ['>'] = ⟨done ++ [p], [], none⟩ := rfl
  have hwrite : p.write = p.before ++ (['<'] ++ (p.tag ++ ['>'])) := by
    rw [Piece.write, List.append_assoc]
    rfl
  rw [hwrite, read_append, read_text h.1, List.nil_append, read_append, hopen, read_append,
    read_inside h.2, List.nil_append, hclose]

/-- Clean pieces are read as they were written. -/
theorem read_pieces {ps : List Piece} (h : ∀ p ∈ ps, p.IsClean) :
    ∀ done : List Piece,
      (⟨done, [], none⟩ : Reader).read (ps.flatMap Piece.write) = ⟨done ++ ps, [], none⟩ := by
  induction ps with
  | nil =>
    intro done
    rw [List.append_nil]
    rfl
  | cons p ps ih =>
    intro done
    obtain ⟨hp, hps⟩ := List.forall_mem_cons.mp h
    rw [List.flatMap_cons, read_append, read_piece hp, ih hps, List.append_assoc,
      List.singleton_append]

/-- A document of clean pieces with a text behind the last tag is taken apart into these
pieces and this text. -/
theorem read_write {ps : List Piece} (h : ∀ p ∈ ps, p.IsClean) {rest : List Char}
    (hrest : '<' ∉ rest) :
    ({} : Reader).read (ps.flatMap Piece.write ++ rest) = { done := ps, before := rest } := by
  rw [read_append, read_pieces h, List.nil_append, read_text hrest, List.nil_append]

end Reader

end BenchCharts.Text.Markup
