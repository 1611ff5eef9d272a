import BenchCharts.FileTree.Basic
import BenchCharts.Proofs.Except

/-!
# Replacing a file

What `FileTree.replace` does to a tree, location by location, and which paths
still lead to the same place behind it.

* `ReplacedAt` says that one location now holds a file with the given bytes and
  that all other locations are as they were.  `replace_eq_ok_iff` is the only
  fact about `replace` that a report needs.
* A replaced file was a file or nothing before, so directories stay what they
  are (`SameDirectories`), and a walk along a path that succeeded before ends at
  the same location (`locate_ok_congr`).  A walk that failed may fail for another
  reason: what was missing can now be a file.
* `ReplacedAt.lookup_ok_congr` and `ReplacedAt.target_join_congr` carry this over
  to the two questions that a report asks of a tree: what a path holds, and where
  a file can be written.
* `set_eq_self_iff` says when setting an entry changes nothing, not even the order
  of the entries.  It does not when the entry was set before, whatever was set at
  other locations since.
-/

namespace BenchCharts.FileTree

/-! ## One location replaced -/

/-- A file can be created or overwritten at a location. -/
def FileOrNothing (t : FileTree) (l : Location) : Prop :=
  t.get? l = none ∨ ∃ old, t.get? l = some (.file old)

/-- `after` is `before` with the file at one location created or replaced as a
whole.  No other location differs. -/
structure ReplacedAt (before after : FileTree) (l : Location) (content : List UInt8) :
    Prop where
  /-- The tree is the old one with one entry put in. -/
  tree : after = before.set l (.file content)
  /-- There was no directory and no socket. -/
  free : before.FileOrNothing l
  /-- The file holds the new bytes and no others. -/
  replaced : after.get? l = some (.file content)
  /-- Nothing else was added, removed or changed. -/
  others : ∀ m, m ≠ l → after.get? m = before.get? m

/-- A location with a file or nothing lies inside the tree. -/
theorem isOutside_eq_false {t : FileTree} {l : Location} (h : t.FileOrNothing l) :
    isOutside l = false := by
  cases hout : isOutside l with
  | false => rfl
  | true =>
    have hdir : t.get? l = some .directory := by rw [get?, if_pos hout]
    rcases h with h | ⟨old, h⟩ <;> rw [hdir] at h <;> cases h

/-- Setting a file where a file can be is a replacement. -/
theorem replacedAt_set {t : FileTree} {l : Location} (content : List UInt8)
    (h : t.FileOrNothing l) : ReplacedAt t (t.set l (.file content)) l content where
  tree := rfl
  free := h
  replaced := get?_set_self t l _ (isOutside_eq_false h)
  others := fun _ hm => get?_set_of_ne t _ (Ne.symm hm)

/-! ## Where paths lead -/

/-- The path names the entry at a location.  A path with a slash at its end names
directories only, so it leads to no place where a file could be. -/
def LeadsTo (t : FileTree) (path : String) (l : Location) : Prop :=
  ∃ p, Path.ofString path = .ok p ∧ p.asDirectory = false ∧ t.locate p = .ok l

theorem target_eq_ok_iff {t : FileTree} {path : String} {l : Location} :
    t.target path = .ok l ↔ t.LeadsTo path l ∧ t.FileOrNothing l := by
  unfold target LeadsTo FileOrNothing
  rw [Except.bind_eq_ok_iff]
  constructor
  · intro h
    rcases h with ⟨p, hp, h⟩
    cases hd : p.asDirectory with
    | true => simp [hd, Except.bind_eq_ok_iff] at h
    | false =>
      rw [hd, if_neg Bool.false_ne_true, Except.bind_eq_ok_iff] at h
      obtain ⟨m, hm, h⟩ := h
      cases hn : t.get? m with
      | none =>
        simp only [hn, Except.ok.injEq] at h
        exact ⟨⟨p, hp, hd, h ▸ hm⟩, Or.inl (h ▸ hn)⟩
      | some n =>
        cases n with
        | file old =>
          simp only [hn, Except.ok.injEq] at h
          exact ⟨⟨p, hp, hd, h ▸ hm⟩, Or.inr ⟨old, h ▸ hn⟩⟩
        | socket => simp [hn] at h
        | directory => simp [hn] at h
  · intro h
    rcases h with ⟨⟨p, hp, hd, hl⟩, hn⟩
    refine ⟨p, hp, ?_⟩
    rw [hd, if_neg Bool.false_ne_true, Except.bind_eq_ok_iff]
    refine ⟨l, hl, ?_⟩
    rcases hn with hn | ⟨old, hn⟩ <;> rw [hn]

theorem lookup_eq_ok_iff {t : FileTree} {path : String} {n : Node} :
    t.lookup path = .ok n ↔
      ∃ p l, Path.ofString path = .ok p ∧ t.locate p = .ok l ∧ t.get? l = some n ∧
        (n ≠ .directory → p.asDirectory = false) := by
  unfold lookup
  rw [Except.bind_eq_ok_iff]
  refine exists_congr fun p => ?_
  rw [Except.bind_eq_ok_iff, ← exists_and_left]
  refine exists_congr fun l => and_congr_right fun _ => and_congr_right fun _ => ?_
  cases hn : t.get? l with
  | none => simp
  | some m => cases m <;> cases hd : p.asDirectory <;> cases n <;> simp

/-- Writing a file replaces it at the target of its path. -/
theorem replace_eq_ok_iff {t u : FileTree} {path : String} {content : List UInt8} :
    t.replace path content = .ok u ↔
      ∃ l, t.target path = .ok l ∧ ReplacedAt t u l content := by
  rw [replace, Except.map_eq_ok_iff]
  refine exists_congr fun l => and_congr_right fun hl => ?_
  constructor
  · intro h
    subst h
    exact replacedAt_set content (target_eq_ok_iff.mp hl).2
  · intro h
    exact h.tree.symm

/-! ## Walks in trees with the same directories -/

/-- Two trees have their directories at the same locations. -/
def SameDirectories (t u : FileTree) : Prop :=
  ∀ m, t.get? m = some .directory ↔ u.get? m = some .directory

theorem SameDirectories.symm {t u : FileTree} (h : SameDirectories t u) :
    SameDirectories u t :=
  fun m => (h m).symm

theorem SameDirectories.trans {t u v : FileTree} (h : SameDirectories t u)
    (h' : SameDirectories u v) : SameDirectories t v :=
  fun m => (h m).trans (h' m)

theorem ReplacedAt.sameDirectories {before after : FileTree} {l : Location}
    {content : List UInt8} (h : ReplacedAt before after l content) :
    SameDirectories before after := by
  intro m
  by_cases hm : m = l
  · subst hm
    rw [h.replaced]
    rcases h.free with hb | ⟨old, hb⟩ <;> rw [hb] <;> simp
  · rw [h.others m hm]

/-- Names are looked up in directories only. -/
theorem get?_of_enter {t : FileTree} {l m : Location} {name : String}
    (h : t.enter l name = .ok m) : t.get? l = some .directory := by
  unfold enter at h
  cases hn : t.get? l with
  | none => simp [hn] at h
  | some n => cases n <;> simp [hn] at h ⊢

/-- In a directory the name alone decides where it leads. -/
theorem enter_congr {t u : FileTree} {l : Location} (ht : t.get? l = some .directory)
    (hu : u.get? l = some .directory) (name : String) : t.enter l name = u.enter l name := by
  rw [enter, enter, ht, hu]

theorem foldlM_enter_of_sameDirectories {t u : FileTree} (h : SameDirectories t u)
    (names : List String) :
    ∀ l m : Location, names.foldlM t.enter l = .ok m → names.foldlM u.enter l = .ok m := by
  induction names with
  | nil =>
    intro l m hw
    exact hw
  | cons name names ih =>
    intro l m hw
    rw [List.foldlM_cons, Except.bind_eq_ok_iff] at hw ⊢
    obtain ⟨k, hk, hw⟩ := hw
    have hdir := get?_of_enter hk
    refine ⟨k, ?_, ih k m hw⟩
    rw [← enter_congr hdir ((h l).mp hdir) name, hk]

/-- A path leads to the same location in trees with the same directories. -/
theorem locate_ok_congr {t u : FileTree} (h : SameDirectories t u) (p : Path)
    (l : Location) : t.locate p = .ok l ↔ u.locate p = .ok l :=
  ⟨foldlM_enter_of_sameDirectories h p.names _ l,
    foldlM_enter_of_sameDirectories h.symm p.names _ l⟩

theorem leadsTo_congr {t u : FileTree} (h : SameDirectories t u) (path : String)
    (l : Location) : t.LeadsTo path l ↔ u.LeadsTo path l := by
  unfold LeadsTo
  simp only [locate_ok_congr h]

/-! ## Looking up behind a replacement -/

/-- A path that does not name the replaced file finds what it found before. -/
theorem ReplacedAt.lookup_ok_congr {before after : FileTree} {l : Location}
    {content : List UInt8} (h : ReplacedAt before after l content) {path : String}
    (hpath : ¬before.LeadsTo path l) (n : Node) :
    after.lookup path = .ok n ↔ before.lookup path = .ok n := by
  rw [lookup_eq_ok_iff, lookup_eq_ok_iff]
  refine exists_congr fun p => exists_congr fun m => and_congr_right fun hp => ?_
  rw [← locate_ok_congr h.sameDirectories]
  refine and_congr_right fun hm => ?_
  by_cases hml : m = l
  · subst hml
    -- the path ends in a slash, and on both sides there is no directory
    have hd : p.asDirectory ≠ false := fun hd => hpath ⟨p, hp, hd, hm⟩
    have hnd : ∀ v : FileTree, v.get? m ≠ some .directory →
        ¬(v.get? m = some n ∧ (n ≠ .directory → p.asDirectory = false)) := by
      intro v hv h
      rcases h with ⟨hn, himp⟩
      by_cases hdir : n = .directory
      · exact hv (hdir ▸ hn)
      · exact hd (himp hdir)
    have hbefore : before.get? m ≠ some .directory := by
      rcases h.free with hb | ⟨old, hb⟩ <;> rw [hb] <;> simp
    have hafter : after.get? m ≠ some .directory := by
      rw [h.replaced]
      simp
    exact iff_of_false (hnd after hafter) (hnd before hbefore)
  · rw [h.others m hml]

/-- A file can be read under every path that leads to it. -/
theorem read_of_leadsTo {t : FileTree} {path : String} {l : Location} {content : List UInt8}
    (hpath : t.LeadsTo path l) (h : t.get? l = some (.file content)) :
    t.read path = .ok content := by
  obtain ⟨p, hp, hd, hl⟩ := hpath
  have hlookup : t.lookup path = .ok (.file content) :=
    lookup_eq_ok_iff.mpr ⟨p, l, hp, hl, h, fun _ => hd⟩
  rw [read, hlookup]
  rfl

/-- The replaced file can be read back. -/
theorem ReplacedAt.read_eq {before after : FileTree} {l : Location} {content : List UInt8}
    (h : ReplacedAt before after l content) {path : String} (hpath : before.LeadsTo path l) :
    after.read path = .ok content :=
  read_of_leadsTo ((leadsTo_congr h.sameDirectories path l).mp hpath) h.replaced

/-! ## Files of one directory -/

/-- A name that a file in a directory can have. -/
structure IsFileName (name : String) : Prop where
  notEmpty : name.toList ≠ []
  noSlash : '/' ∉ name.toList
  ordinary : name ≠ "." ∧ name ≠ ".."

/-- The names between the slashes of a text. -/
def namesOf (cs : List Char) : List String :=
  ((splitSlash cs).filter (· ≠ [])).map String.ofList

theorem splitSlash_cons_of_ne {c : Char} {cs name : List Char} {names : List (List Char)}
    (hc : c ≠ '/') (h : splitSlash cs = name :: names) :
    splitSlash (c :: cs) = (c :: name) :: names := by
  rw [splitSlash, h]
  exact hc

theorem exists_splitSlash_eq_cons (cs : List Char) :
    ∃ name names, splitSlash cs = name :: names := by
  induction cs with
  | nil => exact ⟨[], [], rfl⟩
  | cons c cs ih =>
    obtain ⟨name, names, h⟩ := ih
    by_cases hc : c = '/'
    · subst hc
      exact ⟨[], splitSlash cs, rfl⟩
    · exact ⟨c :: name, names, splitSlash_cons_of_ne hc h⟩

theorem splitSlash_append (xs ys : List Char) :
    splitSlash (xs ++ '/' :: ys) = splitSlash xs ++ splitSlash ys := by
  induction xs with
  | nil => rfl
  | cons c xs ih =>
    by_cases hc : c = '/'
    · subst hc
      exact congrArg ([] :: ·) ih
    · obtain ⟨name, names, hxs⟩ := exists_splitSlash_eq_cons xs
      rw [hxs] at ih
      rw [splitSlash_cons_of_ne hc hxs]
      exact splitSlash_cons_of_ne hc ih

theorem splitSlash_of_notMem {cs : List Char} (h : '/' ∉ cs) : splitSlash cs = [cs] := by
  induction cs with
  | nil => rfl
  | cons c cs ih =>
    rw [List.mem_cons, not_or] at h
    exact splitSlash_cons_of_ne (Ne.symm h.1) (ih h.2)

theorem namesOf_append (xs ys : List Char) :
    namesOf (xs ++ '/' :: ys) = namesOf xs ++ namesOf ys := by
  rw [namesOf, splitSlash_append, List.filter_append, List.map_append]
  rfl

theorem IsFileName.namesOf_eq {name : String} (h : IsFileName name) :
    namesOf name.toList = [name] := by
  rw [namesOf, splitSlash_of_notMem h.noSlash]
  simp [h.notEmpty]

theorem namesOf_join (dir : String) {name : String} (h : IsFileName name) :
    namesOf (Path.join dir name).toList = namesOf dir.toList ++ [name] := by
  unfold Path.join
  split
  · next hdir =>
    rw [hdir, h.namesOf_eq]
    rfl
  · split
    · next _ hlast =>
      obtain ⟨above, habove⟩ := List.getLast?_eq_some_iff.mp hlast
      rw [String.toList_append, habove, List.append_assoc, List.singleton_append,
        namesOf_append, namesOf_append, h.namesOf_eq]
      simp [namesOf, splitSlash]
    · rw [String.toList_append, String.toList_append, List.append_assoc]
      show namesOf (dir.toList ++ '/' :: name.toList) = _
      rw [namesOf_append, h.namesOf_eq]

theorem head?_join (dir : String) {name : String} (h : IsFileName name) :
    (Path.join dir name).toList.head? = some '/' ↔ dir.toList.head? = some '/' := by
  unfold Path.join
  split
  · next hdir =>
    subst hdir
    refine iff_of_false (fun hname => h.noSlash (List.mem_of_mem_head? hname)) ?_
    simp
  · next hdir =>
    have hne : dir.toList ≠ [] := fun hnil => hdir (String.toList_eq_nil_iff.mp hnil)
    obtain ⟨c, cs, hcs⟩ := List.exists_cons_of_ne_nil hne
    split <;> simp [hcs]

theorem getLast?_join (dir : String) {name : String} (h : IsFileName name) :
    (Path.join dir name).toList.getLast? ≠ some '/' := by
  obtain ⟨c, hc⟩ : ∃ c, name.toList.getLast? = some c :=
    ⟨_, List.getLast?_eq_some_getLast h.notEmpty⟩
  have hslash : c ≠ '/' := fun hc' => h.noSlash (hc' ▸ List.mem_of_getLast? hc)
  unfold Path.join
  split
  · simpa [hc] using hslash
  · split <;> simpa [List.getLast?_append, List.getLast?_cons, hc] using hslash

/-- A path that a directory and a name make up has the directory's names and then
the name. -/
theorem ofString_join {dir name : String} (h : IsFileName name) {p : Path}
    (hp : Path.ofString (Path.join dir name) = .ok p) :
    p = { absolute := dir.toList.head? = some '/'
          names := namesOf dir.toList ++ [name]
          asDirectory := false } := by
  unfold Path.ofString at hp
  simp only at hp
  split at hp
  · cases hp
  split at hp
  · cases hp
  split at hp
  · cases hp
  rw [Except.ok.injEq] at hp
  rw [← hp, ← namesOf_join dir h]
  simp only [namesOf, head?_join dir h, getLast?_join dir h, decide_false]

/-- The directory in which the file of a path lies. -/
theorem exists_directory_of_leadsTo_join {t : FileTree} {dir name : String}
    (h : IsFileName name) {l : Location} (hl : t.LeadsTo (Path.join dir name) l) :
    ∃ d, (namesOf dir.toList).foldlM t.enter
        (if dir.toList.head? = some '/' then rootLocation else []) = .ok d ∧
      t.get? d = some .directory ∧ l = d ++ [name] := by
  obtain ⟨p, hp, _, hlocate⟩ := hl
  rw [ofString_join h hp, locate, List.foldlM_append, Except.bind_eq_ok_iff] at hlocate
  obtain ⟨d, hd, henter⟩ := hlocate
  simp only [List.foldlM_cons, List.foldlM_nil, bind_pure] at henter
  have hdir := get?_of_enter henter
  refine ⟨d, by simpa using hd, hdir, ?_⟩
  rw [enter, hdir] at henter
  simp only [h.ordinary.1, h.ordinary.2, if_false] at henter
  split at henter
  · cases henter
  · exact (Except.ok.inj henter).symm

/-- Where the replaced file could be written, it can be written again. -/
theorem ReplacedAt.target_eq {before after : FileTree} {l : Location} {content : List UInt8}
    (h : ReplacedAt before after l content) {path : String} (hl : before.LeadsTo path l) :
    after.target path = .ok l :=
  target_eq_ok_iff.mpr
    ⟨(leadsTo_congr h.sameDirectories path l).mp hl, Or.inr ⟨content, h.replaced⟩⟩

/-- Where a file of a directory can be written does not change when a file of that
directory is replaced, and neither does the reason why it cannot. -/
theorem ReplacedAt.target_join_congr {before after : FileTree} {l : Location}
    {content : List UInt8} (h : ReplacedAt before after l content) {dir a b : String}
    (ha : IsFileName a) (hb : IsFileName b) (hl : before.LeadsTo (Path.join dir a) l) :
    after.target (Path.join dir b) = before.target (Path.join dir b) := by
  by_cases hab : a = b
  · subst hab
    rw [h.target_eq hl, target_eq_ok_iff.mpr ⟨hl, h.free⟩]
  obtain ⟨d, hwalk, hdir, rfl⟩ := exists_directory_of_leadsTo_join ha hl
  have hwalk' := foldlM_enter_of_sameDirectories h.sameDirectories _ _ _ hwalk
  have hdir' := (h.sameDirectories d).mp hdir
  unfold target
  cases hp : Path.ofString (Path.join dir b) with
  | error e => rfl
  | ok p =>
    have hlocate : ∀ v : FileTree, (namesOf dir.toList).foldlM v.enter
          (if dir.toList.head? = some '/' then rootLocation else []) = .ok d →
        v.locate p = v.enter d b := by
      intro v hv
      rw [ofString_join hb hp, locate, List.foldlM_append]
      simp only [decide_eq_true_eq, hv, List.foldlM_cons, List.foldlM_nil, bind_pure]
      rfl
    have hp' : p.asDirectory = false := by rw [ofString_join hb hp]
    have hsame : after.locate p = before.locate p := by
      rw [hlocate after hwalk', hlocate before hwalk, enter_congr hdir' hdir]
    show (if p.asDirectory = true then _ else after.locate p >>= _) =
      (if p.asDirectory = true then _ else before.locate p >>= _)
    rw [hp', if_neg Bool.false_ne_true, if_neg Bool.false_ne_true, hsame]
    cases hm : before.locate p with
    | error e => rfl
    | ok m =>
      have hm' : before.LeadsTo (Path.join dir b) m := ⟨p, hp, hp', hm⟩
      obtain ⟨d', hwalk'', _, rfl⟩ := exists_directory_of_leadsTo_join hb hm'
      have hne : d' ++ [b] ≠ d ++ [a] := by
        intro heq
        exact hab (List.singleton_inj.mp (List.append_inj_right' heq rfl)).symm
      simp only [bind, Except.bind]
      rw [h.others _ hne]

/-! ## Setting an entry again -/

/-- A set entry stands in the list instead of all that stood there for its location. -/
theorem mem_entries_set_iff {t : FileTree} {l : Location} {n : Node} {e : Location × Node} :
    e ∈ (t.set l n).entries ↔ e = (l, n) ∨ e ∈ t.entries ∧ e.1 ≠ l := by
  unfold set
  split
  next hany =>
    obtain ⟨old, hold, hl⟩ := List.any_eq_true.mp hany
    rw [List.mem_map]
    constructor
    · intro h
      rcases h with ⟨d, hd, rfl⟩
      by_cases hdl : d.1 = l
      · exact Or.inl (if_pos hdl)
      · rw [if_neg hdl]
        exact Or.inr ⟨hd, hdl⟩
    · intro h
      rcases h with rfl | ⟨he, hne⟩
      · exact ⟨old, hold, if_pos (by simpa using hl)⟩
      · exact ⟨e, he, if_neg hne⟩
  next hany =>
    have hnew : ∀ d ∈ t.entries, d.1 ≠ l := fun d hd hdl =>
      hany (List.any_eq_true.mpr ⟨d, hd, by simpa using hdl⟩)
    rw [List.mem_append, List.mem_singleton, or_comm]
    exact or_congr_right ⟨fun he => ⟨he, hnew e he⟩, And.left⟩

/-- Setting an entry changes nothing if the list holds it, and nothing else for its
location. -/
theorem set_eq_self_iff {t : FileTree} {l : Location} {n : Node} :
    t.set l n = t ↔ (l, n) ∈ t.entries ∧ ∀ e ∈ t.entries, e.1 = l → e = (l, n) := by
  constructor
  · intro h
    have hmem : ∀ e, e ∈ t.entries ↔ e = (l, n) ∨ e ∈ t.entries ∧ e.1 ≠ l := by
      intro e
      rw [← mem_entries_set_iff, h]
    refine ⟨(hmem _).mpr (Or.inl rfl), fun e he hel => ?_⟩
    exact ((hmem e).mp he).resolve_right fun h => h.2 hel
  · intro h
    rcases h with ⟨hmem, hall⟩
    have hany : t.entries.any (·.1 = l) = true :=
      List.any_eq_true.mpr ⟨(l, n), hmem, decide_eq_true rfl⟩
    have hmap : (t.entries.map fun e => if e.1 = l then (l, n) else e) = t.entries := by
      refine (List.map_congr_left fun e he => ?_).trans (List.map_id t.entries)
      split
      next hel => exact (hall e he hel).symm
      next => rfl
    rw [set, if_pos hany, hmap]

theorem set_set_self (t : FileTree) (l : Location) (n : Node) :
    (t.set l n).set l n = t.set l n := by
  refine set_eq_self_iff.mpr ⟨mem_entries_set_iff.mpr (Or.inl rfl), fun e he hel => ?_⟩
  exact (mem_entries_set_iff.mp he).resolve_right fun h => h.2 hel

/-- An entry that setting does not change stays so when another location is set. -/
theorem set_set_of_set_eq_self {t : FileTree} {l m : Location} (hlm : l ≠ m) (n : Node) {k : Node}
    (h : t.set m k = t) : (t.set l n).set m k = t.set l n := by
  obtain ⟨hmem, hall⟩ := set_eq_self_iff.mp h
  refine set_eq_self_iff.mpr ⟨mem_entries_set_iff.mpr (Or.inr ⟨hmem, hlm.symm⟩), fun e he hem => ?_⟩
  rcases mem_entries_set_iff.mp he with rfl | ⟨he, _⟩
  · exact absurd hem hlm
  · exact hall e he hem

/-! ## Several files -/

/-- The tree with some files put in, one after another. -/
def setFiles (t : FileTree) (files : List (Location × List UInt8)) : FileTree :=
  files.foldl (fun t f => t.set f.1 (.file f.2)) t

theorem setFiles_singleton (t : FileTree) (l : Location) (content : List UInt8) :
    t.setFiles [(l, content)] = t.set l (.file content) :=
  rfl

theorem setFiles_append (t : FileTree) (xs ys : List (Location × List UInt8)) :
    t.setFiles (xs ++ ys) = (t.setFiles xs).setFiles ys :=
  List.foldl_append

theorem get?_setFiles_of_forall_ne {l : Location} (files : List (Location × List UInt8)) :
    ∀ t : FileTree, (∀ f ∈ files, f.1 ≠ l) → (t.setFiles files).get? l = t.get? l := by
  induction files with
  | nil => exact fun t _ => rfl
  | cons f files ih =>
    intro t h
    have hrest := ih (t.set f.1 (.file f.2)) fun g hg => h g (List.mem_cons_of_mem f hg)
    exact hrest.trans (get?_set_of_ne t _ (h f List.mem_cons_self))

theorem get?_setFiles_of_mem {f : Location × List UInt8} (hf : isOutside f.1 = false)
    (files : List (Location × List UInt8)) :
    ∀ t : FileTree, files.Pairwise (fun f g => f.1 ≠ g.1) → f ∈ files →
      (t.setFiles files).get? f.1 = some (.file f.2) := by
  induction files with
  | nil => exact fun t _ hmem => absurd hmem List.not_mem_nil
  | cons g files ih =>
    intro t hdistinct hmem
    rw [List.pairwise_cons] at hdistinct
    rcases List.mem_cons.mp hmem with rfl | hmem
    · have hrest := get?_setFiles_of_forall_ne files (t.set f.1 (.file f.2)) fun g hg =>
        (hdistinct.1 g hg).symm
      exact hrest.trans (get?_set_self t _ _ hf)
    · exact ih (t.set g.1 (.file g.2)) hdistinct.2 hmem

end BenchCharts.FileTree
