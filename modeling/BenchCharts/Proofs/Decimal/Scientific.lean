import BenchCharts.Decimal.Scientific
import BenchCharts.Proofs.Text.Blank

/-!
# Texts of numbers

A text that is read as a number has no blank in it (`isBlank_eq_false_of_readNumber`):
every character of it is a digit, a sign, a point or a letter.
-/

namespace BenchCharts

open Text

/-- No character of the text is blank. -/
def Unblank (cs : List Char) : Prop :=
  ∀ c ∈ cs, isBlank c = false

theorem unblank_cons {c : Char} {cs : List Char} (hc : isBlank c = false) (hcs : Unblank cs) :
    Unblank (c :: cs) :=
  List.forall_mem_cons.mpr ⟨hc, hcs⟩

theorem unblank_append {cs ds : List Char} (hcs : Unblank cs) (hds : Unblank ds) :
    Unblank (cs ++ ds) := by
  intro c hc
  rcases List.mem_append.mp hc with hc | hc
  · exact hcs c hc
  · exact hds c hc

theorem unblank_of_isDigit {cs : List Char} (h : ∀ c ∈ cs, c.isDigit = true) : Unblank cs :=
  fun c hc => isBlank_eq_false_of_isDigit (h c hc)

namespace Scientific

theorem unblank_of_digits? {cs : List Char} {n : Nat} (h : digits? cs = some n) :
    Unblank cs := by
  unfold digits? at h
  split at h
  · next hdigits => exact unblank_of_isDigit (List.all_eq_true.mp hdigits.2)
  · cases h

theorem unblank_of_signedDigits? {cs : List Char} {e : Int} (h : signedDigits? cs = some e) :
    Unblank cs := by
  have hdigits : ∀ ds, digits? ds ≠ none → Unblank ds := by
    intro ds hds
    obtain ⟨n, hn⟩ := Option.ne_none_iff_exists'.mp hds
    exact unblank_of_digits? hn
  unfold signedDigits? at h
  split at h
  · next ds =>
    refine unblank_cons (by decide) (hdigits ds fun hnone => ?_)
    rw [hnone] at h
    cases h
  · next ds =>
    refine unblank_cons (by decide) (hdigits ds fun hnone => ?_)
    rw [hnone] at h
    cases h
  · refine hdigits _ fun hnone => ?_
    rw [hnone] at h
    cases h

theorem unblank_of_exponent? {cs : List Char} {e : Int} (h : exponent? cs = some e) :
    Unblank cs := by
  unfold exponent? at h
  split at h
  · exact fun c hc => absurd hc List.not_mem_nil
  · split at h
    · next hletter =>
      refine unblank_cons ?_ (unblank_of_signedDigits? h)
      rcases hletter with rfl | rfl <;> decide
    · cases h

/-- Digits in front can be read off without a blank among them. -/
theorem unblank_of_spanDigits {cs : List Char} (h : Unblank (spanDigits cs).2) : Unblank cs := by
  have hdigits : Unblank (cs.takeWhile Char.isDigit) :=
    unblank_of_isDigit (List.all_eq_true.mp List.all_takeWhile)
  rw [← List.takeWhile_append_dropWhile (p := Char.isDigit) (l := cs)]
  exact unblank_append hdigits h

theorem unblank_of_fraction {cs : List Char} (h : Unblank (fraction cs).2) : Unblank cs := by
  unfold fraction at h
  split at h
  · exact unblank_cons (by decide) (unblank_of_spanDigits h)
  · exact h

theorem unblank_of_ofChars? {cs : List Char} {x : Scientific} (h : ofChars? cs = some x) :
    Unblank cs := by
  unfold ofChars? at h
  simp only at h
  split at h
  · cases h
  · obtain ⟨e, he, -⟩ := Option.map_eq_some_iff.mp h
    exact unblank_of_spanDigits (unblank_of_fraction (unblank_of_exponent? he))

end Scientific

/-- A character whose lower case leaves a trace leaves one itself. -/
theorem isBlank_eq_false_of_toLower {c : Char} (h : 33 ≤ c.toLower.toNat)
    (h' : c.toLower.toNat ≤ 126) : isBlank c = false := by
  unfold Char.toLower at h h'
  split at h
  · next hupper =>
    have hle : 65 ≤ c.toNat := UInt32.le_iff_toNat_le.mp hupper.1
    have hge : c.toNat ≤ 90 := UInt32.le_iff_toNat_le.mp hupper.2
    exact isBlank_eq_false_of_printable (by omega) (by omega)
  · next hupper =>
    rw [dif_neg hupper] at h'
    exact isBlank_eq_false_of_printable h h'

theorem unblank_of_lowerCase {cs name : List Char}
    (hname : ∀ c ∈ name, 33 ≤ c.toNat ∧ c.toNat ≤ 126) (h : lowerCase cs = name) :
    Unblank cs := by
  intro c hc
  have hlower : c.toLower ∈ name := h ▸ List.mem_map_of_mem hc
  exact isBlank_eq_false_of_toLower (hname _ hlower).1 (hname _ hlower).2

variable {f : Format}

theorem unblank_of_readMagnitude? {negative : Bool} {cs : List Char} {x : Binary f}
    (h : readMagnitude? negative cs = some x) : Unblank cs := by
  unfold readMagnitude? at h
  split at h
  · next hread => exact Scientific.unblank_of_ofChars? hread
  · simp only at h
    split at h
    · next hname =>
      rcases hname with hname | hname <;> exact unblank_of_lowerCase (by simp) hname
    · split at h
      · next hname => exact unblank_of_lowerCase (by simp) hname
      · cases h

/-- A text that is read as a number has no blank in it. -/
theorem unblank_of_readNumber {cs : List Char} {x : Binary f} (h : readNumber cs = .ok x) :
    Unblank cs := by
  have hread : ∀ {negative : Bool} {ds : List Char},
      (readMagnitude? negative ds).elim (Except.error NumberError.malformed) Except.ok = .ok x →
      Unblank ds := by
    intro negative ds hds
    cases hmagnitude : (readMagnitude? negative ds : Option (Binary f)) with
    | none => rw [hmagnitude] at hds; cases hds
    | some y => exact unblank_of_readMagnitude? hmagnitude
  unfold readNumber at h
  simp only at h
  split at h
  · cases h
  · exact unblank_cons (by decide) (hread h)
  · exact unblank_cons (by decide) (hread h)
  · exact hread h

end BenchCharts
