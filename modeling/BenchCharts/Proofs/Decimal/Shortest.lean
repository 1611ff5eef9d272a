import BenchCharts.Decimal.Shortest
import Mathlib.Data.List.Basic

/-!
# Characters of written numbers

The shortest text of a value has digits, a point, a sign and the letters of the special
values in it and nothing else (`mem_shortestChars`).
-/

namespace BenchCharts

namespace Scientific

variable {c : Char}

theorem isDigit_of_mem_toDigits {n : Nat} (h : c ∈ Nat.toDigits 10 n) : c.isDigit = true :=
  Nat.isDigit_of_mem_toDigits (by decide) (by decide) h

theorem mem_of_mem_dropTrailingZeros {cs : List Char} (h : c ∈ dropTrailingZeros cs) : c ∈ cs := by
  have hmem := (List.dropWhile_suffix (· = '0')).subset (List.mem_reverse.mp h)
  exact List.mem_reverse.mp hmem

theorem isDigit_of_mem_paddedDigits {width n : Nat} (h : c ∈ paddedDigits width n) :
    c.isDigit = true := by
  rcases List.mem_append.mp h with h | h
  · rw [List.eq_of_mem_replicate h]
    decide
  · exact isDigit_of_mem_toDigits h

theorem isDigit_of_mem_places {n m : Nat} :
    (∀ c ∈ (places n m).1, c.isDigit = true) ∧ ∀ c ∈ (places n m).2, c.isDigit = true := by
  refine ⟨fun c h => isDigit_of_mem_toDigits h, fun c h => ?_⟩
  rw [places] at h
  split at h
  · cases h
  · exact isDigit_of_mem_paddedDigits h

theorem mem_withPoint {whole part : List Char} (h : c ∈ withPoint (whole, part)) :
    c ∈ whole ∨ c = '.' ∨ c ∈ part := by
  cases part with
  | nil => exact .inl h
  | cons d part =>
    rcases List.mem_append.mp h with h | h
    · exact .inl h
    · exact .inr (List.mem_cons.mp h)

/-- Positional notation has digits and a point in it. -/
theorem mem_positional {x : Scientific} (h : c ∈ x.positional) : c.isDigit = true ∨ c = '.' := by
  rw [positional] at h
  split at h
  · exact .inl (isDigit_of_mem_toDigits h)
  · rcases mem_withPoint h with h | h | h
    · exact .inl (isDigit_of_mem_places.1 c h)
    · exact .inr h
    · exact .inl (isDigit_of_mem_places.2 c (mem_of_mem_dropTrailingZeros h))

end Scientific

namespace Binary

variable {f : Format} {c : Char}

theorem mem_signChars {negative : Bool} (h : c ∈ signChars negative) : c = '-' := by
  cases negative with
  | false => cases h
  | true => exact List.mem_singleton.mp h

/-- The shortest text of a value has digits, a point, a sign, and the letters of `NaN` and
`inf` in it. -/
theorem mem_shortestChars {x : Binary f} (h : c ∈ x.shortestChars) :
    c.isDigit = true ∨ c ∈ ['.', '-', 'N', 'a', 'i', 'n', 'f'] := by
  cases x with
  | nan =>
    have hletters : ['N', 'a', 'N'] ⊆ ['.', '-', 'N', 'a', 'i', 'n', 'f'] := by simp
    exact .inr (hletters h)
  | infinite negative =>
    have hletters : ['i', 'n', 'f'] ⊆ ['.', '-', 'N', 'a', 'i', 'n', 'f'] := by simp
    rcases List.mem_append.mp h with h | h
    · rw [mem_signChars h]
      decide
    · exact .inr (hletters h)
  | finite negative magnitude =>
    rcases List.mem_append.mp h with h | h
    · rw [mem_signChars h]
      decide
    · dsimp only at h
      split at h
      · rw [List.mem_singleton.mp h]
        decide
      · rcases Scientific.mem_positional h with h | rfl
        · exact .inl h
        · decide

end Binary

end BenchCharts
