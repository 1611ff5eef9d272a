import Mathlib.Algebra.Group.Defs
import BenchCharts.Proofs.ResourceLog.Reading

/-!
# The seconds of a row

In a row whose other fields are good the first field decides alone: `decodeRow_seconds` says
for each of its texts whether the row holds a sample, and of which second, or is refused.
-/

namespace BenchCharts.ResourceLog

open Text

/-- The row is refused for the text of its first field. -/
def RefusesSeconds (width : Nat) (r : Record) : Prop :=
  ∃ e, decodeRow width r = .error (.row r.position (.seconds e))

/-- The fields are texts, the second and the third of which are numbers. -/
structure GoodButSeconds (width : Nat) (fields : List (List UInt8)) (time : List Char)
    (x y : Double) : Prop where
  length_eq : fields.length = width
  exists_texts : ∃ cpu ram more, fields = (time :: cpu :: ram :: more).map Utf8.encode ∧
    readNumber (trim cpu) = .ok x ∧ readNumber (trim ram) = .ok y

section

variable {width : Nat} {r : Record} {time : List Char} {x y : Double}
  (h : GoodButSeconds width r.fields time x y)

include h

theorem decodeRow_of_isSeconds {n : UInt64} (hn : IsSeconds (trim time) n.toNat) :
    decodeRow width r = .ok ⟨n, x, y⟩ := by
  obtain ⟨cpu, ram, more, hfields, hcpu, hram⟩ := h.exists_texts
  exact decodeRow_eq_ok_iff.mpr ⟨h.length_eq, _, hfields, _, _, _, _, rfl, hn,
    readNumber_eq_ok_iff.mp hcpu, readNumber_eq_ok_iff.mp hram⟩

theorem refusesSeconds_of_secondsFail {e : IntegerError} (he : SecondsFail (trim time) e) :
    RefusesSeconds width r := by
  obtain ⟨cpu, ram, more, hfields, hcpu, hram⟩ := h.exists_texts
  exact ⟨e, decodeRow_eq_error_iff.mpr
    ⟨.seconds e, .number h.length_eq hfields (.seconds he), rfl⟩⟩

/-- What cannot be stored as a number of seconds is refused. -/
theorem refusesSeconds_of_forall (hnone : ∀ n : UInt64, ¬IsSeconds (trim time) n.toNat) :
    RefusesSeconds width r := by
  cases hread : readSeconds (trim time) with
  | error e => exact refusesSeconds_of_secondsFail h (readSeconds_eq_error_iff.mp hread)
  | ok n => exact absurd (readSeconds_eq_ok_iff.mp hread) (hnone n)

/-- A row whose other fields are good holds a sample if its first field is, without the
blanks around it, a number of seconds below `2 ^ 64`, and then the sample of that second.
Any other text in the field, a larger number too, makes the row refused.  Each second is
accepted as its decimal numeral. -/
theorem decodeRow_seconds :
    (∀ n, IsSeconds (trim time) n → n < 2 ^ 64 →
      ∃ s, decodeRow width r = .ok s ∧ s.seconds.toNat = n ∧ s.cpu = x ∧ s.ram = y) ∧
    (∀ n, IsSeconds (trim time) n → 2 ^ 64 ≤ n → RefusesSeconds width r) ∧
    ((∀ n, ¬IsSeconds (trim time) n) → RefusesSeconds width r) ∧
    (∀ n : UInt64, trim time = Nat.toDigits 10 n.toNat → decodeRow width r = .ok ⟨n, x, y⟩) := by
  refine ⟨?_, ?_, ?_, ?_⟩
  · intro n hn hlt
    have hvalue : (UInt64.ofNat n).toNat = n := UInt64.toNat_ofNat_of_lt' hlt
    exact ⟨_, decodeRow_of_isSeconds h (hvalue.symm ▸ hn), hvalue, rfl, rfl⟩
  · intro n hn hle
    apply refusesSeconds_of_forall h
    intro m hm
    have hsame : m.toNat = n := hm.unique hn
    have hlt := m.toNat_lt
    omega
  · intro hnone
    exact refusesSeconds_of_forall h fun n => hnone n.toNat
  · intro n hn
    apply decodeRow_of_isSeconds h
    rw [hn]
    exact readSeconds_eq_ok_iff.mp (readSeconds_toDigits n)

end

/-- A hexadecimal numeral with a sign, leading zeros and letters of both cases, between
blanks. -/
theorem decodeRow_seconds_hexadecimal :
    let time := [' ', '0', 'x', '+', '0', '0', 'f', 'F', '\t']
    let r : Record := ⟨{}, [time, ['1', '.', '5'], [' ', '2', 'e', '3']].map Utf8.encode⟩
    GoodButSeconds 3 r.fields time 1.5 2000 ∧ IsSeconds (trim time) 255 ∧ 255 < 2 ^ 64 ∧
      ∃ s, decodeRow 3 r = .ok s ∧ s.seconds.toNat = 255 ∧ s.cpu = 1.5 ∧ s.ram = 2000 := by
  intro time r
  have hgood : GoodButSeconds 3 r.fields time 1.5 2000 :=
    ⟨rfl, _, _, [], rfl, by decide +kernel, by decide +kernel⟩
  have hseconds : IsSeconds (trim time) (255 : UInt64).toNat :=
    readSeconds_eq_ok_iff.mp (by decide)
  exact ⟨hgood, hseconds, by decide, (decodeRow_seconds hgood).1 255 hseconds (by decide)⟩

end BenchCharts.ResourceLog
