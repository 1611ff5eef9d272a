import BenchCharts.Chart.Resources
import BenchCharts.Proofs.Axis.Drawable
import BenchCharts.Proofs.ResourceLog.Reading

/-!
# The axes of the resource chart

A log that can be decoded need not make axes with finite bounds that are apart.
`drawable_axes_iff` says for each of the three axes which samples make it so, and
`exists_decode_not_drawable` is a log of one row, all of whose numbers are finite, of
which no axis is.  For a drawing the spans must be finite as well (`Chart.FiniteSpans`);
that of the memory axis can overflow between finite bounds (`exists_never_drawn`).
-/

namespace BenchCharts.ResourceChart

open Axis Binary ResourceLog

/-- The margins of the time axis never overflow. -/
theorem marginsFit_time {s s' : Sample} (h : s.time < s'.time) : MarginsFit s.time s'.time := by
  obtain ⟨m, hm, hle⟩ := exists_rank_ofNat (f := .binary64) (Nat.le_of_lt s.seconds.toNat_lt)
  obtain ⟨n, hn, hle'⟩ := exists_rank_ofNat (f := .binary64) (Nat.le_of_lt s'.seconds.toNat_lt)
  have hlt := (lt_iff_of_rank hm hn).mp h
  exact marginsFit_of_natAbs_le hm hn (Int.le_of_lt hlt) (by decide) hle hle'

theorem paddable_times_iff (samples : List Sample) :
    Paddable (samples.map (·.time))
      ↔ ∀ t, Flat (samples.map (·.time)) t → KeepsOne t := by
  constructor
  · exact Paddable.keepsOne
  · intro hkeeps
    refine ⟨hkeeps, ?_⟩
    intro low hlow high hhigh hlt
    obtain ⟨s, _, rfl⟩ := List.mem_map.mp hlow
    obtain ⟨s', _, rfl⟩ := List.mem_map.mp hhigh
    exact marginsFit_time hlt

/-- When the axes of a resource chart have finite bounds, the second one above the first.

The time axis has, unless all samples are of one time that is the same with one second
more and with one less: a time above `2 ^ 53` that is a multiple of four.  The load axis
has, unless the load of a sample is the upper infinity or goes there with a tenth more.
The memory axis has, unless the memory of all samples is one value that is infinite or
does not keep one more and one less, or two samples are so far apart that the margins
overflow. -/
theorem drawable_axes_iff (c : ResourceChart) :
    (c.timeRange.Drawable ↔ ∀ t, Flat (c.samples.map (·.time)) t → KeepsOne t) ∧
    (c.cpuRange.Drawable ↔ ∀ s ∈ c.samples, s.cpu * 1.1 ≠ .infinite false) ∧
    (c.ramRange.Drawable ↔ (∀ v, Flat (c.samples.map (·.ram)) v → KeepsOne v) ∧
      ∀ s ∈ c.samples, ∀ s' ∈ c.samples, s.ram < s'.ram → MarginsFit s.ram s'.ram) := by
  refine ⟨?_, ?_, ?_⟩
  · exact (drawable_padded_iff _).trans (paddable_times_iff c.samples)
  · refine (drawable_headroom_iff _).trans ?_
    exact List.forall_mem_map
  · refine (drawable_padded_iff _).trans ?_
    constructor
    · intro h
      exact ⟨h.keepsOne, fun s hs s' hs' => h.marginsFit _ (List.mem_map_of_mem hs) _
        (List.mem_map_of_mem hs')⟩
    · intro h
      refine ⟨h.1, ?_⟩
      rw [List.forall_mem_map]
      intro s hs
      rw [List.forall_mem_map]
      exact h.2 s hs

/-- A row of finite numbers with axes of which none can be drawn: the time and the memory
are the same with one more and with one less, and the load overflows with its tenth. -/
theorem exists_decode_not_drawable :
    let bytes := Text.Utf8.encode ['t', ',', 'c', ',', 'r', '\n',
      '1', '8', '0', '1', '4', '3', '9', '8', '5', '0', '9', '4', '8', '1', '9', '8', '4', ',',
      '1', '.', '7', 'e', '3', '0', '8', ',', '1', 'e', '1', '7', '\n']
    ∃ samples, (Decoder.ofSource { reads := [bytes] }).decode.1 = .ok samples ∧
      let c : ResourceChart := { samples }
      ¬c.timeRange.Drawable ∧ ¬c.cpuRange.Drawable ∧ ¬c.ramRange.Drawable := by
  refine ⟨[⟨18014398509481984, 1.7e308, 1e17⟩], ?_, ?_, ?_, ?_⟩ <;> decide +kernel

end BenchCharts.ResourceChart
