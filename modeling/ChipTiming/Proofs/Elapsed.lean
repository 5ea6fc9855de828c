/-
Time that passes outside leap seconds.

Outside leap seconds an instant is a number of nanoseconds (`Instant.nanos`).  The
order is that of the numbers, the time between two instants is their difference,
and there is none just if the second comes first (`Instant.elapsed_eq_some_iff`).
Moving forward never goes back, not even where it stops at the last instant there
is (`Instant.le_plus`): it adds, and takes the last instant for a sum that lies
beyond it (`Instant.nanos_plus`).

Inside leap seconds this fails: the seconds that they add are told from the times
of day alone, so that from a leap second at the end of a day to the next day
negative time passes.
-/
import ChipTiming.Proofs.TimeOrder

namespace ChipTiming.Instant

/-- Nanoseconds since 1970-01-01T00:00:00Z, leap seconds not counted. -/
def nanos (t : Instant) : Int := t.second * nanosPerSecond + t.fraction

variable {s t : Instant}

theorem inLeapSecond_eq_false_iff : t.inLeapSecond = false ↔ t.fraction < nanosPerSecond := by
  rw [inLeapSecond, decide_eq_false_iff_not, Nat.not_le]

theorem le_iff_nanos_le (hs : s.inLeapSecond = false) (ht : t.inLeapSecond = false) :
    s ≤ t ↔ s.nanos ≤ t.nanos := by
  rw [inLeapSecond_eq_false_iff, nanosPerSecond] at hs ht
  rw [le_def, nanos, nanos, nanosPerSecond]
  omega

theorem eq_of_nanos_eq (hs : s.inLeapSecond = false) (ht : t.inLeapSecond = false)
    (h : s.nanos = t.nanos) : s = t :=
  le_antisymm ((le_iff_nanos_le hs ht).mpr (by omega)) ((le_iff_nanos_le ht hs).mpr (by omega))

theorem nanosUntil_eq (hs : s.inLeapSecond = false) (ht : t.inLeapSecond = false) :
    nanosUntil s t = t.nanos - s.nanos := by
  have hleap : leapBetween s t = 0 := by simp [leapBetween, hs, ht]
  rw [nanosUntil, hleap, nanos, nanos, nanosPerSecond]
  omega

/-- Outside leap seconds, the time between two instants is their difference. -/
theorem elapsed_eq_some_iff {d : Duration} (hs : s.inLeapSecond = false)
    (ht : t.inLeapSecond = false) :
    s.elapsed t = some d ↔ s ≤ t ∧ (d.nanos : Int) = t.nanos - s.nanos := by
  rw [elapsed, nanosUntil_eq hs ht, le_iff_nanos_le hs ht]
  obtain ⟨n⟩ := d
  by_cases hnegative : t.nanos - s.nanos < 0
  · rw [if_pos hnegative]
    refine iff_of_false (by simp) fun h => ?_
    omega
  · rw [if_neg hnegative, Option.some.injEq, Duration.mk.injEq]
    show (t.nanos - s.nanos).toNat = n ↔ s.nanos ≤ t.nanos ∧ (n : Int) = t.nanos - s.nanos
    omega

theorem exists_elapsed_of_le (hs : s.inLeapSecond = false) (ht : t.inLeapSecond = false)
    (hle : s ≤ t) : ∃ d, s.elapsed t = some d := by
  refine ⟨⟨(t.nanos - s.nanos).toNat⟩, (elapsed_eq_some_iff hs ht).mpr ⟨hle, ?_⟩⟩
  rw [le_iff_nanos_le hs ht] at hle
  exact Int.toNat_of_nonneg (by omega)

/-- From an instant to itself no time passes, not even inside a leap second. -/
theorem elapsed_self (t : Instant) : t.elapsed t = some .zero := by
  simp [elapsed, nanosUntil, leapBetween, Duration.zero]

/-! ### Moving forward -/

theorem le_last (hs : s.inLeapSecond = false) : s ≤ last := by
  have hfraction := inLeapSecond_eq_false_iff.mp hs
  have hsecond := s.second_mem.2
  rw [nanosPerSecond] at hfraction
  rw [le_def, last]
  dsimp only
  omega

/-- Moving forward adds nanoseconds, as far as there are instants. -/
theorem plus_cases (hs : s.inLeapSecond = false) (d : Duration) :
    ((s.plus d).inLeapSecond = false ∧ (s.plus d).nanos = s.nanos + d.nanos) ∨
      s.plus d = last ∧ last.nanos < s.nanos + d.nanos := by
  have hfraction := inLeapSecond_eq_false_iff.mp hs
  rw [plus, dif_neg fun h => by simp [hs] at h]
  dsimp only
  by_cases hrange : s.second + ((s.fraction % nanosPerSecond + d.nanos) / nanosPerSecond : Nat) ≤
      lastSecond
  · rw [dif_pos hrange, inLeapSecond_eq_false_iff, nanos, nanos]
    simp only [nanosPerSecond] at hfraction ⊢
    omega
  · refine Or.inr ⟨dif_neg hrange, ?_⟩
    rw [nanos, nanos, last]
    simp only [nanosPerSecond] at hfraction hrange ⊢
    omega

theorem inLeapSecond_plus (hs : s.inLeapSecond = false) (d : Duration) :
    (s.plus d).inLeapSecond = false := by
  rcases plus_cases hs d with ⟨hplus, -⟩ | ⟨hlast, -⟩
  · exact hplus
  · rw [hlast]
    rfl

theorem nanos_plus (hs : s.inLeapSecond = false) (d : Duration) :
    (s.plus d).nanos = min (s.nanos + d.nanos) last.nanos := by
  rcases plus_cases hs d with ⟨hplus, hnanos⟩ | ⟨hlast, hbeyond⟩
  · have hle := (le_iff_nanos_le hplus rfl).mp (le_last hplus)
    omega
  · rw [hlast]
    omega

/-- Moving forward never goes back. -/
theorem le_plus (hs : s.inLeapSecond = false) (d : Duration) : s ≤ s.plus d := by
  rcases plus_cases hs d with ⟨hplus, hnanos⟩ | ⟨hlast, -⟩
  · rw [le_iff_nanos_le hs hplus]
    omega
  · rw [hlast]
    exact le_last hs

end ChipTiming.Instant
