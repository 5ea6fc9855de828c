/-
Instants moved either way.

To move an instant by a signed number of nanoseconds can fail twice: there is a
longest shift, and there are instants at both ends of the calendar.  The second
limit is much the closer one, so that outside leap seconds a shift succeeds just
if some instant is there (`Instant.shift?_eq_some_iff`).  Moving forward by a
duration of any length is a shift that stops at the last instant wherever it fails
(`Instant.plus_eq_getD_shift?`).

When a clock is set to another time all instants are shifted alike.  Then which of
two comes first does not change, nor how much time passes between them
(`Instant.Shifted`).
-/
import ChipTiming.Proofs.Elapsed

namespace ChipTiming.Instant

/-- The longest shift either way, in nanoseconds: `2 ^ 63 - 1` milliseconds. -/
def longestShift : Int := 9223372036854775807 * 1000000

/-- The instant so many nanoseconds later, or earlier if the number is negative.
Meant for instants outside leap seconds. -/
def shift? (δ : Int) (t : Instant) : Option Instant :=
  if -longestShift ≤ δ ∧ δ ≤ longestShift then
    of? ((t.nanos + δ) / nanosPerSecond) ((t.nanos + δ) % nanosPerSecond).toNat
  else none

variable {s s' t t' : Instant} {δ : Int}

theorem of?_eq_some_iff {second : Int} {fraction : Nat} :
    of? second fraction = some t ↔ t.second = second ∧ t.fraction = fraction := by
  rw [of?]
  split
  · rw [Option.some.injEq]
    cases t
    simp only [mk.injEq]
    exact and_congr eq_comm eq_comm
  · rename_i houtside
    refine iff_of_false (by simp) fun h => houtside ?_
    rw [← h.1, ← h.2]
    exact ⟨t.second_mem, t.fraction_lt⟩

/-- A shift succeeds just if some instant is there: no two instants are further apart
than the longest shift. -/
theorem shift?_eq_some_iff (hs : s.inLeapSecond = false) :
    s.shift? δ = some t ↔ t.inLeapSecond = false ∧ t.nanos = s.nanos + δ := by
  have hbounds := s.second_mem
  have hbounds' := t.second_mem
  rw [inLeapSecond_eq_false_iff] at hs ⊢
  rw [shift?]
  by_cases hshort : -longestShift ≤ δ ∧ δ ≤ longestShift
  · rw [if_pos hshort, of?_eq_some_iff, nanos, nanos]
    simp only [nanosPerSecond] at hs ⊢
    omega
  · rw [if_neg hshort]
    refine iff_of_false (by simp) fun h => hshort ?_
    simp only [nanos, nanosPerSecond, firstSecond, lastSecond, longestShift] at *
    omega

/-- Moving forward is a shift, and stops at the last instant if that fails. -/
theorem plus_eq_getD_shift? (hs : s.inLeapSecond = false) (d : Duration) :
    s.plus d = (s.shift? d.nanos).getD last := by
  rcases plus_cases hs d with hexact | ⟨hlast, hbeyond⟩
  · rw [(shift?_eq_some_iff hs).mpr hexact, Option.getD_some]
  · cases hshift : s.shift? d.nanos with
    | none => rw [hlast, Option.getD_none]
    | some t =>
        obtain ⟨ht, hnanos⟩ := (shift?_eq_some_iff hs).mp hshift
        have hle := (le_iff_nanos_le ht rfl).mp (le_last ht)
        omega

/-! ### All instants alike -/

/-- The second instant is the first one shifted, both of them outside leap seconds. -/
structure Shifted (δ : Int) (t t' : Instant) : Prop where
  before : t.inLeapSecond = false
  after : t'.inLeapSecond = false
  nanos_eq : t'.nanos = t.nanos + δ

theorem Shifted.of_shift? (ht : t.inLeapSecond = false) (h : t.shift? δ = some t') :
    t.Shifted δ t' :=
  have h := (shift?_eq_some_iff ht).mp h
  ⟨ht, h.1, h.2⟩

theorem Shifted.shift?_eq (h : t.Shifted δ t') : t.shift? δ = some t' :=
  (shift?_eq_some_iff h.before).mpr ⟨h.after, h.nanos_eq⟩

theorem Shifted.le_iff (hs : s.Shifted δ s') (ht : t.Shifted δ t') : s' ≤ t' ↔ s ≤ t := by
  rw [le_iff_nanos_le hs.after ht.after, le_iff_nanos_le hs.before ht.before, hs.nanos_eq,
    ht.nanos_eq]
  omega

theorem Shifted.elapsed_eq (hs : s.Shifted δ s') (ht : t.Shifted δ t') :
    s'.elapsed t' = s.elapsed t := by
  have huntil : nanosUntil s' t' = nanosUntil s t := by
    rw [nanosUntil_eq hs.after ht.after, nanosUntil_eq hs.before ht.before, hs.nanos_eq,
      ht.nanos_eq]
    omega
  rw [elapsed, elapsed, huntil]

end ChipTiming.Instant
