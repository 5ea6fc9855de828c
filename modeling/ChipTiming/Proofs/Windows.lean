/-
What windows admit.

Both ends of a window are found by moving forward from the start of the wave, and
both may lie beyond the last instant there is, where the move stops.  At the upper
end that does no harm: no time of day is later, so what is admitted is what the
sum would admit.  At the lower end the last instant of all is admitted although it
is too early, and nothing else (`Instant.plus_le_iff`).

So a window compares elapsed times exactly, whatever its length, the ceiling and
the start of the wave, for every time of day but the very last one
(`windows_exact`).  If the split opens while there are instants it does so for
that one too (`Split.contains_window_iff_of_opens`).
-/
import ChipTiming.Matching
import ChipTiming.Proofs.Shift

namespace ChipTiming

namespace Instant

variable {s t : Instant} {d d' : Duration}

/-- What is no earlier than the end of a move.  A move that stops ends at the last
instant. -/
theorem plus_le_iff (hs : s.inLeapSecond = false) (ht : t.inLeapSecond = false) :
    s.plus d ≤ t ↔ s.nanos + d.nanos ≤ t.nanos ∨ t = last := by
  have hlast := (le_iff_nanos_le ht rfl).mp (le_last ht)
  rw [le_iff_nanos_le (inLeapSecond_plus hs d) ht, nanos_plus hs]
  refine ⟨fun h => ?_, ?_⟩
  · rcases Int.le_total (s.nanos + d.nanos) last.nanos with hreach | hbeyond
    · exact Or.inl (by omega)
    · exact Or.inr (eq_of_nanos_eq ht rfl (by omega))
  · rintro (hle | rfl)
    · omega
    · omega

/-- What is no later than the end of a move.  That a move stops excludes nothing. -/
theorem le_plus_iff (hs : s.inLeapSecond = false) (ht : t.inLeapSecond = false) :
    t ≤ s.plus d ↔ t.nanos ≤ s.nanos + d.nanos := by
  have hlast := (le_iff_nanos_le ht rfl).mp (le_last ht)
  rw [le_iff_nanos_le ht (inLeapSecond_plus hs d), nanos_plus hs]
  omega

theorem plus_mono (hs : s.inLeapSecond = false) (h : d ≤ d') : s.plus d ≤ s.plus d' := by
  rw [Duration.le_def] at h
  rw [le_iff_nanos_le (inLeapSecond_plus hs d) (inLeapSecond_plus hs d'), nanos_plus hs,
    nanos_plus hs]
  omega

/-- A move that does not stop takes as long as it should. -/
theorem elapsed_plus (hs : s.inLeapSecond = false) (h : s.nanos + d.nanos ≤ last.nanos) :
    s.elapsed (s.plus d) = some d := by
  rw [elapsed_eq_some_iff hs (inLeapSecond_plus hs d), nanos_plus hs]
  exact ⟨le_plus hs d, by omega⟩

end Instant

namespace Split

variable {split : Split} {waveStart t : Instant} {ceiling : Duration}

theorem latestAfterStart_eq (split : Split) (ceiling : Duration) :
    split.latestAfterStart ceiling = if split.maxTime = .zero then ceiling else split.maxTime := by
  simp only [latestAfterStart, Duration.isZero_iff]

/-- A window in nanoseconds. -/
theorem contains_window_iff (hstart : waveStart.inLeapSecond = false)
    (ht : t.inLeapSecond = false) :
    (split.window waveStart ceiling).contains t = true ↔
      (waveStart.nanos + split.minTime.nanos ≤ t.nanos ∨ t = .last) ∧
        t.nanos ≤ waveStart.nanos + (split.latestAfterStart ceiling).nanos := by
  rw [Window.contains, Bool.and_eq_true, decide_eq_true_eq, decide_eq_true_eq, window,
    Instant.plus_le_iff hstart ht, Instant.le_plus_iff hstart ht]

/-- The split opens for a wave that starts then, at the last instant if not before. -/
def OpensInTime (split : Split) (waveStart : Instant) : Prop :=
  waveStart.nanos + split.minTime.nanos ≤ Instant.last.nanos

instance (split : Split) (waveStart : Instant) : Decidable (split.OpensInTime waveStart) :=
  inferInstanceAs (Decidable (waveStart.nanos + split.minTime.nanos ≤ Instant.last.nanos))

/-- Of the window of such a split the sums say all. -/
theorem contains_window_iff_of_opens (hstart : waveStart.inLeapSecond = false)
    (ht : t.inLeapSecond = false) (hopens : split.OpensInTime waveStart) :
    (split.window waveStart ceiling).contains t = true ↔
      waveStart.nanos + split.minTime.nanos ≤ t.nanos ∧
        t.nanos ≤ waveStart.nanos + (split.latestAfterStart ceiling).nanos := by
  rw [contains_window_iff hstart ht]
  refine and_congr_left fun _ => or_iff_left_of_imp ?_
  rintro rfl
  exact hopens

/-- So it admits at a shifted time what it admitted before the shift. -/
theorem contains_window_of_shifted {δ : Int} {waveStart' t' : Instant}
    (hstart : waveStart.Shifted δ waveStart') (ht : t.Shifted δ t')
    (hopens : split.OpensInTime waveStart) (hopens' : split.OpensInTime waveStart') :
    (split.window waveStart' ceiling).contains t' =
      (split.window waveStart ceiling).contains t := by
  rw [Bool.eq_iff_iff, contains_window_iff_of_opens hstart.after ht.after hopens',
    contains_window_iff_of_opens hstart.before ht.before hopens, hstart.nanos_eq, ht.nanos_eq]
  omega

/-- Before the last instant a window admits what comes as long after the start of the
wave as the split allows. -/
theorem contains_window_iff_elapsed (hstart : waveStart.inLeapSecond = false)
    (ht : t.inLeapSecond = false) (hbefore : ¬Instant.last ≤ t) :
    (split.window waveStart ceiling).contains t = true ↔
      ∃ gunTime, waveStart.elapsed t = some gunTime ∧ split.minTime ≤ gunTime ∧
        gunTime ≤ split.latestAfterStart ceiling := by
  have hne : t ≠ .last := by
    rintro rfl
    exact hbefore (Instant.le_refl _)
  rw [contains_window_iff hstart ht, or_iff_left hne]
  refine ⟨?_, ?_⟩
  · intro hadmitted
    obtain ⟨hmin, hmax⟩ := hadmitted
    have hle : waveStart ≤ t := (Instant.le_iff_nanos_le hstart ht).mpr (by omega)
    obtain ⟨gunTime, helapsed⟩ := Instant.exists_elapsed_of_le hstart ht hle
    obtain ⟨-, hnanos⟩ := (Instant.elapsed_eq_some_iff hstart ht).mp helapsed
    refine ⟨gunTime, helapsed, ?_, ?_⟩
    · rw [Duration.le_def]
      omega
    · rw [Duration.le_def]
      omega
  · rintro ⟨gunTime, helapsed, hmin, hmax⟩
    obtain ⟨-, hnanos⟩ := (Instant.elapsed_eq_some_iff hstart ht).mp helapsed
    rw [Duration.le_def] at hmin hmax
    omega

/-- The last instant is admitted by every window that reaches it, even by one that
opens later. -/
theorem contains_window_last_iff (hstart : waveStart.inLeapSecond = false) :
    (split.window waveStart ceiling).contains .last = true ↔
      Instant.last.nanos ≤ waveStart.nanos + (split.latestAfterStart ceiling).nanos := by
  rw [contains_window_iff hstart rfl]
  exact and_iff_right (Or.inr rfl)

end Split

/--
**Windows compare elapsed times exactly**, for durations of any length.  A time of day
before the last instant is admitted just if the time since the start of the wave is
one that the split allows.  The last instant is admitted just if the window reaches
it.  This is so because moving forward is exact: it is a shift that stops at the last
instant if it fails, it leads no less far for a longer duration, and it takes that
duration as long as it does not stop.
-/
theorem windows_exact (split : Split) (waveStart t : Instant) (ceiling : Duration)
    (hstart : waveStart.inLeapSecond = false) (ht : t.inLeapSecond = false) :
    (¬Instant.last ≤ t →
        ((split.window waveStart ceiling).contains t = true ↔
          ∃ gunTime, waveStart.elapsed t = some gunTime ∧ split.minTime ≤ gunTime ∧
            gunTime ≤ if split.maxTime = .zero then ceiling else split.maxTime)) ∧
      (t = Instant.last →
        ((split.window waveStart ceiling).contains t = true ↔
          Instant.last.nanos ≤ waveStart.nanos +
            (if split.maxTime = .zero then ceiling else split.maxTime).nanos)) ∧
      ∀ s : Instant, s.inLeapSecond = false →
        (∀ d : Duration, s.plus d = (s.shift? d.nanos).getD .last) ∧
        (∀ d d' : Duration, d ≤ d' → s.plus d ≤ s.plus d') ∧
        ∀ d : Duration, s.nanos + d.nanos ≤ Instant.last.nanos → s.elapsed (s.plus d) = some d := by
  rw [← Split.latestAfterStart_eq]
  refine ⟨Split.contains_window_iff_elapsed hstart ht, ?_, fun s hs => ⟨?_, ?_, ?_⟩⟩
  · rintro rfl
    exact Split.contains_window_last_iff hstart
  · exact Instant.plus_eq_getD_shift? hs
  · intro d d' hle
    exact Instant.plus_mono hs hle
  · intro d hreach
    exact Instant.elapsed_plus hs hreach

/-- So many seconds before the last instant, less than a minute. -/
def beforeLast (seconds : Nat) : Instant :=
  { Instant.last with
    second := lastSecond - (seconds % 60 : Nat)
    second_mem := by unfold firstSecond lastSecond; omega }

/-- A split that opens five seconds after the wave starts and stays open for longer
than any clock runs. -/
def openForEver : Split where
  id := ⟨1⟩
  event := ⟨1⟩
  name := ""
  kind := .standard
  distance := ⟨0⟩
  reader := ⟨1⟩
  minTime := .ofSeconds 5
  maxTime := .ofSeconds 18446744073709551615
  minLapTime := .zero
  previousLap := none

/-- The wave starts ten seconds before the last instant.  Of its window that stops
there, all is admitted but the first five seconds. -/
theorem windows_openForEver :
    (beforeLast 10).inLeapSecond = false ∧ (beforeLast 3).inLeapSecond = false ∧
      (openForEver.window (beforeLast 10) defaultCeiling).latest = .last ∧
      (openForEver.window (beforeLast 10) defaultCeiling).contains (beforeLast 3) = true ∧
      (openForEver.window (beforeLast 10) defaultCeiling).contains (beforeLast 6) = false ∧
      (openForEver.window (beforeLast 10) defaultCeiling).contains .last = true ∧
      (beforeLast 10).elapsed ((beforeLast 10).plus (.ofSeconds 10)) = some (.ofSeconds 10) := by
  have hthree := windows_exact openForEver (beforeLast 10) (beforeLast 3) defaultCeiling rfl rfl
  have hsix := windows_exact openForEver (beforeLast 10) (beforeLast 6) defaultCeiling rfl rfl
  have hlast := windows_exact openForEver (beforeLast 10) .last defaultCeiling rfl rfl
  refine ⟨rfl, rfl, by decide, ?_, ?_, ?_, ?_⟩
  · exact (hthree.1 (by decide)).mpr ⟨.ofSeconds 7, by decide, by decide, by decide⟩
  · rw [Bool.eq_false_iff, ne_eq, hsix.1 (by decide)]
    rintro ⟨gunTime, helapsed, hmin, -⟩
    have hfour : (beforeLast 10).elapsed (beforeLast 6) = some (.ofSeconds 4) := by decide
    obtain rfl : Duration.ofSeconds 4 = gunTime := Option.some.inj (hfour.symm.trans helapsed)
    exact absurd hmin (by decide)
  · exact (hlast.2.1 rfl).mpr (by decide)
  · exact (hlast.2.2 (beforeLast 10) rfl).2.2 _ (by decide)

end ChipTiming
