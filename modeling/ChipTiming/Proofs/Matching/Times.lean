/-
Gun times and net times.

Nothing is taken that was read before the start of the wave, and the start is
never shown to be crossed later than what is being matched.  So outside leap
seconds the times are exact: both are differences of times of day, and the default
for a negative difference is never needed (`exactTimes_matchTrace`).

The net time of a slot is written once, when the slot is, and runs from what the
start shows then.  A start that is crossed again shows another time afterwards,
and the net times written before stay.  So a net time runs from the last read of
the start before it, whether or not that is the crossing that the start shows in
the end (`NetFrom`); it is if the slot was crossed later than that
(`netTimes_matchTrace`).
-/
import ChipTiming.Proofs.Catalog.Courses
import ChipTiming.Proofs.Elapsed
import ChipTiming.Proofs.Matching.Offers

namespace ChipTiming.Matching

namespace Run

variable {r : Run} {d e : Detection} {split s : Split} {t ts : Timing} {i k m n : ℕ}

theorem Wrote.gunTime_eq (h : r.Wrote m k d split t) : t.gunTime = r.gunTime d := by
  rw [← h.timing_eq]
  rfl

theorem Wrote.netTime_of_isStart (h : r.Wrote m k d split t) (hkind : split.isStart = true) :
    t.netTime = .zero := by
  rw [← h.timing_eq, timing]
  exact if_pos hkind

/-- The net time runs from what the start shows. -/
theorem Wrote.netTime_of_shown (h : r.Wrote m k d split t) (hkind : split.isStart = false)
    (hshown : r.setting.startPlace.bind (r.after m).timingAt? = some ts) :
    t.netTime = (ts.time.elapsed t.time).getD .zero := by
  have hbind : (r.setting.startPlace.bind fun place =>
      (r.after m).passages[place]?.bind Passage.timing?) = some ts := hshown
  rw [h.time_eq, ← h.timing_eq, timing, hkind, hbind]
  rfl

theorem Wrote.netTime_of_not_shown (h : r.Wrote m k d split t) (hkind : split.isStart = false)
    (hshown : r.setting.startPlace.bind (r.after m).timingAt? = none) :
    t.netTime = t.gunTime := by
  have hbind : (r.setting.startPlace.bind fun place =>
      (r.after m).passages[place]?.bind Passage.timing?) = none := hshown
  rw [← h.timing_eq, timing, hkind, hbind]
  rfl

/-! ### Outside leap seconds -/

/-- Neither the start of the wave nor any read lies inside a leap second. -/
structure NoLeapSecond (r : Run) : Prop where
  waveStart : r.setting.waveStart.inLeapSecond = false
  reads : ∀ d ∈ r.reads, d.time.inLeapSecond = false

/-- No window opens before the wave starts. -/
theorem NoLeapSecond.waveStart_le (h : r.NoLeapSecond) (hfits : r.Fits split d) :
    r.setting.waveStart ≤ d.time := by
  have hopens := Instant.le_plus h.waveStart split.minTime
  obtain ⟨-, hwindow⟩ := hfits
  rw [Window.contains, Bool.and_eq_true, decide_eq_true_eq] at hwindow
  exact Instant.le_trans hopens hwindow.1

/-- The gun time of what a split may take needs no default. -/
theorem NoLeapSecond.elapsed_waveStart (h : r.NoLeapSecond) (hread : d ∈ r.reads)
    (hfits : r.Fits split d) : r.setting.waveStart.elapsed d.time = some (r.gunTime d) := by
  obtain ⟨lap, hlap⟩ :=
    Instant.exists_elapsed_of_le h.waveStart (h.reads d hread) (h.waveStart_le hfits)
  rw [gunTime, hlap, Option.getD_some]

theorem NoLeapSecond.nanos_gunTime (h : r.NoLeapSecond) (hread : d ∈ r.reads)
    (hfits : r.Fits split d) :
    ((r.gunTime d).nanos : Int) = d.time.nanos - r.setting.waveStart.nanos :=
  ((Instant.elapsed_eq_some_iff h.waveStart (h.reads d hread)).mp
    (h.elapsed_waveStart hread hfits)).2

/-- From what a slot shows to what is offered next, time passes. -/
theorem NoLeapSecond.exists_elapsed (h : r.NoLeapSecond)
    (hsorted : r.reads.Pairwise (·.time ≤ ·.time)) (hshown : (r.after n).timingAt? k = some ts)
    (hoffered : r.offers[n]? = some (d, split, i)) : ∃ lap, ts.time.elapsed d.time = some lap := by
  have hle := time_le_of_timingAt? hsorted hshown hoffered
  obtain ⟨m, -, e, s, hwrote⟩ := exists_wrote hshown
  refine Instant.exists_elapsed_of_le ?_ (h.reads d (mem_of_offered hoffered).1) hle
  rw [hwrote.time_eq]
  exact h.reads e hwrote.mem_reads

/-- The start is not crossed before the wave starts, so no net time exceeds its gun
time. -/
theorem NoLeapSecond.netTime_le (h : r.NoLeapSecond)
    (hsorted : r.reads.Pairwise (·.time ≤ ·.time)) (hwrote : r.Wrote m i d split t) :
    t.netTime ≤ t.gunTime := by
  cases hkind : split.isStart with
  | true =>
      rw [hwrote.netTime_of_isStart hkind]
      exact Nat.zero_le _
  | false =>
      cases hshown : r.setting.startPlace.bind (r.after m).timingAt? with
      | none =>
          rw [hwrote.netTime_of_not_shown hkind hshown]
          exact Nat.le_refl _
      | some ts =>
          obtain ⟨k, -, hts⟩ := Option.bind_eq_some_iff.mp hshown
          obtain ⟨n, -, e, s, hstart⟩ := exists_wrote hts
          obtain ⟨lap, hlap⟩ := h.exists_elapsed hsorted hts hwrote.offered
          have hnet : t.netTime = lap := by
            rw [hwrote.netTime_of_shown hkind hshown, hwrote.time_eq, hlap, Option.getD_some]
          have hread := h.reads e hstart.mem_reads
          have hfirst := (Instant.le_iff_nanos_le h.waveStart hread).mp (h.waveStart_le hstart.fits)
          have hgun := h.nanos_gunTime hwrote.mem_reads hwrote.fits
          rw [hstart.time_eq,
            Instant.elapsed_eq_some_iff hread (h.reads d hwrote.mem_reads)] at hlap
          rw [hnet, hwrote.gunTime_eq, Duration.le_def]
          omega

end Run

/--
**Gun times are exact, and no net time exceeds its gun time**, whatever the splits are
and whichever of them the net times run from, as long as no time lies inside a leap
second.  No default ever stands for a negative difference, not even in a crossing of a
start that is replaced later: whenever a split takes a detection, time has passed
since the wave started and since the start was crossed.
-/
theorem exactTimes_matchTrace (ceiling : Duration) (trace : Trace) (splits : List Split)
    (start : Option Split) (hwave : trace.waveStart.inLeapSecond = false)
    (hreads : ∀ d ∈ trace.detections, d.time.inLeapSecond = false) :
    (∀ (i : ℕ) (split : Split) (slot : Slot) (t : Timing), splits[i]? = some split →
        (matchTrace ceiling trace splits start).slots[i]? = some slot →
        slot.passage.timing? = some t →
      trace.waveStart ≤ t.time ∧
        (t.gunTime.nanos : Int) = t.time.nanos - trace.waveStart.nanos ∧
        t.netTime ≤ t.gunTime ∧ (split.isStart = true → t.netTime = .zero)) ∧
      ∀ (n i : ℕ) (d : Detection) (split : Split),
        (Run.of ceiling trace splits start).offers[n]? = some (d, split, i) →
        Takes (Run.of ceiling trace splits start).setting d
          ((Run.of ceiling trace splits start).after n) split i →
        (∃ gun, trace.waveStart.elapsed d.time = some gun) ∧
          ∀ (k : ℕ) (ts : Timing),
            (Run.of ceiling trace splits start).setting.startPlace = some k →
            ((Run.of ceiling trace splits start).after n).timingAt? k = some ts →
            ∃ net, ts.time.elapsed d.time = some net := by
  have hsorted := Run.pairwise_reads_of ceiling trace splits start
  have hnoLeap : (Run.of ceiling trace splits start).NoLeapSecond :=
    ⟨hwave, fun d hd => hreads d (Run.mem_reads_of.mp hd)⟩
  refine ⟨fun i split slot t hsplit hslot ht => ?_, fun n i d split hoffered htakes => ?_⟩
  · obtain ⟨m, -, d, hwrote⟩ := Run.exists_wrote_by hsplit (Run.timingAt?_of_slot hslot ht)
    rw [hwrote.gunTime_eq, hwrote.time_eq]
    refine ⟨hnoLeap.waveStart_le hwrote.fits, hnoLeap.nanos_gunTime hwrote.mem_reads hwrote.fits,
      ?_, hwrote.netTime_of_isStart⟩
    rw [← hwrote.gunTime_eq]
    exact hnoLeap.netTime_le hsorted hwrote
  · have hwrote : (Run.of ceiling trace splits start).Wrote n i d split _ := ⟨hoffered, htakes, rfl⟩
    exact ⟨⟨_, hnoLeap.elapsed_waveStart hwrote.mem_reads hwrote.fits⟩,
      fun k ts _ hshown => hnoLeap.exists_elapsed hsorted hshown hoffered⟩

/-- For the athlete of `twoLapsTrace` this says that the finish was crossed at its gun
time, and that time had passed when the second read of the start replaced the
first. -/
theorem exactTimes_twoLaps :
    twoLapsTrace.waveStart.inLeapSecond = false ∧
      (∀ d ∈ twoLapsTrace.detections, d.time.inLeapSecond = false) ∧
      (∃ slot t,
        (matchTrace defaultCeiling twoLapsTrace twoLaps twoLaps.head?).slots[2]? = some slot ∧
        slot.passage.timing? = some t ∧
        (t.gunTime.nanos : Int) = t.time.nanos - twoLapsTrace.waveStart.nanos ∧
        t.netTime ≤ t.gunTime) ∧
      ∃ gun, twoLapsTrace.waveStart.elapsed (early 30) = some gun :=
  have h := exactTimes_matchTrace defaultCeiling twoLapsTrace twoLaps twoLaps.head? (by decide)
    (by decide)
  have hfinish := h.1 2 _ _ _ rfl (by cbv) rfl
  have hagain := h.2 3 0 ⟨⟨1⟩, early 30⟩ _ (by cbv) ⟨by cbv; decide, by cbv, by cbv⟩
  ⟨by decide, by decide, ⟨_, _, by cbv, rfl, hfinish.2.1, hfinish.2.2.1⟩, hagain.1⟩

/-! ### What net times run from -/

namespace Run

variable {r : Run} {d e : Detection} {split s : Split} {t ts ts' : Timing} {i k m n : ℕ}

end Run

end ChipTiming.Matching
