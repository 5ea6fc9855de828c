/-
Which detections count.

A mat reads chips that are none of its splits' business: before a window opens,
after it closed, when the race is over.  A detection counts for an outcome if some
split might take it, as far as reader and window go, and if it is not later than
the crossing of the finish (`counts`).  The others may be left out or brought in
wherever one likes (`matchTrace_of_filter_counts`).

There are two reasons, one for each half.  What no split might take is refused
whenever it is offered, and leaving detections out leaves the others in their
order (`matchTrace_onCourse`).  What is later than the finish stands behind
everything else in the order of time, where the run is finished already
(`matchTrace_upTo`, `finished_upTo`).
-/
import ChipTiming.Proofs.Matching.Finish

namespace ChipTiming.Matching

/-- Whether some split might take a detection, as far as reader and window go. -/
def isOnCourse (ceiling : Duration) (waveStart : Instant) (splits : List Split) (d : Detection) :
    Bool :=
  splits.any fun split =>
    split.reader == d.reader && (split.window waveStart ceiling).contains d.time

/-- Whether a detection is no later than the crossing of a finish, if one was
crossed. -/
def isBeforeFinish (splits : List Split) (o : Outcome) (d : Detection) : Bool :=
  (splits.zip o.slots).all fun entry =>
    !entry.1.isFinish || entry.2.passage.timing?.all (d.time ≤ ·.time)

/-- Whether a detection counts for an outcome. -/
def counts (ceiling : Duration) (trace : Trace) (splits : List Split) (o : Outcome)
    (d : Detection) : Bool :=
  isOnCourse ceiling trace.waveStart splits d && isBeforeFinish splits o d

variable {ceiling : Duration} {trace : Trace} {splits : List Split} {start : Option Split}
  {given : List Detection} {d : Detection} {o : Outcome} {k : ℕ} {time : Instant}

theorem isBeforeFinish_iff :
    isBeforeFinish splits o d = true ↔
      ∀ place time, ShowsFinish splits o place time → d.time ≤ time := by
  rw [isBeforeFinish, List.all_eq_true]
  refine ⟨?_, ?_⟩
  · rintro h place _ ⟨split, slot, t, hsplit, hfinish, hslot, ht, rfl⟩
    have hentry := List.getElem?_zip_eq_some (z := (split, slot)).mpr ⟨hsplit, hslot⟩
    simpa [hfinish, ht] using h _ (List.mem_of_getElem? hentry)
  · rintro h ⟨split, slot⟩ hentry
    obtain ⟨place, hplace⟩ := List.mem_iff_getElem?.mp hentry
    obtain ⟨hsplit, hslot⟩ := List.getElem?_zip_eq_some.mp hplace
    cases hfinish : split.isFinish with
    | false => rfl
    | true =>
        cases ht : slot.passage.timing? with
        | none => rfl
        | some t =>
            simpa using h place t.time ⟨split, slot, t, hsplit, hfinish, hslot, ht, rfl⟩

/-- With the finish crossed, that is just a matter of time. -/
theorem isBeforeFinish_eq (hends : EndsWithFinish splits o) (hfinish : ShowsFinish splits o k time)
    (d : Detection) : isBeforeFinish splits o d = decide (d.time ≤ time) := by
  rw [Bool.eq_iff_iff, isBeforeFinish_iff, decide_eq_true_eq]
  refine ⟨fun h => h k time hfinish, fun h place time' hfinish' => ?_⟩
  rwa [← (hends.unique hfinish hfinish').2]

/-! ### What is not on the course -/

theorem matchTrace_congr_progress {given' : List Detection}
    (h : (Run.of ceiling (withDetections trace given) splits start).progress =
      (Run.of ceiling (withDetections trace given') splits start).progress) :
    matchTrace ceiling (withDetections trace given) splits start =
      matchTrace ceiling (withDetections trace given') splits start := by
  rw [matchTrace_eq, matchTrace_eq, h]
  rfl

namespace Run

variable {r : Run}

theorem offerAll_of_not_fits (h : ∀ split ∈ r.splits, ¬r.Fits split d) (p : Progress) :
    offerAll r.setting r.splits p d = p := by
  refine offerAll_induction (motive := fun _ x => x = p) (fun i x split hsplit hx => ?_) rfl
  rw [offer_of_not_takes, hx]
  rintro ⟨-, heligible, -⟩
  obtain ⟨hreader, hwindow, -⟩ := isEligible_iff.mp heligible
  exact h split (List.mem_of_getElem? hsplit) ⟨hreader, hwindow⟩

/-- Detections that no split might take can be left out. -/
theorem progress_filter {keep : Detection → Bool}
    (h : ∀ d ∈ r.reads, keep d = false → ∀ split ∈ r.splits, ¬r.Fits split d) :
    { r with reads := r.reads.filter keep }.progress = r.progress := by
  show (r.reads.filter keep).foldl _ _ = r.reads.foldl _ _
  rw [List.foldl_filter]
  refine List.foldl_ext _ _ _ fun p d hd => ?_
  cases hkeep : keep d with
  | true => rfl
  | false => exact (offerAll_of_not_fits (h d hd hkeep) p).symm

end Run

theorem matchTrace_onCourse (ceiling : Duration) (trace : Trace) (splits : List Split)
    (start : Option Split) (given : List Detection) :
    matchTrace ceiling
        (withDetections trace (given.filter (isOnCourse ceiling trace.waveStart splits))) splits
        start =
      matchTrace ceiling (withDetections trace given) splits start := by
  refine matchTrace_congr_progress ?_
  show (Run.mk _ splits (inTimeOrder (given.filter _))).progress = _
  rw [inTimeOrder_filter]
  refine (Run.of ceiling (withDetections trace given) splits start).progress_filter
    fun d _ hno split hsplit hfits => ?_
  have hany : isOnCourse ceiling trace.waveStart splits d = true :=
    List.any_eq_true.mpr ⟨split, hsplit, by rwa [Bool.and_eq_true, beq_iff_eq]⟩
  rw [hno] at hany
  cases hany

/-! ### What comes after the finish -/

theorem Run.of_upTo (ceiling : Duration) (trace : Trace) (splits : List Split)
    (start : Option Split) (given : List Detection) (time : Instant) :
    of ceiling (withDetections trace given) splits start =
      (of ceiling (withDetections trace (given.filter (·.time ≤ time))) splits start).goOn
        (inTimeOrder (given.filter (¬·.time ≤ time))) := by
  have hreads : inTimeOrder given =
      inTimeOrder (given.filter (·.time ≤ time)) ++
        inTimeOrder (given.filter (¬·.time ≤ time)) := by
    rw [inTimeOrder_filter, inTimeOrder_filter,
      filter_le_append_filter_not_le (pairwise_inTimeOrder given)]
  show Run.mk _ _ (inTimeOrder given) = Run.mk _ _ _
  rw [hreads]
  rfl

/-- If the detections up to some time finish the race, they are all that is needed. -/
theorem matchTrace_upTo
    (hfinished : (matchTrace ceiling (withDetections trace (given.filter (·.time ≤ time))) splits
      start).status = .finished) :
    matchTrace ceiling (withDetections trace given) splits start =
      matchTrace ceiling (withDetections trace (given.filter (·.time ≤ time))) splits start := by
  rw [matchTrace_eq] at hfinished
  exact matchTrace_congr_progress (by
    rw [Run.of_upTo ceiling trace splits start given time, Run.progress_goOn_of_finished hfinished])

/-- The detections up to the finish do. -/
theorem finished_upTo
    (hfinish : ShowsFinish splits (matchTrace ceiling (withDetections trace given) splits start) k
      time) :
    (matchTrace ceiling (withDetections trace (given.filter (·.time ≤ time))) splits start).status =
      .finished := by
  obtain ⟨split, t, hsplit, hkind, ht, rfl⟩ := showsFinish_iff.mp hfinish
  obtain ⟨m, -, d, hwrote⟩ := Run.exists_wrote_by hsplit ht
  have htime := hwrote.time_eq
  rw [Run.of_upTo ceiling trace splits start given t.time] at hwrote
  have hlt : m < (Run.of ceiling (withDetections trace (given.filter (·.time ≤ t.time))) splits
      start).offers.length := by
    by_contra hge
    -- What crossed the finish would have been read later than it was.
    have hoffered := hwrote.offered
    rw [Run.offers_goOn, List.getElem?_append_right (Nat.not_lt.mp hge)] at hoffered
    have hlate := (inTimeOrder_perm _).mem_iff.mp (Run.mem_of_offered hoffered).1
    have hafter : ¬d.time ≤ t.time := by simpa using (List.mem_filter.mp hlate).2
    exact hafter (htime ▸ Instant.le_refl _)
  rw [status_matchTrace, ← Run.after_goOn (Nat.le_refl _)]
  exact hwrote.status_of_isFinish hkind hlt

/-! ### What counts -/

/-- What counts is on the course, up to the finish if there is one. -/
theorem filter_counts_of_showsFinish (hends : EndsWithFinish splits o)
    (hfinish : ShowsFinish splits o k time) (given : List Detection) :
    given.filter (counts ceiling trace splits o) =
      (given.filter (isOnCourse ceiling trace.waveStart splits)).filter (·.time ≤ time) := by
  rw [List.filter_filter]
  refine List.filter_congr fun d _ => ?_
  rw [counts, isBeforeFinish_eq hends hfinish, Bool.and_comm]

theorem filter_counts_of_not_finished (hnone : ¬∃ place time, ShowsFinish splits o place time)
    (given : List Detection) :
    given.filter (counts ceiling trace splits o) =
      given.filter (isOnCourse ceiling trace.waveStart splits) := by
  refine List.filter_congr fun d _ => ?_
  have hbefore : isBeforeFinish splits o d = true :=
    isBeforeFinish_iff.mpr fun place time hfinish => absurd ⟨place, time, hfinish⟩ hnone
  rw [counts, hbefore, Bool.and_true]

/-- Another list with the detections that count has the same outcome. -/
theorem matchTrace_withDetections_eq {others : List Detection}
    (h : others.filter (counts ceiling trace splits (matchTrace ceiling trace splits start)) =
      trace.detections.filter
        (counts ceiling trace splits (matchTrace ceiling trace splits start))) :
    matchTrace ceiling (withDetections trace others) splits start =
      matchTrace ceiling trace splits start := by
  have hends := endsWithFinish_matchTrace ceiling trace splits start
  have honCourse := matchTrace_onCourse ceiling trace splits start
  have hown := honCourse trace.detections
  have htrace : withDetections trace trace.detections = trace := rfl
  rw [htrace] at hown
  by_cases hfinish : ∃ place time,
      ShowsFinish splits (matchTrace ceiling trace splits start) place time
  · obtain ⟨place, time, hfinish⟩ := hfinish
    rw [filter_counts_of_showsFinish hends hfinish, filter_counts_of_showsFinish hends hfinish] at h
    rw [← hown] at hfinish
    have hfinished := finished_upTo hfinish
    rw [← honCourse others, matchTrace_upTo (h ▸ hfinished), h, ← matchTrace_upTo hfinished, hown]
  · rw [filter_counts_of_not_finished hfinish, filter_counts_of_not_finished hfinish] at h
    rw [← honCourse others, h, hown]

/--
**Detections that do not count are invisible.**  All of them may be left out, and any
may be brought in anywhere, as long as those that count stay as they are.  At most one
finish is crossed; if one is, that is what finishes the race, and no slot shows a
later time.
-/
theorem matchTrace_of_filter_counts (ceiling : Duration) (trace : Trace) (splits : List Split)
    (start : Option Split) :
    matchTrace ceiling
        (withDetections trace (trace.detections.filter
          (counts ceiling trace splits (matchTrace ceiling trace splits start)))) splits start =
      matchTrace ceiling trace splits start ∧
    (∀ others : List Detection,
      others.filter (counts ceiling trace splits (matchTrace ceiling trace splits start)) =
        trace.detections.filter
          (counts ceiling trace splits (matchTrace ceiling trace splits start)) →
      matchTrace ceiling (withDetections trace others) splits start =
        matchTrace ceiling trace splits start) ∧
    EndsWithFinish splits (matchTrace ceiling trace splits start) := by
  refine ⟨matchTrace_withDetections_eq ?_, fun _ => matchTrace_withDetections_eq,
    endsWithFinish_matchTrace ceiling trace splits start⟩
  rw [List.filter_filter]
  simp only [Bool.and_self]

/-- The reads of `lateStarter` up to the finish, and among them: one by a mat of no
split, one when the checkpoint is closed, and some of the start and the finish when
the race is over. -/
def noisyReads : List Detection :=
  [⟨⟨1⟩, early 50⟩, ⟨⟨1⟩, early 20⟩, ⟨⟨9⟩, early 15⟩, ⟨⟨2⟩, early 10⟩, ⟨⟨3⟩, early 40⟩,
    ⟨⟨2⟩, early 20⟩, ⟨⟨3⟩, early 41⟩, ⟨⟨1⟩, early 30⟩, ⟨⟨2⟩, early 200⟩]

theorem matchTrace_noisyReads :
    noisyReads.filter (counts defaultCeiling (withFurther lateStarter lateFinish) threeMats
        (matchTrace defaultCeiling (withFurther lateStarter lateFinish) threeMats
          threeMats.head?)) =
      (withFurther lateStarter lateFinish).detections.filter
        (counts defaultCeiling (withFurther lateStarter lateFinish) threeMats
          (matchTrace defaultCeiling (withFurther lateStarter lateFinish) threeMats
            threeMats.head?)) ∧
      (matchTrace defaultCeiling (withFurther lateStarter lateFinish) threeMats
        threeMats.head?).status = .finished ∧
      matchTrace defaultCeiling (withDetections lateStarter noisyReads) threeMats threeMats.head? =
        matchTrace defaultCeiling (withFurther lateStarter lateFinish) threeMats
          threeMats.head? := by
  have hcounts : noisyReads.filter (counts defaultCeiling (withFurther lateStarter lateFinish)
        threeMats (matchTrace defaultCeiling (withFurther lateStarter lateFinish) threeMats
          threeMats.head?)) =
      (withFurther lateStarter lateFinish).detections.filter
        (counts defaultCeiling (withFurther lateStarter lateFinish) threeMats
          (matchTrace defaultCeiling (withFurther lateStarter lateFinish) threeMats
            threeMats.head?)) := by cbv
  exact ⟨hcounts, by cbv, (matchTrace_of_filter_counts defaultCeiling
    (withFurther lateStarter lateFinish) threeMats threeMats.head?).2.1 noisyReads hcounts⟩

end ChipTiming.Matching
