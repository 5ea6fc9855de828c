/-
No lap is closed that was not opened.

When a split takes a detection that closes a lap, the list of crossings names the
split before it, and tells what the slot of that split shows
(`Wrote.exists_opened`).  A slot does not lose its crossing again, so that the
outcome shows it too.

Where links lead is not restricted.  Of the splits that lie on a circle of links
none is ever crossed, since none of them could be the first: the split before must
have been crossed already, and it lies on the same circle
(`not_transGen_of_timingAt?`).
-/
import ChipTiming.Proofs.Catalog.Courses
import ChipTiming.Proofs.Matching.Offers

namespace ChipTiming.Matching

namespace Run

variable {r : Run} {d e : Detection} {split before : Split} {t : Timing} {i j k m n : ℕ}

/-- The split before a lap that was taken, and what its slot showed then. -/
theorem Wrote.exists_opened (h : r.Wrote m k d split t) (hids : (r.splits.map Split.id).Nodup)
    {previous : SplitId} (hlink : split.previousLap = some previous) :
    ∃ (j : ℕ) (before : Split) (opened : Timing) (lap : Duration),
      r.splits[j]? = some before ∧ before.id = previous ∧
      (r.after m).timingAt? j = some opened ∧
      opened.time.elapsed t.time = some lap ∧ split.minLapTime ≤ lap := by
  have hstep := inStep_after hids m
  obtain ⟨-, heligible, -⟩ := h.takes
  obtain ⟨-, -, hlap⟩ := isEligible_iff.mp heligible
  obtain ⟨time, lap, hcrossing, helapsed, hmin⟩ := hlap previous hlink
  obtain ⟨before, hmem, rfl⟩ := hstep.known hcrossing
  obtain ⟨j, hbefore⟩ := List.mem_iff_getElem?.mp hmem
  rw [hstep.crossing hbefore] at hcrossing
  obtain ⟨opened, hopened, rfl⟩ := Option.map_eq_some_iff.mp hcrossing
  rw [← h.time_eq] at helapsed
  exact ⟨j, before, opened, lap, hbefore, rfl, hopened, helapsed, hmin⟩

/-- What a slot shows of a lap was opened by a read of the split before, far enough
back.  That is the read which the slot of the split before shows, unless it is a start
and shows a later one. -/
theorem exists_anchor (hids : (r.splits.map Split.id).Nodup)
    (hsorted : r.reads.Pairwise (·.time ≤ ·.time)) (hsplit : r.splits[k]? = some split)
    {previous : SplitId} (hlink : split.previousLap = some previous)
    (ht : (r.after n).timingAt? k = some t) :
    ∃ (j : ℕ) (before : Split) (shown : Timing), r.splits[j]? = some before ∧
      before.id = previous ∧ (r.after n).timingAt? j = some shown ∧
      ∃ e ∈ r.reads, r.Fits before e ∧
        (∃ lap, e.time.elapsed t.time = some lap ∧ split.minLapTime ≤ lap) ∧
        (before.isStart = false → shown.time = e.time) := by
  obtain ⟨m, hm, d, hwrote⟩ := exists_wrote_by hsplit ht
  obtain ⟨j, before, opened, lap, hbefore, hid, hopened, helapsed, hmin⟩ :=
    hwrote.exists_opened hids hlink
  obtain ⟨_, -, e, hopens⟩ := exists_wrote_by hbefore hopened
  -- By the end the slot of a start may show a later read than the one that opened the lap.
  obtain ⟨shown, hshown, -, hkept⟩ := timingAt?_of_le hsorted hbefore hopened (Nat.le_of_lt hm)
  rw [hopens.time_eq] at helapsed
  refine ⟨j, before, shown, hbefore, hid, hshown, e, hopens.mem_reads, hopens.fits,
    ⟨lap, helapsed, hmin⟩, fun hkind => ?_⟩
  rw [hkept hkind, hopens.time_eq]

/-- No split on a circle of links could be the first of them to be crossed. -/
theorem not_transGen_of_timingAt? (hids : (r.splits.map Split.id).Nodup)
    (hsplit : r.splits[k]? = some split) (ht : (r.after n).timingAt? k = some t) :
    ¬Relation.TransGen (LapBeforeOn r.splits) split split := by
  -- By induction on the number of offers: the split before was crossed within fewer.
  induction n using Nat.strong_induction_on generalizing k split t with
  | _ n ih =>
      intro hcircle
      obtain ⟨next, ⟨hnext, hlink⟩, hback⟩ := Relation.TransGen.head'_iff.mp hcircle
      obtain ⟨m, hm, d, hwrote⟩ := exists_wrote_by hsplit ht
      obtain ⟨j, before, opened, -, hbefore, hid, hopened, -⟩ := hwrote.exists_opened hids hlink
      obtain rfl : before = next :=
        List.inj_on_of_nodup_map hids (List.mem_of_getElem? hbefore) hnext hid
      exact ih m hm hbefore hopened (Relation.TransGen.tail' hback ⟨hnext, hlink⟩)

end Run

/--
**Every crossing is a read of its split in its window, and no lap is counted that was
not opened.**  If a split closes a lap, then the split before it is on the course and
has been crossed, by a read at least the least time of the lap earlier, which its slot
shows unless it is a start.  So a split whose link leads nowhere, or back to itself
along other links, is never crossed.
-/
theorem anchored_matchTrace (ceiling : Duration) (trace : Trace) (splits : List Split)
    (start : Option Split) (hids : (splits.map Split.id).Nodup) {i : ℕ} {split : Split}
    {slot : Slot} (hsplit : splits[i]? = some split)
    (hslot : (matchTrace ceiling trace splits start).slots[i]? = some slot)
    (hvisited : slot.isVisited = true) :
    (∃ t, slot.passage = .detected t ∧
      (∃ d ∈ trace.detections, split.reader = d.reader ∧
        (split.window trace.waveStart ceiling).contains d.time = true ∧ t.time = d.time) ∧
      ∀ previous, split.previousLap = some previous →
        ∃ (j : ℕ) (before : Split) (slotBefore : Slot) (shown : Timing),
          splits[j]? = some before ∧ before.id = previous ∧
          (matchTrace ceiling trace splits start).slots[j]? = some slotBefore ∧
          slotBefore.passage = .detected shown ∧
          ∃ e ∈ trace.detections, before.reader = e.reader ∧
            (before.window trace.waveStart ceiling).contains e.time = true ∧
            (∃ lap, e.time.elapsed t.time = some lap ∧ split.minLapTime ≤ lap) ∧
            (before.isStart = false → shown.time = e.time)) ∧
      ¬Relation.TransGen (LapBeforeOn splits) split split := by
  obtain ⟨t, ht⟩ := Option.isSome_iff_exists.mp hvisited
  have hsorted := Run.pairwise_reads_of ceiling trace splits start
  have hshown := Run.timingAt?_of_slot hslot ht
  refine ⟨⟨t, Run.detected_of_slot hslot ht, ?_, fun previous hlink => ?_⟩,
    Run.not_transGen_of_timingAt? hids hsplit hshown⟩
  · obtain ⟨m, -, d, hwrote⟩ := Run.exists_wrote_by hsplit hshown
    exact ⟨d, Run.mem_reads_of.mp hwrote.mem_reads, hwrote.fits.1, hwrote.fits.2, hwrote.time_eq⟩
  · obtain ⟨j, before, shown, hbefore, hid, hshownBefore, e, he, hfits, hlap, hkept⟩ :=
      Run.exists_anchor hids hsorted hsplit hlink hshown
    obtain ⟨slotBefore, hslotBefore, htBefore⟩ := Run.exists_slot hshownBefore
    exact ⟨j, before, slotBefore, shown, hbefore, hid, hslotBefore,
      Run.detected_of_slot hslotBefore htBefore, e, Run.mem_reads_of.mp he, hfits.1, hfits.2, hlap,
      hkept⟩

/-- A lap that stands before the start it is linked to, a link to no split of the
list, two splits that are linked to each other, and a start that is linked to
itself. -/
def looseLinks : List Split :=
  let split (n : Nat) (kind : SplitKind) (previous : Option SplitId) : Split :=
    { id := ⟨BitVec.ofNat 128 n⟩, event := ⟨1⟩, name := "", kind, distance := ⟨0⟩, reader := ⟨1⟩
      minTime := .zero, maxTime := .zero, minLapTime := .ofSeconds 60, previousLap := previous }
  [split 1 .standard (some ⟨2⟩), split 2 .start none, split 3 .standard (some ⟨9⟩),
    split 4 .standard (some ⟨5⟩), split 5 .standard (some ⟨4⟩), split 6 .start (some ⟨6⟩)]

/-- The lap is closed at 90 s, opened by the start's read at 30 s; in the end the
start shows the read at 400 s. -/
theorem anchored_looseLinks :
    (looseLinks.map Split.id).Nodup ∧
      (matchTrace defaultCeiling twoLapsTrace looseLinks looseLinks[1]?).slots.map Slot.isVisited =
        [true, true, false, false, false, false] ∧
      ∃ slot t, (matchTrace defaultCeiling twoLapsTrace looseLinks looseLinks[1]?).slots[0]? =
          some slot ∧ slot.passage = .detected t ∧
        (∃ e ∈ twoLapsTrace.detections, ∃ lap, e.time.elapsed t.time = some lap ∧
          .ofSeconds 60 ≤ lap) ∧
        ¬Relation.TransGen (LapBeforeOn looseLinks) looseLinks[0] looseLinks[0] := by
  have hslots : ∃ slot,
      (matchTrace defaultCeiling twoLapsTrace looseLinks looseLinks[1]?).slots[0]? = some slot ∧
        slot.isVisited = true := ⟨_, by cbv, rfl⟩
  obtain ⟨slot, hslot, hvisited⟩ := hslots
  obtain ⟨⟨t, ht, -, hlaps⟩, hcircle⟩ := anchored_matchTrace defaultCeiling twoLapsTrace looseLinks
    looseLinks[1]? (by decide) rfl hslot hvisited
  obtain ⟨-, -, -, -, -, -, -, -, e, he, -, -, hlap, -⟩ := hlaps ⟨2⟩ rfl
  exact ⟨by decide, by cbv, slot, t, hslot, ht, ⟨e, he, hlap⟩, hcircle⟩

end ChipTiming.Matching
