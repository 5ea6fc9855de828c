/-
Matching says exactly what the detections mean.

At the end of a run the invariant speaks of all the moments that are in time, and
what it says of them is a complete description of the outcome: `Means` determines
every slot and the status (`Means.unique`).  So the outcome of matching is the one
outcome that the detections mean, and there is nothing else to know about it.
-/
import ChipTiming.Proofs.Matching.Reached

namespace ChipTiming.Matching

namespace Run

variable {r : Run}

/-- An outcome is what the detections of a run mean for the athlete of a trace. -/
structure Means (r : Run) (trace : Trace) (o : Outcome) : Prop where
  length : o.slots.length = r.splits.length
  /-- Every slot shows what it holds up to the finish, and is vacant otherwise. -/
  slot : ∀ {i : ℕ} {split : Split}, r.splits[i]? = some split →
    ∃ x, r.PassageIn r.inTime i x ∧
      o.slots[i]? = some { Slot.vacant trace split with passage := x }
  status : r.StatusIn r.inTime o.status

theorem StatusIn.unique {within : Set Moment} {status status' : Status}
    (hlower : IsLowerSet within) (h : r.StatusIn within status)
    (h' : r.StatusIn within status') : status = status' := by
  have hfinished := (h.finished_iff hlower).trans (h'.finished_iff hlower).symm
  cases h with
  | finished _ _ => exact (hfinished.mp rfl).symm
  | running _ hq =>
      cases h' with
      | finished _ _ => simp at hfinished
      | running _ _ => rfl
      | notYetStarted hnone => exact absurd hq (hnone _ _)
  | notYetStarted hnone =>
      cases h' with
      | finished _ _ => simp at hfinished
      | running _ hq => exact absurd hq (hnone _ _)
      | notYetStarted _ => rfl

theorem Means.unique {trace : Trace} {o o' : Outcome} (h : r.Means trace o)
    (h' : r.Means trace o') : o = o' := by
  have hslots : o.slots = o'.slots := by
    refine List.ext_getElem? fun i => ?_
    by_cases hi : i < r.splits.length
    · obtain ⟨x, hx, hslot⟩ := h.slot (List.getElem?_eq_getElem hi)
      obtain ⟨x', hx', hslot'⟩ := h'.slot (List.getElem?_eq_getElem hi)
      rw [hslot, hslot', passageIn_unique hx hx']
    · rw [List.getElem?_eq_none (by rw [h.length]; omega),
        List.getElem?_eq_none (by rw [h'.length]; omega)]
  have hstatus : o.status = o'.status := h.status.unique r.isLowerSet_inTime h'.status
  cases o
  cases o'
  simp_all

end Run

/--
**Matching gives exactly what the detections mean.**  Taken in the order of time, a
split other than a start shows its first eligible detection and a start its last one,
both only up to the first eligible finish; the net time runs from what the start
showed at that moment; and the status is that of the slots.
-/
theorem matchTrace_eq_iff (ceiling : Duration) (trace : Trace) (splits : List Split)
    (start : Option Split) (hids : (splits.map Split.id).Nodup) (hlinks : LapsLeadBack splits) :
    IsTimeOrder trace.detections (Run.of ceiling trace splits start).reads ∧
      ∀ o, matchTrace ceiling trace splits start = o ↔
        (Run.of ceiling trace splits start).Means trace o := by
  refine ⟨isTimeOrder_inTimeOrder trace.detections, fun o => ?_⟩
  have hmeans : (Run.of ceiling trace splits start).Means trace
      (matchTrace ceiling trace splits start) := by
    rw [matchTrace_eq]
    have hreached := (Run.of ceiling trace splits start).reached_progress hids hlinks
    refine ⟨?_, ?_, Run.statusIn_progress hids hlinks⟩
    · simp only [List.length_zipWith, hreached.length]
      exact Nat.min_self _
    · intro i split hsplit
      obtain ⟨y, hy⟩ := hreached.exists_passage hsplit
      refine ⟨y, Run.passageIn_progress hids hlinks hy, ?_⟩
      have hsplit' : splits[i]? = some split := hsplit
      simp [List.getElem?_zipWith, hsplit', hy]
  refine ⟨?_, ?_⟩
  · rintro rfl
    exact hmeans
  · exact hmeans.unique

theorem matchTrace_twoLaps :
    (twoLaps.map Split.id).Nodup ∧ LapsLeadBack twoLaps ∧
      (Run.of defaultCeiling twoLapsTrace twoLaps twoLaps.head?).Means twoLapsTrace
        twoLapsOutcome :=
  ⟨by decide, by decide,
    ((matchTrace_eq_iff defaultCeiling twoLapsTrace twoLaps twoLaps.head? (by decide)
      (by decide)).2 twoLapsOutcome).mp (by cbv)⟩

end ChipTiming.Matching
