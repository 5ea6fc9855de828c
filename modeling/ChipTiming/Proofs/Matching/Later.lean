/-
Later reads do not rewrite what was found before.

Detections are taken in the order of time, so those that are no earlier than any
of a trace are offered when the walk over the trace is done (`Run.of_append`).
What it found by then is kept, or at a start moved to a later crossing; that was
shown offer by offer (`Run.timingAt?_of_le`).  The status goes along with the
slots, which is why it moves on.

Which splits there are, how they are linked and whether they share identifiers
does not matter.
-/
import ChipTiming.Proofs.Matching.Finish
import ChipTiming.Proofs.Stages

namespace ChipTiming.Matching

variable {ceiling : Duration} {trace : Trace} {splits : List Split} {start : Option Split}
  {further : List Detection} {i : ℕ} {t : Timing} {now later slot : Slot}

theorem Run.of_append (h : ∀ d ∈ trace.detections, ∀ e ∈ further, d.time ≤ e.time)
    (ceiling : Duration) (splits : List Split) (start : Option Split) :
    of ceiling (withFurther trace further) splits start =
      (of ceiling trace splits start).goOn (inTimeOrder further) := by
  show Run.mk _ _ (inTimeOrder (trace.detections ++ further)) = Run.mk _ _ _
  rw [inTimeOrder_append h]
  rfl

/-! ### Slots -/

/-- Slots of one place that show the same are the same. -/
theorem slot_eq_of_withFurther
    (hnow : (matchTrace ceiling trace splits start).slots[i]? = some now)
    (hlater : (matchTrace ceiling (withFurther trace further) splits start).slots[i]? = some later)
    (hpassage : later.passage = now.passage) : later = now := by
  obtain ⟨split, passage, hsplit, -, rfl⟩ := getElem?_slots_matchTrace.mp hnow
  obtain ⟨split', passage', hsplit', -, rfl⟩ := getElem?_slots_matchTrace.mp hlater
  obtain rfl : split' = split := Option.some.inj (hsplit'.symm.trans hsplit)
  obtain rfl : passage' = passage := hpassage
  rfl

/-- A slot that shows a crossing goes on to show one: a start perhaps a later one, any
other split the same. -/
theorem exists_slot_withFurther {split : Split}
    (h : ∀ d ∈ trace.detections, ∀ e ∈ further, d.time ≤ e.time) (hsplit : splits[i]? = some split)
    (hnow : (matchTrace ceiling trace splits start).slots[i]? = some now)
    (ht : now.passage.timing? = some t) :
    ∃ later t',
      (matchTrace ceiling (withFurther trace further) splits start).slots[i]? = some later ∧
      later.passage = .detected t' ∧ t.time ≤ t'.time ∧
      (split.isStart = false → later = now) := by
  have hgoOn := Run.of_append h ceiling splits start
  have hsorted := Run.pairwise_reads_of ceiling (withFurther trace further) splits start
  have hbefore : ((Run.of ceiling (withFurther trace further) splits start).after
      (Run.of ceiling trace splits start).offers.length).timingAt? i = some t := by
    rw [hgoOn, Run.after_goOn (Nat.le_refl _)]
    exact Run.timingAt?_of_slot hnow ht
  have hlength : (Run.of ceiling trace splits start).offers.length ≤
      (Run.of ceiling (withFurther trace further) splits start).offers.length := by
    rw [hgoOn]
    exact Run.length_offers_le_goOn _ _
  obtain ⟨t', ht', htime, hkept⟩ := Run.timingAt?_of_le hsorted hsplit hbefore hlength
  obtain ⟨later, hlater, ht'⟩ := Run.exists_slot ht'
  have hshown := Run.detected_of_slot hlater ht'
  refine ⟨later, t', hlater, hshown, htime, fun hkind => ?_⟩
  refine slot_eq_of_withFurther hnow hlater ?_
  rw [hshown, hkept hkind, Run.detected_of_slot hnow ht]

/-! ### The status -/

theorem matchTrace_withFurther_of_finished
    (h : ∀ d ∈ trace.detections, ∀ e ∈ further, d.time ≤ e.time)
    (hfinished : (matchTrace ceiling trace splits start).status = .finished) :
    matchTrace ceiling (withFurther trace further) splits start =
      matchTrace ceiling trace splits start := by
  rw [matchTrace_eq] at hfinished
  rw [matchTrace_eq, matchTrace_eq, Run.of_append h, Run.progress_goOn_of_finished hfinished]
  rfl

theorem status_onward_withFurther
    (h : ∀ d ∈ trace.detections, ∀ e ∈ further, d.time ≤ e.time) :
    (matchTrace ceiling trace splits start).status.Onward
      (matchTrace ceiling (withFurther trace further) splits start).status := by
  refine Status.Onward.of_stages (isAdministrative_matchTrace ..) (isAdministrative_matchTrace ..)
    (fun hlater => ?_) fun hnow => ?_
  · rw [status_matchTrace_eq_notYetStarted_iff] at hlater ⊢
    intro now hnow
    by_contra hvisited
    rw [Bool.not_eq_false] at hvisited
    obtain ⟨i, hnow⟩ := List.mem_iff_getElem?.mp hnow
    obtain ⟨t, ht⟩ := Option.isSome_iff_exists.mp hvisited
    obtain ⟨split, -, hsplit, -, -⟩ := getElem?_slots_matchTrace.mp hnow
    obtain ⟨later, t', hslot, ht', -⟩ := exists_slot_withFurther h hsplit hnow ht
    have hvacant := hlater later (List.mem_of_getElem? hslot)
    rw [Slot.isVisited, ht'] at hvacant
    cases hvacant
  · rw [matchTrace_withFurther_of_finished h hnow, hnow]

/-! ### The outcome -/

/-- What one outcome shows, another shows too, but for starts that were crossed
again. -/
structure GrowsInto (splits : List Split) (now later : Outcome) : Prop where
  /-- A slot that shows a crossing stays as it is, unless it is a start's. -/
  kept : ∀ {i : ℕ} {split : Split} {slot : Slot}, splits[i]? = some split → split.isStart = false →
    now.slots[i]? = some slot → slot.isVisited = true → later.slots[i]? = some slot
  /-- A start shows a crossing that is no earlier. -/
  start : ∀ {i : ℕ} {split : Split} {slot : Slot} {t : Timing}, splits[i]? = some split →
    split.isStart = true → now.slots[i]? = some slot → slot.passage.timing? = some t →
      ∃ slot' t', later.slots[i]? = some slot' ∧ slot'.passage = .detected t' ∧ t.time ≤ t'.time
  /-- The status is the same stage of the race or a later one, -/
  stage : now.status ∈ Status.stages
  status : now.status.Onward later.status
  /-- which the table allows. -/
  allowed : now.status.canBecome later.status = true
  /-- After the finish nothing changes. -/
  finished : now.status = .finished → later = now

/--
**Later reads never rewrite what was found before**, not even reads at the very time
of the last one.  Whatever the splits are, a crossing that a slot shows stays with
both its times, a start may come to show a later one, the status moves on, and a
finished race is not touched.
-/
theorem matchTrace_growsInto (ceiling : Duration) (trace : Trace) (splits : List Split)
    (start : Option Split) (further : List Detection)
    (h : ∀ d ∈ trace.detections, ∀ e ∈ further, d.time ≤ e.time) :
    GrowsInto splits (matchTrace ceiling trace splits start)
      (matchTrace ceiling (withFurther trace further) splits start) := by
  have hstage := isAdministrative_matchTrace ceiling trace splits start
  refine ⟨fun hsplit hkind hnow hvisited => ?_, fun hsplit _ hnow ht => ?_,
    Status.mem_stages_iff.mpr hstage, status_onward_withFurther h,
    (status_onward_withFurther h).canBecome hstage, matchTrace_withFurther_of_finished h⟩
  · obtain ⟨t, ht⟩ := Option.isSome_iff_exists.mp hvisited
    obtain ⟨later, -, hlater, -, -, hkept⟩ := exists_slot_withFurther h hsplit hnow ht
    rw [hlater, hkept hkind]
  · obtain ⟨later, t', hlater, ht', htime, -⟩ := exists_slot_withFurther h hsplit hnow ht
    exact ⟨later, t', hlater, ht', htime⟩

theorem growsInto_lateFinish :
    (∀ d ∈ lateStarter.detections, ∀ e ∈ lateFinish, d.time ≤ e.time) ∧
      (matchTrace defaultCeiling lateStarter threeMats threeMats.head?).slots.map Slot.passage =
        [.detected ⟨early 20, .ofSeconds 20, .zero⟩,
          .detected ⟨early 10, .ofSeconds 10, .ofSeconds 10⟩, .notVisited] ∧
      (matchTrace defaultCeiling (withFurther lateStarter lateFinish) threeMats
          threeMats.head?).slots.map Slot.passage =
        [.detected ⟨early 30, .ofSeconds 30, .zero⟩,
          .detected ⟨early 10, .ofSeconds 10, .ofSeconds 10⟩,
          .detected ⟨early 40, .ofSeconds 40, .ofSeconds 10⟩] ∧
      GrowsInto threeMats (matchTrace defaultCeiling lateStarter threeMats threeMats.head?)
        (matchTrace defaultCeiling (withFurther lateStarter lateFinish) threeMats
          threeMats.head?) :=
  have hlater : ∀ d ∈ lateStarter.detections, ∀ e ∈ lateFinish, d.time ≤ e.time := by decide
  ⟨hlater, by cbv, by cbv,
    matchTrace_growsInto defaultCeiling lateStarter threeMats threeMats.head? lateFinish hlater⟩

end ChipTiming.Matching
