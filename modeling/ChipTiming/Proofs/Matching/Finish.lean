/-
The finish ends the race.

The status and the slots of a run are written by the same offers, so the status
can be read off the slots at any moment.  A run is finished once a slot shows the
crossing of a finish, and has not started while no slot shows any
(`Run.status_after_eq_finished_iff`, `Run.status_after_eq_notYetStarted_iff`).

What crosses a finish is the last offer that is taken.  So there is one such slot
at most, and no slot shows a later time than it does
(`endsWithFinish_matchTrace`).  Further reads leave a finished run as it is, and
if a run is not finished they are offered to it as it stands (`Run.after_goOn`).
-/
import ChipTiming.Proofs.Matching.Offers

namespace ChipTiming.Matching

namespace Run

variable {r : Run} {d e : Detection} {split split' : Split} {t t' : Timing} {i k m n : ℕ}

/-! ### The status, read off the slots -/

theorem timingAt?_after_zero (r : Run) (k : ℕ) : (r.after 0).timingAt? k = none := by
  by_contra hshown
  obtain ⟨t, ht⟩ := Option.ne_none_iff_exists'.mp hshown
  obtain ⟨m, hm, -⟩ := exists_wrote ht
  omega

theorem Wrote.status_succ (h : r.Wrote m k d split t) :
    (r.after (m + 1)).status = if split.isFinish then .finished else .running := by
  rw [after_succ_of_offered h.offered, offer_of_takes h.takes, taken]

theorem status_after_eq_finished_iff :
    (r.after n).status = .finished ↔ ∃ (k : ℕ) (split : Split) (t : Timing),
      r.splits[k]? = some split ∧ split.isFinish = true ∧ (r.after n).timingAt? k = some t := by
  induction n with
  | zero =>
      refine iff_of_false (by rw [after_zero]; exact Status.noConfusion) ?_
      rintro ⟨k, split, t, -, -, ht⟩
      rw [timingAt?_after_zero] at ht
      cases ht
  | succ n ih =>
      rcases r.after_succ_cases n with hsame | ⟨d, split, i, hoffered, htakes, htaken⟩
      · rw [hsame, ih]
      · have hwrote : r.Wrote n i d split _ := ⟨hoffered, htakes, rfl⟩
        have hsplit := hwrote.getElem?_splits
        rw [hwrote.status_succ]
        refine ⟨fun hfinished => ?_, ?_⟩
        · have hfinish : split.isFinish = true := by
            by_contra hno
            rw [if_neg hno] at hfinished
            cases hfinished
          exact ⟨i, split, _, hsplit, hfinish, hwrote.timingAt?_succ⟩
        · rintro ⟨k, split', t, hsplit', hfinish, ht⟩
          rw [htaken, timingAt?_taken_after hoffered] at ht
          by_cases hk : k = i
          · subst hk
            obtain rfl : split = split' := Option.some.inj (hsplit.symm.trans hsplit')
            rw [if_pos hfinish]
          · rw [if_neg hk] at ht
            exact absurd (ih.mpr ⟨k, split', t, hsplit', hfinish, ht⟩) htakes.1

theorem status_after_eq_notYetStarted_iff :
    (r.after n).status = .notYetStarted ↔ ∀ k, (r.after n).timingAt? k = none := by
  induction n with
  | zero => exact iff_of_true rfl r.timingAt?_after_zero
  | succ n ih =>
      rcases r.after_succ_cases n with hsame | ⟨d, split, i, hoffered, htakes, -⟩
      · rw [hsame, ih]
      · have hwrote : r.Wrote n i d split _ := ⟨hoffered, htakes, rfl⟩
        refine iff_of_false ?_ fun hnone => ?_
        · rw [hwrote.status_succ]
          split <;> exact Status.noConfusion
        · exact Option.some_ne_none _ (hwrote.timingAt?_succ.symm.trans (hnone i))

/-! ### Nothing after the finish -/

theorem Wrote.status_of_isFinish (h : r.Wrote m k d split t) (hfinish : split.isFinish = true)
    (hlt : m < n) : (r.after n).status = .finished := by
  have hfinished : (r.after (m + 1)).status = .finished := by
    rw [h.status_succ, if_pos hfinish]
  rw [after_eq_of_finished hfinished hlt, hfinished]

/-- What crosses a finish is the last offer that is taken. -/
theorem Wrote.le_of_isFinish (h : r.Wrote m k d split t) (hfinish : split.isFinish = true)
    (h' : r.Wrote n i e split' t') : n ≤ m := by
  by_contra hlt
  exact h'.takes.1 (h.status_of_isFinish hfinish (by omega))

theorem eq_of_isFinish (hsplit : r.splits[k]? = some split) (hfinish : split.isFinish = true)
    (ht : (r.after n).timingAt? k = some t) (hsplit' : r.splits[i]? = some split')
    (hfinish' : split'.isFinish = true) (ht' : (r.after n).timingAt? i = some t') : i = k := by
  obtain ⟨m, -, d, hwrote⟩ := exists_wrote_by hsplit ht
  obtain ⟨m', -, e, hwrote'⟩ := exists_wrote_by hsplit' ht'
  obtain rfl : m = m' :=
    Nat.le_antisymm (hwrote'.le_of_isFinish hfinish' hwrote) (hwrote.le_of_isFinish hfinish hwrote')
  have hoffered := hwrote'.offered
  rw [hwrote.offered, Option.some.injEq, Prod.mk.injEq, Prod.mk.injEq] at hoffered
  exact hoffered.2.2.symm

theorem time_le_of_isFinish (hsorted : r.reads.Pairwise (·.time ≤ ·.time))
    (hsplit : r.splits[k]? = some split) (hfinish : split.isFinish = true)
    (ht : (r.after n).timingAt? k = some t) (ht' : (r.after n).timingAt? i = some t') :
    t'.time ≤ t.time := by
  obtain ⟨m, -, d, hwrote⟩ := exists_wrote_by hsplit ht
  obtain ⟨m', -, e, split', hwrote'⟩ := exists_wrote ht'
  rw [hwrote.time_eq, hwrote'.time_eq]
  exact time_le_of_offered hsorted hwrote'.offered hwrote.offered
    (hwrote.le_of_isFinish hfinish hwrote')

/-! ### Further reads -/

/-- A run with further reads behind those that it has. -/
def goOn (r : Run) (further : List Detection) : Run := { r with reads := r.reads ++ further }

variable {further : List Detection}

theorem offers_goOn (r : Run) (further : List Detection) :
    (r.goOn further).offers = r.offers ++ { r with reads := further }.offers :=
  List.flatMap_append

/-- Further reads are offered behind all others. -/
theorem after_goOn (hn : n ≤ r.offers.length) : (r.goOn further).after n = r.after n := by
  unfold after
  rw [offers_goOn, List.take_append_of_le_length hn]
  rfl

theorem after_goOn_length (r : Run) (further : List Detection) :
    (r.goOn further).after r.offers.length = r.progress := by
  rw [after_goOn (Nat.le_refl _), after_length_offers]

theorem length_offers_le_goOn (r : Run) (further : List Detection) :
    r.offers.length ≤ (r.goOn further).offers.length := by
  rw [offers_goOn, List.length_append]
  exact Nat.le_add_right _ _

/-- Further reads leave a finished run as it is. -/
theorem progress_goOn_of_finished (h : r.progress.status = .finished) :
    (r.goOn further).progress = r.progress := by
  rw [← r.after_goOn_length further] at h ⊢
  rw [← after_length_offers]
  exact after_eq_of_finished h (r.length_offers_le_goOn further)

end Run

/-! ### The outcome -/

/-- The slot at a place shows that a finish was crossed at a time. -/
def ShowsFinish (splits : List Split) (o : Outcome) (place : ℕ) (time : Instant) : Prop :=
  ∃ split slot t, splits[place]? = some split ∧ split.isFinish = true ∧
    o.slots[place]? = some slot ∧ slot.passage.timing? = some t ∧ t.time = time

/-- The race ends with the finish. -/
structure EndsWithFinish (splits : List Split) (o : Outcome) : Prop where
  /-- It is finished just if a finish was crossed. -/
  status : o.status = .finished ↔ ∃ place time, ShowsFinish splits o place time
  /-- No two finishes were. -/
  unique : ∀ {i k : ℕ} {time time' : Instant}, ShowsFinish splits o i time →
    ShowsFinish splits o k time' → i = k ∧ time = time'
  /-- Nothing was crossed later. -/
  last : ∀ {i k : ℕ} {time : Instant} {slot : Slot} {t : Timing}, ShowsFinish splits o i time →
    o.slots[k]? = some slot → slot.passage.timing? = some t → t.time ≤ time

section

variable {ceiling : Duration} {trace : Trace} {splits : List Split} {start : Option Split} {i : ℕ}
  {time : Instant}

theorem status_matchTrace (ceiling : Duration) (trace : Trace) (splits : List Split)
    (start : Option Split) : (matchTrace ceiling trace splits start).status =
      ((Run.of ceiling trace splits start).after
        (Run.of ceiling trace splits start).offers.length).status := by
  rw [Run.after_length_offers]
  rfl

/-- It has not started just if nothing was crossed. -/
theorem status_matchTrace_eq_notYetStarted_iff :
    (matchTrace ceiling trace splits start).status = .notYetStarted ↔
      ∀ slot ∈ (matchTrace ceiling trace splits start).slots, slot.isVisited = false := by
  rw [status_matchTrace, Run.status_after_eq_notYetStarted_iff]
  refine ⟨fun h slot hslot => ?_, fun h k => ?_⟩
  · by_contra hvisited
    rw [Bool.not_eq_false] at hvisited
    obtain ⟨k, hslot⟩ := List.mem_iff_getElem?.mp hslot
    obtain ⟨t, ht⟩ := Option.isSome_iff_exists.mp hvisited
    exact Option.some_ne_none _ ((Run.timingAt?_of_slot hslot ht).symm.trans (h k))
  · by_contra hshown
    obtain ⟨t, ht⟩ := Option.ne_none_iff_exists'.mp hshown
    obtain ⟨slot, hslot, ht⟩ := Run.exists_slot ht
    have hvacant := h slot (List.mem_of_getElem? hslot)
    rw [Slot.isVisited, Passage.isVisited, ht] at hvacant
    cases hvacant

theorem showsFinish_iff :
    ShowsFinish splits (matchTrace ceiling trace splits start) i time ↔
      ∃ split t, splits[i]? = some split ∧ split.isFinish = true ∧
        ((Run.of ceiling trace splits start).after
          (Run.of ceiling trace splits start).offers.length).timingAt? i = some t ∧
        t.time = time := by
  refine ⟨?_, ?_⟩
  · rintro ⟨split, slot, t, hsplit, hfinish, hslot, ht, htime⟩
    exact ⟨split, t, hsplit, hfinish, Run.timingAt?_of_slot hslot ht, htime⟩
  · rintro ⟨split, t, hsplit, hfinish, ht, htime⟩
    obtain ⟨slot, hslot, ht⟩ := Run.exists_slot ht
    exact ⟨split, slot, t, hsplit, hfinish, hslot, ht, htime⟩

theorem endsWithFinish_matchTrace (ceiling : Duration) (trace : Trace) (splits : List Split)
    (start : Option Split) : EndsWithFinish splits (matchTrace ceiling trace splits start) := by
  refine ⟨?_, ?_, ?_⟩
  · rw [status_matchTrace, Run.status_after_eq_finished_iff]
    refine exists_congr fun place => ?_
    simp only [showsFinish_iff]
    exact ⟨fun ⟨split, t, h⟩ => ⟨t.time, split, t, h.1, h.2.1, h.2.2, rfl⟩,
      fun ⟨_, split, t, h⟩ => ⟨split, t, h.1, h.2.1, h.2.2.1⟩⟩
  · intro i k time time' hi hk
    obtain ⟨split, t, hsplit, hfinish, ht, rfl⟩ := showsFinish_iff.mp hi
    obtain ⟨split', t', hsplit', hfinish', ht', rfl⟩ := showsFinish_iff.mp hk
    obtain rfl : i = k := Run.eq_of_isFinish hsplit' hfinish' ht' hsplit hfinish ht
    obtain rfl : t = t' := Option.some.inj (ht.symm.trans ht')
    exact ⟨rfl, rfl⟩
  · intro i k time slot t hi hslot ht
    obtain ⟨split, t', hsplit, hfinish, ht', rfl⟩ := showsFinish_iff.mp hi
    exact Run.time_le_of_isFinish (Run.pairwise_reads_of ceiling trace splits start) hsplit hfinish
      ht' (Run.timingAt?_of_slot hslot ht)

end

end ChipTiming.Matching
