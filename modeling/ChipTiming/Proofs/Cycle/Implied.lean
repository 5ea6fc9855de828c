/-
The status is read off the slots.

There are two ways to a status.  Matching goes along with one, offer by offer; and
one can be read off slots once they are all there, which is done where entries
made by hand have replaced some of them.  On the slots of an outcome both give the
same (`impliedStatus_matchTrace`), because either is finished just if a slot shows
the crossing of a finish, and has not started just if no slot shows any.

So there is one way after all, and which slots were replaced does not come into
it: the status of a score is always what its slots imply (`scoredStatus_eq`).
-/
import ChipTiming.Proofs.Cycle.Athletes
import ChipTiming.Proofs.Matching.Finish
import ChipTiming.Proofs.Stages

namespace ChipTiming

open Matching

variable {ceiling : Duration} {trace : Trace} {slots entries : List Slot} {splits : List Split}
  {start : Option Split} {o : Outcome}

/-! ### What slots imply -/

/-- The scan ends at a finish that was crossed; any other crossing shows that the race
was begun. -/
theorem impliedStatus_eq (slots : List Slot) (splits : List Split) :
    impliedStatus slots splits =
      if (slots.zip splits).any (fun entry => entry.1.isVisited && entry.2.isFinish) then .finished
      else if (slots.zip splits).any (·.1.isVisited) then .running
      else .notYetStarted := by
  induction slots generalizing splits with
  | nil => rfl
  | cons slot slots ih =>
      cases splits with
      | nil => rfl
      | cons split splits =>
          rw [impliedStatus, ih, List.zip_cons_cons, List.any_cons, List.any_cons]
          cases slot.isVisited with
          | false => rfl
          | true =>
              cases split.isFinish with
              | true => rfl
              | false =>
                  -- Whatever the rest is, it is no less than running.
                  generalize (slots.zip splits).any _ = finished
                  generalize (slots.zip splits).any _ = started
                  cases finished <;> cases started <;> rfl

/-- Slots imply the finish just if one of them shows it. -/
theorem impliedStatus_eq_finished_iff :
    impliedStatus o.slots splits = .finished ↔ ∃ place time, ShowsFinish splits o place time := by
  have hany : impliedStatus o.slots splits = .finished ↔
      ∃ entry ∈ o.slots.zip splits, entry.1.isVisited = true ∧ entry.2.isFinish = true := by
    rw [impliedStatus_eq]
    split
    · next h => simpa using h
    · next h =>
        refine iff_of_false ?_ (by simpa using h)
        split <;> exact Status.noConfusion
  rw [hany]
  refine ⟨?_, ?_⟩
  · rintro ⟨⟨slot, split⟩, hentry, hvisited, hfinish⟩
    obtain ⟨place, hplace⟩ := List.mem_iff_getElem?.mp hentry
    obtain ⟨hslot, hsplit⟩ := List.getElem?_zip_eq_some.mp hplace
    obtain ⟨t, ht⟩ := Option.isSome_iff_exists.mp hvisited
    exact ⟨place, t.time, split, slot, t, hsplit, hfinish, hslot, ht, rfl⟩
  · rintro ⟨place, time, split, slot, t, hsplit, hfinish, hslot, ht, -⟩
    have hentry := List.getElem?_zip_eq_some (z := (slot, split)).mpr ⟨hslot, hsplit⟩
    exact ⟨(slot, split), List.mem_of_getElem? hentry, Option.isSome_iff_exists.mpr ⟨t, ht⟩,
      hfinish⟩

theorem impliedStatus_eq_notYetStarted_iff (hlength : slots.length = splits.length) :
    impliedStatus slots splits = .notYetStarted ↔ ∀ slot ∈ slots, slot.isVisited = false := by
  have hslots : (slots.zip splits).map Prod.fst = slots := List.map_fst_zip (Nat.le_of_eq hlength)
  rw [← hslots, List.forall_mem_map, hslots, impliedStatus_eq]
  split
  · next h =>
      obtain ⟨entry, hentry, hboth⟩ := List.any_eq_true.mp h
      refine iff_of_false Status.noConfusion fun hvacant => ?_
      rw [hvacant entry hentry] at hboth
      cases hboth
  · split
    · next h =>
        obtain ⟨entry, hentry, hvisited⟩ := List.any_eq_true.mp h
        refine iff_of_false Status.noConfusion fun hvacant => ?_
        rw [hvacant entry hentry] at hvisited
        cases hvisited
    · next h => exact iff_of_true rfl (by simpa using h)

/-- The slots of an outcome imply its status. -/
theorem impliedStatus_matchTrace (ceiling : Duration) (trace : Trace) (splits : List Split)
    (start : Option Split) :
    impliedStatus (matchTrace ceiling trace splits start).slots splits =
      (matchTrace ceiling trace splits start).status := by
  have hlength : (matchTrace ceiling trace splits start).slots.length = splits.length := by
    have hids := congrArg List.length (map_split_matchTrace ceiling trace splits start)
    rwa [List.length_map, List.length_map] at hids
  refine Status.eq_of_stages (isAdministrative_impliedStatus ..) (isAdministrative_matchTrace ..)
    ?_ ?_
  · rw [impliedStatus_eq_notYetStarted_iff hlength, status_matchTrace_eq_notYetStarted_iff]
  · rw [impliedStatus_eq_finished_iff,
      (endsWithFinish_matchTrace ceiling trace splits start).status]

/-! ### Scores -/

theorem applyOverrides_of_countOverrides (h : countOverrides entries slots = 0) :
    applyOverrides entries slots = slots := by
  rw [countOverrides, List.countP_eq_zero] at h
  have hsame : ∀ slot ∈ slots, (override? entries slot).getD slot = slot := by
    intro slot hslot
    rw [Option.not_isSome_iff_eq_none.mp (h slot hslot), Option.getD_none]
  rw [applyOverrides, List.map_congr_left hsame, List.map_id']

/-- The status of a score is what its slots imply, whether any were replaced or
not. -/
theorem scoredStatus_eq :
    scoredStatus ceiling splits start entries trace =
      impliedStatus (scoreTrace ceiling splits start entries trace).slots splits := by
  rw [scoreTrace_eq]
  dsimp only [scoredStatus]
  split
  · rfl
  · next hnone =>
      rw [applyOverrides_of_countOverrides (Nat.eq_zero_of_not_pos hnone), impliedStatus_matchTrace]

/-- Scores one athlete with the status read off the slots in any case. -/
def scoreBySlots (ceiling : Duration) (splits : List Split) (start : Option Split)
    (entries : List Slot) (trace : Trace) : AthleteResults :=
  let matched := (matchTrace ceiling trace splits start).slots
  let slots := applyOverrides entries matched
  let status := impliedStatus slots splits
  let allowed := trace.status.canBecome status
  { slots
    change :=
      if status != trace.status && allowed then some ⟨trace.athlete, trace.status, status⟩ else none
    rejected := status != trace.status && !allowed
    overrides := countOverrides entries matched }

theorem scoreTrace_eq_scoreBySlots (ceiling : Duration) :
    scoreTrace ceiling = scoreBySlots ceiling := by
  funext splits start entries trace
  rw [scoreTrace_eq, scoredStatus_eq]
  rfl

/-- Computes the results of an event with every status read off the slots. -/
def computeEventBySlots (source : Source) (catalog : Catalog) (settings : Settings) (race : RaceId)
    (event : EventId) : Except Failure EventResults :=
  computeEventWith (scoreBySlots settings.ceiling) (.ofScored event) source catalog race event

/--
**The status is the one that the slots imply.**  That holds of every outcome, whatever
the trace and the splits are.  An event is therefore computed as if every status were
read off the slots, though it is done only where entries replaced some.
-/
theorem computeEvent_eq_bySlots :
    (∀ (ceiling : Duration) (trace : Trace) (splits : List Split) (start : Option Split),
      impliedStatus (matchTrace ceiling trace splits start).slots splits =
        (matchTrace ceiling trace splits start).status) ∧
    ∀ (source : Source) (catalog : Catalog) (settings : Settings) (race : RaceId) (event : EventId),
      computeEvent source catalog settings race event =
        computeEventBySlots source catalog settings race event := by
  refine ⟨impliedStatus_matchTrace, fun source catalog settings race event => ?_⟩
  rw [computeEvent_eq_with, scoreTrace_eq_scoreBySlots, computeEventBySlots]

end ChipTiming
