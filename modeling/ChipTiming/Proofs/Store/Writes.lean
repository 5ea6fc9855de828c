/-
What the two writes do to a store.

While writes fail, both are refused.  Otherwise results are always taken, and a
status is set if the athlete is on the roster.  Neither write takes an athlete off
the roster or puts one there, so whether a later status can be set does not depend
on those set before.
-/
import ChipTiming.Proofs.Keyed
import ChipTiming.Store

namespace ChipTiming.Store

variable {s next : Store} {race race' : RaceId} {batch : List Slot} {id : AthleteId}
  {status : Status}

/-- The athlete is on the roster. -/
def Knows (s : Store) (id : AthleteId) : Prop := id ∈ s.athletes.map Athlete.id

theorem athlete?_eq_none_iff : s.athlete? id = none ↔ ¬s.Knows id := withKey?_eq_none_iff

theorem checkWritable_of_writable {operation : String} (h : s.writeFault = none) :
    s.checkWritable operation = .ok () := by
  rw [checkWritable, h]

theorem checkWritable_of_fault {operation reason : String} (h : s.writeFault = some reason) :
    s.checkWritable operation = .error (.sink operation reason) := by
  rw [checkWritable, h]

/-! ### Results -/

/-- The store with results of a race written to it. -/
def withResults (s : Store) (race : RaceId) (batch : List Slot) : Store :=
  { s with
    results := put Prod.fst (race, putAll Slot.key batch (s.resultsOf race)) s.results
    bulkWrites := s.bulkWrites + 1 }

theorem upsertResults_of_fault {reason : String} (h : s.writeFault = some reason) :
    s.upsertResults race batch = .error (.sink "upsert results" reason) := by
  rw [upsertResults, checkWritable_of_fault h]
  rfl

theorem upsertResults_of_writable (h : s.writeFault = none) :
    s.upsertResults race batch = .ok (s.withResults race batch) := by
  rw [upsertResults, checkWritable_of_writable h]
  rfl

theorem resultsOf_withResults :
    (s.withResults race batch).resultsOf race' =
      if race = race' then putAll Slot.key batch (s.resultsOf race) else s.resultsOf race' := by
  show ((withKey? Prod.fst race' (put Prod.fst _ s.results)).map (·.2)).getD [] = _
  rw [withKey?_put]
  by_cases hrace : race = race'
  · rw [if_pos hrace, if_pos hrace]
    rfl
  · rw [if_neg hrace, if_neg hrace]
    rfl

theorem resultsOf_withResults_nil :
    (s.withResults race []).resultsOf race' = s.resultsOf race' := by
  rw [resultsOf_withResults]
  by_cases hrace : race = race'
  · rw [if_pos hrace, hrace, putAll_nil]
  · rw [if_neg hrace]

/-- Results written in two batches are those of both written at once. -/
theorem resultsOf_withResults_append (first second : List Slot) :
    ((s.withResults race first).withResults race second).resultsOf race' =
      (s.withResults race (first ++ second)).resultsOf race' := by
  rw [resultsOf_withResults, resultsOf_withResults, resultsOf_withResults, resultsOf_withResults,
    if_pos rfl, putAll_append]
  by_cases hrace : race = race'
  · rw [if_pos hrace, if_pos hrace]
  · rw [if_neg hrace, if_neg hrace, if_neg hrace]

/-! ### Statuses -/

/-- A roster with the status of an athlete set. -/
def setStatus (id : AthleteId) (status : Status) (athletes : List Athlete) : List Athlete :=
  athletes.map fun a => if a.id = id then { a with status } else a

theorem ids_setStatus (id : AthleteId) (status : Status) (athletes : List Athlete) :
    (setStatus id status athletes).map Athlete.id = athletes.map Athlete.id := by
  rw [setStatus, List.map_map]
  refine List.map_congr_left fun a _ => ?_
  by_cases h : a.id = id <;> simp [h]

/-- Of those that a test selects by anything else, setting a status reaches the
athlete alone. -/
theorem filter_setStatus {id : AthleteId} {status : Status} {athletes : List Athlete}
    {p : Athlete → Bool} (hp : ∀ (a : Athlete) status, p { a with status } = p a)
    (h : ∀ a ∈ athletes.filter p, a.id ≠ id) :
    (setStatus id status athletes).filter p = athletes.filter p := by
  have hcomp : (p ∘ fun a : Athlete => if a.id = id then { a with status } else a) = p := by
    funext a
    by_cases ha : a.id = id
    · rw [Function.comp_apply, if_pos ha, hp]
    · rw [Function.comp_apply, if_neg ha]
  rw [setStatus, List.filter_map, hcomp]
  exact (List.map_congr_left fun a ha => if_neg (h a ha)).trans (List.map_id _)

theorem updateStatus_of_fault {reason : String} (h : s.writeFault = some reason) :
    s.updateStatus id status = .error (.sink "update status" reason) := by
  rw [updateStatus, checkWritable_of_fault h]
  rfl

theorem updateStatus_of_not_knows (h : s.writeFault = none) (hid : ¬s.Knows id) :
    s.updateStatus id status =
      .error (.sink "update status" ("unknown athlete " ++ id.text)) := by
  rw [updateStatus, checkWritable_of_writable h, athlete?_eq_none_iff.mpr hid]
  rfl

/-- The status of a known athlete can be set, and that leaves everything but the
roster as it was, and there the identifiers. -/
theorem exists_updateStatus_of_knows (h : s.writeFault = none) (hid : s.Knows id)
    (status : Status) :
    ∃ athletes, s.updateStatus id status = .ok { s with athletes } ∧
      athletes.map Athlete.id = s.athletes.map Athlete.id := by
  obtain ⟨a, ha⟩ := Option.ne_none_iff_exists'.mp (mt athlete?_eq_none_iff.mp (not_not.mpr hid))
  refine ⟨put Athlete.id { a with status } s.athletes, ?_, ?_⟩
  · rw [updateStatus, checkWritable_of_writable h, ha]
    rfl
  · obtain ⟨-, rfl⟩ := mem_of_withKey? ha
    exact (keys_put ..).trans (if_pos hid)

/-- On a roster without repetitions it is the status of that athlete only that
changes. -/
theorem updateStatus_of_knows (h : s.writeFault = none)
    (hids : (s.athletes.map Athlete.id).Nodup) (hid : s.Knows id) :
    s.updateStatus id status = .ok { s with athletes := setStatus id status s.athletes } := by
  obtain ⟨a, ha⟩ := Option.ne_none_iff_exists'.mp (mt athlete?_eq_none_iff.mp (not_not.mpr hid))
  obtain ⟨hmem, rfl⟩ := mem_of_withKey? ha
  have hput : put Athlete.id { a with status } s.athletes =
      setStatus a.id status s.athletes := by
    have hid' : Athlete.id { a with status } ∈ s.athletes.map Athlete.id := hid
    rw [put_eq_map hids hid', setStatus]
    refine List.map_congr_left fun b hb => ?_
    by_cases hb' : b.id = a.id
    · rw [if_pos hb', if_pos hb', List.inj_on_of_nodup_map hids hb hmem hb']
    · rw [if_neg hb', if_neg hb']
  rw [updateStatus, checkWritable_of_writable h, ha, ← hput]
  rfl

/-- So whatever came of setting a status, nothing but the roster differs. -/
theorem updateStatus_eq_ok (h : s.updateStatus id status = .ok next) :
    ∃ athletes, next = { s with athletes } ∧
      athletes.map Athlete.id = s.athletes.map Athlete.id := by
  obtain hfault | ⟨reason, hfault⟩ := Option.eq_none_or_eq_some s.writeFault
  · by_cases hid : s.Knows id
    · obtain ⟨athletes, hwrite, hids⟩ := exists_updateStatus_of_knows hfault hid status
      rw [hwrite] at h
      cases h
      exact ⟨athletes, rfl, hids⟩
    · rw [updateStatus_of_not_knows hfault hid] at h
      cases h
  · rw [updateStatus_of_fault hfault] at h
    cases h

end ChipTiming.Store
