/-
What a store has been told.

A store is told who takes part, and operators tell it what they saw; cycles write
to it in between.  What it then holds can be said from what it was told alone
(`Remembers`).  Everyone is on the roster once, in the order of first registration
and as registered last, but for the status.  An entry made by hand stands until
another one is made for its athlete and split.

All that a cycle does to a store is to write to it.  So a history with cycles in
it is one of operations only (`exists_operations_foldl_next`), and what has to be
looked at is one operation (`Remembers.perform`).
-/
import ChipTiming.Proofs.Store.Steps

namespace ChipTiming.Store

variable {s : Store} {registered : List Athlete} {entered : List Slot}

/-! ### Operations -/

/-- The athlete that an operation registers. -/
def Operation.registered? : Operation → Option Athlete
  | .register athlete => some athlete
  | .saveConfiguration _ | .record _ | .enter _ | .setWriteFault _ | .upsertResults _ _
  | .updateStatus _ _ => none

/-- The entry that an operation makes by hand. -/
def Operation.entered? : Operation → Option Slot
  | .enter entry => some entry
  | .saveConfiguration _ | .register _ | .record _ | .setWriteFault _ | .upsertResults _ _
  | .updateStatus _ _ => none

theorem Operation.registered?_of_isWrite {operation : Operation}
    (h : operation.isWrite = true) : operation.registered? = none := by
  cases operation with
  | register athlete => cases h
  | _ => rfl

theorem Operation.entered?_of_isWrite {operation : Operation}
    (h : operation.isWrite = true) : operation.entered? = none := by
  cases operation with
  | enter entry => cases h
  | _ => rfl

/-! ### Histories -/

/-- The athlete registered in a step. -/
def Step.registered? : Step → Option Athlete
  | .operate operation => operation.registered?
  | .recompute _ _ _ _ _ => none

/-- The entry made by hand in a step. -/
def Step.entered? : Step → Option Slot
  | .operate operation => operation.entered?
  | .recompute _ _ _ _ _ => none

/-- A history with cycles in it is one of operations only, in which the same was
registered and entered. -/
theorem exists_operations_foldl_next (steps : List Step) (s : Store) :
    ∃ operations : List Operation, steps.foldl next s = operations.foldl perform s ∧
      operations.filterMap Operation.registered? = steps.filterMap Step.registered? ∧
      operations.filterMap Operation.entered? = steps.filterMap Step.entered? := by
  induction steps generalizing s with
  | nil => exact ⟨[], rfl, rfl, rfl⟩
  | cons step steps ih =>
      obtain ⟨operations, hrun, hregistered, hentered⟩ := ih (s.next step)
      rw [List.foldl_cons, hrun]
      cases step with
      | operate operation =>
          refine ⟨operation :: operations, rfl, ?_, ?_⟩
          · rw [List.filterMap_cons, List.filterMap_cons, hregistered, Step.registered?]
          · rw [List.filterMap_cons, List.filterMap_cons, hentered, Step.entered?]
      | recompute scope source catalog settings race =>
          obtain ⟨writes, hwrites, heq⟩ :=
            s.exists_writes_recompute scope (source s) (catalog s) settings race
          have hnone : writes.filterMap Operation.registered? = [] ∧
              writes.filterMap Operation.entered? = [] := by
            rw [List.filterMap_eq_nil_iff, List.filterMap_eq_nil_iff]
            exact ⟨fun write h => Operation.registered?_of_isWrite (hwrites write h),
              fun write h => Operation.entered?_of_isWrite (hwrites write h)⟩
          refine ⟨writes ++ operations, ?_, ?_, ?_⟩
          · rw [next, heq, List.foldl_append]
          · rw [List.filterMap_append, hnone.1, hregistered]
            rfl
          · rw [List.filterMap_append, hnone.2, hentered]
            rfl

/-! ### What is remembered -/

/-- Of entries made one after another, the last for an athlete and a split. -/
def lastMade? (entered : List Slot) (athlete : AthleteId) (split : SplitId) : Option Slot :=
  withKey? Slot.key (athlete, split) entered.reverse

theorem lastMade?_append_singleton (entered : List Slot) (entry : Slot) (athlete : AthleteId)
    (split : SplitId) :
    lastMade? (entered ++ [entry]) athlete split =
      if entry.key = (athlete, split) then some entry else lastMade? entered athlete split :=
  withKey?_reverse_append_singleton

/-- The roster and the entries made by hand are what the store was told. -/
structure Remembers (s : Store) (registered : List Athlete) (entered : List Slot) : Prop where
  /-- Everyone once, in the order of first registration. -/
  order : s.athletes.map Athlete.id = (registered.map Athlete.id).eraseDups
  /-- Everyone as registered last, but for the status. -/
  registration : ∀ a ∈ s.athletes, ∃ last,
    withKey? Athlete.id a.id registered.reverse = some last ∧ a = { last with status := a.status }
  /-- One entry for an athlete and a split, -/
  splits : ∀ athlete, ((s.entriesOf athlete).map Slot.split).Nodup
  /-- which is the one made last. -/
  entry : ∀ athlete split,
    withKey? Slot.split split (s.entriesOf athlete) = lastMade? entered athlete split

theorem remembers_empty : Store.empty.Remembers [] [] where
  order := rfl
  registration := List.forall_mem_nil _
  splits _ := List.nodup_nil
  entry _ _ := rfl

theorem Remembers.register (h : s.Remembers registered entered)
    (hids : (s.athletes.map Athlete.id).Nodup) (athlete : Athlete) :
    (s.register athlete).Remembers (registered ++ [athlete]) entered where
  order := by
    rw [List.map_append]
    exact keys_put_of_eq_eraseDups h.order
  registration a ha := by
    have hfound : withKey? Athlete.id a.id (put Athlete.id athlete s.athletes) = some a :=
      (withKey?_eq_some_iff (nodup_put hids)).mpr ⟨ha, rfl⟩
    rw [withKey?_put] at hfound
    rw [withKey?_reverse_append_singleton]
    by_cases hid : athlete.id = a.id
    · rw [if_pos hid, Option.some.injEq] at hfound
      rw [if_pos hid]
      exact ⟨athlete, rfl, by rw [hfound]⟩
    · rw [if_neg hid] at hfound ⊢
      exact h.registration a (mem_of_withKey? hfound).1
  splits := h.splits
  entry := h.entry

theorem entriesOf_enter (s : Store) (entry : Slot) (athlete : AthleteId) :
    (s.enter entry).entriesOf athlete =
      if entry.athlete = athlete then put Slot.split entry (s.entriesOf athlete)
      else s.entriesOf athlete := by
  show ((withKey? Prod.fst athlete (put Prod.fst _ s.entries)).map (·.2)).getD [] = _
  rw [withKey?_put]
  by_cases hathlete : entry.athlete = athlete
  · rw [if_pos hathlete, if_pos hathlete, hathlete]
    rfl
  · rw [if_neg hathlete, if_neg hathlete]
    rfl

theorem Remembers.enter (h : s.Remembers registered entered) (entry : Slot) :
    (s.enter entry).Remembers registered (entered ++ [entry]) where
  order := h.order
  registration := h.registration
  splits athlete := by
    rw [entriesOf_enter]
    split
    · exact nodup_put (h.splits athlete)
    · exact h.splits athlete
  entry athlete split := by
    rw [entriesOf_enter, lastMade?_append_singleton]
    by_cases hathlete : entry.athlete = athlete
    · subst hathlete
      rw [if_pos rfl, withKey?_put, h.entry]
      by_cases hsplit : entry.split = split
      · rw [if_pos hsplit, if_pos (by rw [Slot.key, hsplit])]
      · rw [if_neg hsplit, if_neg fun hkey => hsplit (congrArg Prod.snd hkey)]
    · rw [if_neg hathlete, if_neg fun hkey => hathlete (congrArg Prod.fst hkey), h.entry]

/-- Nothing but the roster and the entries is remembered. -/
theorem Remembers.congr {s' : Store} (h : s.Remembers registered entered)
    (hathletes : s'.athletes = s.athletes) (hentries : s'.entries = s.entries) :
    s'.Remembers registered entered := by
  have hentriesOf : s'.entriesOf = s.entriesOf := by
    funext athlete
    rw [entriesOf, entriesOf, hentries]
  refine ⟨?_, ?_, ?_, ?_⟩
  · rw [hathletes]
    exact h.order
  · rw [hathletes]
    exact h.registration
  · rw [hentriesOf]
    exact h.splits
  · rw [hentriesOf]
    exact h.entry

theorem Remembers.setStatus (h : s.Remembers registered entered) (id : AthleteId)
    (status : Status) :
    Remembers { s with athletes := Store.setStatus id status s.athletes } registered entered where
  order := (ids_setStatus id status s.athletes).trans h.order
  registration a ha := by
    obtain ⟨b, hb, rfl⟩ := List.mem_map.mp ha
    obtain ⟨last, hlast, heq⟩ := h.registration b hb
    by_cases hid : b.id = id
    · rw [if_pos hid]
      exact ⟨last, hlast, by rw [heq]⟩
    · rw [if_neg hid]
      exact ⟨last, hlast, heq⟩
  splits := h.splits
  entry := h.entry

theorem perform_updateStatus_of_keyed (hs : s.Keyed) (id : AthleteId) (status : Status) :
    s.perform (.updateStatus id status) = s ∨
      s.perform (.updateStatus id status) =
        { s with athletes := Store.setStatus id status s.athletes } := by
  rw [perform]
  obtain hfault | ⟨reason, hfault⟩ := Option.eq_none_or_eq_some s.writeFault
  · by_cases hid : s.Knows id
    · rw [updateStatus_of_knows hfault hs.athletes hid]
      exact Or.inr rfl
    · rw [updateStatus_of_not_knows hfault hid]
      exact Or.inl rfl
  · rw [updateStatus_of_fault hfault]
    exact Or.inl rfl

/-- An operation that tells nothing leaves what is remembered. -/
theorem Remembers.perform_of_none (h : s.Remembers registered entered) (hs : s.Keyed)
    {operation : Operation} (hregistered : operation.registered? = none)
    (hentered : operation.entered? = none) :
    (s.perform operation).Remembers registered entered := by
  cases operation with
  | register athlete => cases hregistered
  | enter entry => cases hentered
  | record reads => exact h.congr rfl rfl
  | setWriteFault reason => exact h.congr rfl rfl
  | saveConfiguration config =>
      rw [perform_saveConfiguration]
      exact h.congr rfl rfl
  | upsertResults race batch =>
      rcases perform_upsertResults s race batch with heq | heq <;> rw [heq]
      · exact h
      · exact h.congr rfl rfl
  | updateStatus id status =>
      rcases perform_updateStatus_of_keyed hs id status with heq | heq <;> rw [heq]
      · exact h
      · exact h.setStatus id status

theorem Remembers.perform (h : s.Remembers registered entered) (hs : s.Keyed)
    (operation : Operation) :
    (s.perform operation).Remembers (registered ++ operation.registered?.toList)
      (entered ++ operation.entered?.toList) := by
  cases operation with
  | register athlete =>
      rw [Operation.entered?, Option.toList_none, List.append_nil]
      exact h.register hs.athletes athlete
  | enter entry =>
      rw [Operation.registered?, Option.toList_none, List.append_nil]
      exact h.enter entry
  | _ =>
      rw [Operation.registered?, Operation.entered?, Option.toList_none, Option.toList_none,
        List.append_nil, List.append_nil]
      exact h.perform_of_none hs rfl rfl

theorem Remembers.foldl_perform (h : s.Remembers registered entered) (hs : s.Reachable)
    (operations : List Operation) :
    (operations.foldl Store.perform s).Remembers
      (registered ++ operations.filterMap Operation.registered?)
      (entered ++ operations.filterMap Operation.entered?) := by
  induction operations generalizing s registered entered with
  | nil => simpa using h
  | cons operation operations ih =>
      have hrest := ih (h.perform hs.keyed operation) (hs.perform operation)
      simp only [List.filterMap_eq_flatMap_toList, List.flatMap_cons, List.append_assoc] at hrest ⊢
      exact hrest

/-- What a store remembers of a history. -/
theorem remembers_foldl_next (steps : List Step) :
    (steps.foldl next .empty).Remembers (steps.filterMap Step.registered?)
      (steps.filterMap Step.entered?) := by
  obtain ⟨operations, heq, hregistered, hentered⟩ := exists_operations_foldl_next steps .empty
  rw [heq, ← hregistered, ← hentered]
  exact remembers_empty.foldl_perform .empty operations

/-! ### What holds of every store -/

/-- A store in which everything has its one place, told of these athletes and
entries. -/
structure WellKept (s : Store) (registered : List Athlete) (entered : List Slot) : Prop
    extends s.Remembers registered entered, s.Tabled where
  athletes : (s.athletes.map Athlete.id).Nodup
  /-- Entries are filed under the athlete they are for. -/
  owner : ∀ athlete, ∀ entry ∈ s.entriesOf athlete, entry.athlete = athlete
  /-- One row of a race for an athlete and a split. -/
  rows : ∀ race, ((s.resultsOf race).map Slot.key).Nodup

/--
**Whatever happens to a store, everything in it has its one place.**  No athlete is on
the roster twice, no entry stands twice for a split or under another athlete, no
result twice for an athlete and a split.  And what is there is what was registered and
entered last.
-/
theorem wellKept_foldl_next (steps : List Step) :
    (steps.foldl next .empty).WellKept (steps.filterMap Step.registered?)
      (steps.filterMap Step.entered?) := by
  have hs : (steps.foldl next .empty).Reachable := Reachable.empty.foldl_next steps
  exact
    { toRemembers := remembers_foldl_next steps
      toTabled := hs.tabled
      athletes := hs.keyed.athletes
      owner := fun _ _ => hs.filed.mem_entriesOf
      rows := hs.filed.nodup_resultsOf }

end ChipTiming.Store
