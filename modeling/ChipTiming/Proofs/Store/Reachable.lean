/-
The stores that there can be.

A store starts out holding nothing and changes by its operations only.
`Reachable` is every state this can lead to, in any order of operations, with
those that fail among them.  Of an operation that may be refused, it is said once
what it does to the store.

What such stores have in common is kept by every operation.  No two athletes of
the roster and no two events of the catalog have one identifier, because both are
put under it (`Keyed`).  Entries made by hand stand under their own athlete, a
race has one row for an athlete and a split, and every course was part of a
configuration that was accepted (`Filed`).  And there is one list of entries for
an athlete and one of results for a race (`Tabled`), so that nothing is stored
that looking it up does not find.
-/
import ChipTiming.Proofs.Catalog.Saved
import ChipTiming.Proofs.Store.Writes

namespace ChipTiming

namespace Store

/-- What may change a store. -/
inductive Operation where
  | saveConfiguration (config : Configuration)
  | register (athlete : Athlete)
  | record (reads : List ChipRead)
  | enter (entry : Slot)
  | setWriteFault (reason : Option String)
  | upsertResults (race : RaceId) (batch : List Slot)
  | updateStatus (athlete : AthleteId) (status : Status)

/-- What an operation made of the store, or the store itself if the operation
failed. -/
def keptOr {ε : Type} (s : Store) : Except ε Store → Store
  | .ok next => next
  | .error _ => s

/-- The store after an operation. -/
def perform (s : Store) : Operation → Store
  | .saveConfiguration config => s.keptOr (s.saveConfiguration config)
  | .register athlete => s.register athlete
  | .record reads => s.record reads
  | .enter entry => s.enter entry
  | .setWriteFault reason => s.setWriteFault reason
  | .upsertResults race batch => s.keptOr (s.upsertResults race batch)
  | .updateStatus athlete status => s.keptOr (s.updateStatus athlete status)

/-- Reachable from a store that holds nothing. -/
inductive Reachable : Store → Prop
  | empty : Reachable .empty
  | perform {s : Store} (h : Reachable s) (operation : Operation) :
      Reachable (s.perform operation)

/-! ### Operations that may be refused -/

theorem perform_saveConfiguration (s : Store) (config : Configuration) :
    s.perform (.saveConfiguration config) =
      { s with catalog := s.catalog.after (.save config) } := by
  rw [perform, saveConfiguration, Catalog.after]
  cases s.catalog.update config <;> rfl

theorem perform_upsertResults (s : Store) (race : RaceId) (batch : List Slot) :
    s.perform (.upsertResults race batch) = s ∨
      s.perform (.upsertResults race batch) = s.withResults race batch := by
  rw [perform]
  obtain hfault | ⟨reason, hfault⟩ := Option.eq_none_or_eq_some s.writeFault
  · rw [upsertResults_of_writable hfault]
    exact Or.inr rfl
  · rw [upsertResults_of_fault hfault]
    exact Or.inl rfl

theorem perform_updateStatus (s : Store) (id : AthleteId) (status : Status) :
    ∃ athletes, s.perform (.updateStatus id status) = { s with athletes } ∧
      athletes.map Athlete.id = s.athletes.map Athlete.id := by
  rw [perform]
  cases hwrite : s.updateStatus id status with
  | error failure => exact ⟨s.athletes, rfl, rfl⟩
  | ok next => exact updateStatus_eq_ok hwrite

/-- The catalog changes only when a configuration is saved. -/
theorem catalog_perform (s : Store) (operation : Operation) :
    (s.perform operation).catalog = s.catalog ∨
      ∃ config, (s.perform operation).catalog = s.catalog.after (.save config) := by
  cases operation with
  | saveConfiguration config =>
      rw [perform_saveConfiguration]
      exact Or.inr ⟨config, rfl⟩
  | upsertResults race batch =>
      left
      rcases perform_upsertResults s race batch with heq | heq <;> rw [heq]
      rfl
  | updateStatus id status =>
      left
      obtain ⟨athletes, heq, -⟩ := perform_updateStatus s id status
      rw [heq]
  | _ => exact Or.inl rfl

/-! ### Identifiers -/

/-- Athletes and events have identifiers of their own. -/
structure Keyed (s : Store) : Prop where
  athletes : (s.athletes.map Athlete.id).Nodup
  events : (s.catalog.events.map Event.id).Nodup

theorem nodup_events_after {c : Catalog} {config : Configuration}
    (h : (c.events.map Event.id).Nodup) :
    ((c.after (.save config)).events.map Event.id).Nodup := by
  rw [Catalog.after, Catalog.update]
  cases config.validate with
  | error mistake => exact h
  | ok => exact nodup_putAll (h.sublist (List.filter_sublist.map Event.id))

theorem Keyed.perform {s : Store} (h : s.Keyed) (operation : Operation) :
    (s.perform operation).Keyed := by
  cases operation with
  | register athlete => exact ⟨nodup_put h.athletes, h.events⟩
  | record reads => exact ⟨h.athletes, h.events⟩
  | enter entry => exact ⟨h.athletes, h.events⟩
  | setWriteFault reason => exact ⟨h.athletes, h.events⟩
  | saveConfiguration config =>
      rw [perform_saveConfiguration]
      exact ⟨h.athletes, nodup_events_after h.events⟩
  | upsertResults race batch =>
      rcases perform_upsertResults s race batch with heq | heq <;> rw [heq]
      · exact h
      · exact ⟨h.athletes, h.events⟩
  | updateStatus id status =>
      obtain ⟨athletes, heq, hids⟩ := perform_updateStatus s id status
      rw [heq]
      exact ⟨hids ▸ h.athletes, h.events⟩

theorem Reachable.keyed {s : Store} (h : s.Reachable) : s.Keyed := by
  induction h with
  | empty => exact ⟨List.nodup_nil, List.nodup_nil⟩
  | perform _ operation ih => exact ih.perform operation

/-- So no event is launched twice. -/
theorem nodup_launchedEvents {s : Store} (h : s.Keyed) (race : RaceId) :
    (s.launchedEvents race).Nodup := by
  have hperm : (s.catalog.eventsOf race).Perm (s.catalog.events.filter (·.race == race)) :=
    List.mergeSort_perm _ _
  have hids : ((s.catalog.eventsOf race).map Event.id).Nodup :=
    (hperm.map Event.id).nodup_iff.mpr (h.events.sublist (List.filter_sublist.map Event.id))
  exact hids.sublist (List.filter_sublist.map Event.id)

/-! ### Where things stand -/

/-- Entries stand under their own athlete, and rows under keys of their own. -/
structure Filed (s : Store) : Prop where
  entries : ∀ filed ∈ s.entries, ∀ entry ∈ filed.2, entry.athlete = filed.1
  results : ∀ stored ∈ s.results, (stored.2.map Slot.key).Nodup
  courses : s.catalog.CoursesConfigured

theorem Filed.mem_entriesOf {s : Store} (h : s.Filed) {athlete : AthleteId} {entry : Slot}
    (hentry : entry ∈ s.entriesOf athlete) : entry.athlete = athlete := by
  rw [entriesOf] at hentry
  cases hfound : withKey? Prod.fst athlete s.entries with
  | none => simp [hfound] at hentry
  | some filed =>
      obtain ⟨hfiled, rfl⟩ := mem_of_withKey? hfound
      rw [hfound] at hentry
      exact h.entries filed hfiled entry hentry

theorem Filed.nodup_resultsOf {s : Store} (h : s.Filed) (race : RaceId) :
    ((s.resultsOf race).map Slot.key).Nodup := by
  rw [resultsOf]
  cases hfound : withKey? Prod.fst race s.results with
  | none => exact List.nodup_nil
  | some stored => exact h.results stored (mem_of_withKey? hfound).1

theorem Filed.perform {s : Store} (h : s.Filed) (operation : Operation) :
    (s.perform operation).Filed := by
  cases operation with
  | register athlete => exact ⟨h.entries, h.results, h.courses⟩
  | record reads => exact ⟨h.entries, h.results, h.courses⟩
  | setWriteFault reason => exact ⟨h.entries, h.results, h.courses⟩
  | enter entry =>
      refine ⟨fun filed hfiled other hother => ?_, h.results, h.courses⟩
      rcases mem_of_mem_put hfiled with rfl | hfiled
      · rcases mem_of_mem_put hother with rfl | hother
        · rfl
        · exact h.mem_entriesOf hother
      · exact h.entries filed hfiled other hother
  | saveConfiguration config =>
      rw [perform_saveConfiguration]
      exact ⟨h.entries, h.results, h.courses.after (.save config)⟩
  | upsertResults race batch =>
      rcases perform_upsertResults s race batch with heq | heq <;> rw [heq]
      · exact h
      · refine ⟨h.entries, fun stored hstored => ?_, h.courses⟩
        rcases mem_of_mem_put hstored with rfl | hstored
        · exact nodup_putAll (h.nodup_resultsOf race)
        · exact h.results stored hstored
  | updateStatus id status =>
      obtain ⟨athletes, heq, -⟩ := perform_updateStatus s id status
      rw [heq]
      exact ⟨h.entries, h.results, h.courses⟩

theorem Reachable.filed {s : Store} (h : s.Reachable) : s.Filed := by
  induction h with
  | empty => exact ⟨List.forall_mem_nil _, List.forall_mem_nil _, List.forall_mem_nil _⟩
  | perform _ operation ih => exact ih.perform operation

/-! ### Tables -/

/-- Entries are kept by athlete and results by race, in one list each. -/
structure Tabled (s : Store) : Prop where
  entries : (s.entries.map Prod.fst).Nodup
  results : (s.results.map Prod.fst).Nodup

theorem Tabled.perform {s : Store} (h : s.Tabled) (operation : Operation) :
    (s.perform operation).Tabled := by
  cases operation with
  | register athlete => exact ⟨h.entries, h.results⟩
  | record reads => exact ⟨h.entries, h.results⟩
  | setWriteFault reason => exact ⟨h.entries, h.results⟩
  | enter entry => exact ⟨nodup_put h.entries, h.results⟩
  | saveConfiguration config =>
      rw [perform_saveConfiguration]
      exact ⟨h.entries, h.results⟩
  | upsertResults race batch =>
      rcases perform_upsertResults s race batch with heq | heq <;> rw [heq]
      · exact h
      · exact ⟨h.entries, nodup_put h.results⟩
  | updateStatus id status =>
      obtain ⟨athletes, heq, -⟩ := perform_updateStatus s id status
      rw [heq]
      exact ⟨h.entries, h.results⟩

theorem Reachable.tabled {s : Store} (h : s.Reachable) : s.Tabled := by
  induction h with
  | empty => exact ⟨List.nodup_nil, List.nodup_nil⟩
  | perform _ operation ih => exact ih.perform operation

end Store

/-! ### Starters -/

/-- An athlete of race 1, with one number for everything else. -/
def starter (n : BitVec 128) (chip : String) : Athlete :=
  ⟨⟨n⟩, ⟨1⟩, ⟨n⟩, ⟨n⟩, "", chip, .unspecified, none, .notYetStarted⟩

/-- A read of a chip five seconds after the start. -/
def startRead (n : BitVec 128) (chip : String) : ChipRead :=
  ⟨chip, early 5, ⟨n⟩, true⟩

/-- One athlete, who has started. -/
def oneStarter : Store :=
  ((Store.empty.perform (.saveConfiguration (Catalog.smallRace 1 1))).perform
    (.register (starter 1 "a"))).perform (.record [startRead 1 "a"])

theorem reachable_oneStarter : oneStarter.Reachable :=
  ((Store.Reachable.empty.perform _).perform _).perform _

/-- A race with two events. -/
def twoEvents : Configuration :=
  { Catalog.smallRace 1 1 with
    events := (Catalog.smallRace 1 1).events ++ (Catalog.smallRace 1 2).events
    readers := (Catalog.smallRace 1 1).readers ++ (Catalog.smallRace 1 2).readers
    splits := (Catalog.smallRace 1 1).splits ++ (Catalog.smallRace 1 2).splits
    waves := (Catalog.smallRace 1 1).waves ++ (Catalog.smallRace 1 2).waves }

/-- One athlete in each of two events, both of whom have started. -/
def twoStarters : Store :=
  (((Store.empty.perform (.saveConfiguration twoEvents)).perform
    (.register (starter 1 "a"))).perform (.register (starter 2 "b"))).perform
    (.record [startRead 1 "a", startRead 2 "b"])

theorem reachable_twoStarters : twoStarters.Reachable :=
  (((Store.Reachable.empty.perform _).perform _).perform _).perform _

end ChipTiming
