/-
The course of an event, from the catalog or from the source.

A cycle takes the course of an event from its catalog, and asks its source for the
splits only where the catalog has none.  The two ways are not the same.  A catalog
groups the splits of a configuration by event and sorts each group when the
configuration is saved.  A store looks whether the event is one of the race and
answers with the course of its own catalog, and the cycle then sorts what it was
given.

For an event of the race they come to one and the same course, because sorting
leaves alone what is in order already, at whatever distances the splits are
(`Store.courseOf_empty`).  And the course is all that scoring takes from a catalog
(`Store.score_congr_course`).  So it makes no difference to any result whether the
configuration was put into the catalog of the cycle (`computeEvent_cached`).
-/
import ChipTiming.Proofs.Catalog.Courses
import ChipTiming.Proofs.Cycle.Athletes

namespace ChipTiming

variable {config : Configuration}

namespace Catalog

theorem event?_save (hvalid : config.validate = .ok ()) {e : Event} (he : e ∈ config.events) :
    (Catalog.empty.after (.save config)).event? e.id = some e :=
  (represents_save hvalid).events.withKey?_eq_some_iff.mpr
    ⟨⟨config.race.id, config, Function.update_self .., he⟩, rfl⟩

theorem course?_save_eq_none (hvalid : config.validate = .ok ()) {event : EventId}
    (hnone : ∀ split ∈ config.splits, split.event ≠ event) :
    (Catalog.empty.after (.save config)).course? event = none := by
  rw [Option.eq_none_iff_forall_ne_some]
  intro course hcourse
  obtain ⟨race, other, hsaved, -, rfl, hne⟩ :=
    (represents_save hvalid).course?_eq_some_iff.mp hcourse
  have hother : other = config := by
    by_cases hrace : race = config.race.id
    · rw [hrace, Function.update_self, Option.some.injEq] at hsaved
      exact hsaved.symm
    · rw [Function.update_of_ne hrace] at hsaved
      simp [Saved.nothing] at hsaved
  obtain ⟨split, hsplit, hevent⟩ := Configuration.course_ne_nil_iff.mp hne
  exact hnone split (hother ▸ hsplit) hevent

end Catalog

namespace Store

variable {s : Store} {settings : Settings} {race : RaceId} {event : EventId} {e : Event}

/-- Of a catalog, scoring an event reads the course of the event only. -/
theorem score_congr_course {catalog catalog' : Catalog}
    (h : s.courseOf catalog race event = s.courseOf catalog' race event) :
    s.score catalog settings race event = s.score catalog' settings race event := by
  have hfound : s.scoreIn catalog settings race event =
      s.scoreIn catalog' settings race event := by
    funext trace
    unfold scoreIn
    rw [h]
  rw [score_eq, score_eq, h, hfound]

/-- Of an event of the race, a store gives away the course. -/
theorem eventSplits_of_event? (hevent : s.catalog.event? event = some e) (hrace : e.race = race) :
    s.eventSplits race event = (s.catalog.course? event).getD [] := by
  unfold eventSplits
  rw [hevent]
  exact if_pos hrace

/-- **Without a catalog, an event of the race is scored on the course that the catalog
of the store has for it.** -/
theorem courseOf_empty (hcourses : s.catalog.CoursesConfigured)
    (hevent : s.catalog.event? event = some e) (hrace : e.race = race) :
    s.courseOf .empty race event = s.courseOf s.catalog race event := by
  rw [courseOf_catalog, ← eventSplits_of_event? hevent hrace]
  show courseOrder (s.eventSplits race event) = s.eventSplits race event
  refine courseOrder_of_pairwise ?_
  rw [eventSplits_of_event? hevent hrace]
  cases hcourse : s.catalog.course? event with
  | none => exact List.Pairwise.nil
  | some course => exact (hcourses.isCourse hcourse).sorted

theorem score_of_course?_eq_none (hevent : s.catalog.event? event = some e)
    (hrace : e.race = race) (hcourse : s.catalog.course? event = none) :
    s.eventSplits race event = [] ∧ s.score s.catalog settings race event = .none event := by
  have hsplits : s.eventSplits race event = [] := by
    rw [eventSplits_of_event? hevent hrace, hcourse]
    rfl
  refine ⟨hsplits, ?_⟩
  rw [score_eq, courseOf_catalog, hcourse]
  rfl

end Store

/--
**Events have the same results with their configuration in the catalog and without
it**, over a store that holds the configuration and whatever athletes, reads and
entries.  An event without splits has no results either way: the catalog has no course
for it, and the store no splits.
-/
theorem computeEvent_cached (hvalid : config.validate = .ok ()) (athletes : List Athlete)
    (reads : List ChipRead) (entries : List (AthleteId × List Slot)) (settings : Settings) :
    ∃ catalog saved s, Catalog.empty.update config = .ok catalog ∧
      Store.empty.saveConfiguration config = .ok saved ∧
      s = { saved with athletes, reads, entries } ∧
      ∀ e ∈ config.events, ∃ results,
        computeEvent s.source catalog settings config.race.id e.id = .ok results ∧
        computeEvent s.source .empty settings config.race.id e.id = .ok results ∧
        ((∀ split ∈ config.splits, split.event ≠ e.id) →
          catalog.course? e.id = none ∧ s.eventSplits config.race.id e.id = [] ∧
            results = .none e.id) := by
  let catalog := Catalog.empty.after (.save config)
  let saved : Store := { Store.empty with catalog }
  let s : Store := { saved with athletes, reads, entries }
  have hupdate : Catalog.empty.update config = .ok catalog := by
    rw [Catalog.update_of_valid hvalid, ← Catalog.after_save hvalid]
  have hsave : Store.empty.saveConfiguration config = .ok saved := by
    rw [Store.saveConfiguration]
    show Catalog.empty.update config >>= _ = _
    rw [hupdate]
    rfl
  refine ⟨catalog, saved, s, hupdate, hsave, rfl, fun e he => ?_⟩
  have hevent : s.catalog.event? e.id = some e := Catalog.event?_save hvalid he
  have hrace : e.race = config.race.id := (Configuration.wellFormed hvalid).eventRace e he
  have hcourses : s.catalog.CoursesConfigured :=
    Catalog.coursesConfigured_foldl_empty [.save config]
  have hsame : s.score .empty settings config.race.id e.id =
      s.score catalog settings config.race.id e.id :=
    Store.score_congr_course (Store.courseOf_empty hcourses hevent hrace)
  refine ⟨s.score catalog settings config.race.id e.id, s.computeEvent_source .., ?_,
    fun hnone => ?_⟩
  · rw [s.computeEvent_source, hsame]
  · have hcourse : s.catalog.course? e.id = none := Catalog.course?_save_eq_none hvalid hnone
    exact ⟨hcourse, Store.score_of_course?_eq_none hevent hrace hcourse⟩

/-- A race whose splits are configured from the finish back, with a second event
without splits. -/
def withWalk : Configuration :=
  { Catalog.backToFront with
    events := Catalog.backToFront.events ++ (Catalog.smallRace 1 2).events }

/-- An athlete seen at the start of the first event. -/
theorem computeEvent_withWalk :
    ∃ catalog saved s, Catalog.empty.update withWalk = .ok catalog ∧
      Store.empty.saveConfiguration withWalk = .ok saved ∧
      s = { saved with
        athletes := [starter 1 "a"], reads := [startRead 1 "a"], entries := [] } ∧
      (∃ results, computeEvent s.source catalog .standard ⟨1⟩ ⟨1⟩ = .ok results ∧
        computeEvent s.source .empty .standard ⟨1⟩ ⟨1⟩ = .ok results) ∧
      computeEvent s.source catalog .standard ⟨1⟩ ⟨2⟩ = .ok (.none ⟨2⟩) ∧
      computeEvent s.source .empty .standard ⟨1⟩ ⟨2⟩ = .ok (.none ⟨2⟩) := by
  have hvalid : withWalk.validate = .ok () := rfl
  obtain ⟨catalog, saved, s, hupdate, hsave, hs, hevents⟩ :=
    computeEvent_cached hvalid [starter 1 "a"] [startRead 1 "a"] [] .standard
  obtain ⟨results, hcached, hasked, -⟩ := hevents _ (List.mem_cons_self ..)
  obtain ⟨none, hcached', hasked', hnone⟩ :=
    hevents _ (List.mem_cons_of_mem _ (List.mem_singleton_self _))
  obtain ⟨-, -, rfl⟩ := hnone (by decide)
  exact ⟨catalog, saved, s, hupdate, hsave, hs, ⟨results, hcached, hasked⟩, hcached', hasked'⟩

end ChipTiming
