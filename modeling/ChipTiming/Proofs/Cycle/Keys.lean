/-
Which rows a report has.

A score has a row for each athlete that is scored and each split of the course
(`Store.keys_score`).  Athletes are told apart by the roster and splits by the
configuration that gave the course, whether the catalog of the cycle holds it or
the store.  And an athlete is scored in one event only.  So no two rows of a
report are for one athlete and one split (`Store.nodup_keys_results`), and no two
of its changes of status are for one athlete (`Store.eq_of_mem_changes`).
-/
import ChipTiming.Proofs.Cycle.Athletes

namespace ChipTiming.Store

variable {s : Store} {catalog : Catalog} {settings : Settings} {race : RaceId} {event : EventId}
  {events : List EventId}

/-! ### Athletes -/

theorem nodup_athletes_eventTraces (hids : (s.athletes.map Athlete.id).Nodup) (race : RaceId)
    (event : EventId) : ((s.eventTraces race event).map (·.athlete)).Nodup := by
  have hpairwise : (s.athletesOf race event).Pairwise fun a b => a.id ≠ b.id :=
    List.pairwise_map.mp (hids.sublist (List.filter_sublist.map Athlete.id))
  rw [eventTraces, List.Nodup, List.pairwise_map, List.pairwise_filterMap]
  refine hpairwise.imp fun hne trace htrace trace' htrace' => ?_
  obtain ⟨waveStart, -, rfl⟩ := Option.map_eq_some_iff.mp htrace
  obtain ⟨waveStart', -, rfl⟩ := Option.map_eq_some_iff.mp htrace'
  exact hne

/-- Whether an athlete is scored in an event: registered for it, in a launched
wave. -/
def scores (s : Store) (race : RaceId) (event : EventId) (athlete : AthleteId) : Bool :=
  ((s.eventTraces race event).map (·.athlete)).contains athlete

/-- An athlete is scored in one event only. -/
theorem event_eq_of_scores (hids : (s.athletes.map Athlete.id).Nodup) {event event' : EventId}
    {athlete : AthleteId} (h : s.scores race event athlete = true)
    (h' : s.scores race event' athlete = true) : event = event' := by
  rw [scores, List.contains_iff_mem] at h h'
  obtain ⟨trace, htrace, rfl⟩ := List.mem_map.mp h
  obtain ⟨trace', htrace', heq⟩ := List.mem_map.mp h'
  obtain ⟨a, ha, hid⟩ := exists_athlete_of_mem_eventTraces htrace
  obtain ⟨b, hb, hid'⟩ := exists_athlete_of_mem_eventTraces htrace'
  exact (eq_of_mem_athletesOf hids ha hb (hid.trans (heq.symm.trans hid'.symm))).2

/-- Changes of status that name one athlete are one and the same. -/
theorem eq_of_mem_changes (hids : (s.athletes.map Athlete.id).Nodup)
    {change change' : StatusChange}
    (h : change ∈ (Report.ofEvents race (events.map (s.score catalog settings race))).changes)
    (h' : change' ∈ (Report.ofEvents race (events.map (s.score catalog settings race))).changes)
    (hathlete : change.athlete = change'.athlete) : change = change' := by
  obtain ⟨event, -, -, a, ha, waveStart, hlaunch, hscored⟩ := mem_changes_iff.mp h
  obtain ⟨event', -, -, b, hb, waveStart', hlaunch', hscored'⟩ := mem_changes_iff.mp h'
  have hid : a.id = b.id := by
    rw [(change_scoreTrace_eq_some hscored).1, (change_scoreTrace_eq_some hscored').1] at hathlete
    exact hathlete
  obtain ⟨rfl, rfl⟩ := eq_of_mem_athletesOf hids ha hb hid
  obtain rfl : waveStart = waveStart' := Option.some.inj (hlaunch.symm.trans hlaunch')
  exact Option.some.inj (hscored.symm.trans hscored')

/-! ### Splits -/

/-- No two splits of a course have one identifier, whichever catalog it is from. -/
theorem nodup_courseOf (hs : s.Filed) (hcatalog : catalog.CoursesConfigured) (race : RaceId)
    (event : EventId) : ((s.courseOf catalog race event).map (·.id)).Nodup := by
  have hstore : ((s.eventSplits race event).map (·.id)).Nodup := by
    rw [eventSplits]
    cases s.catalog.event? event with
    | none => exact List.nodup_nil
    | some found =>
        dsimp only
        split
        · cases hcourse : s.catalog.course? event with
          | none => exact List.nodup_nil
          | some course => exact hs.courses.nodup_course hcourse
        · exact List.nodup_nil
  rw [courseOf]
  cases hcourse : catalog.course? event with
  | none => exact ((List.mergeSort_perm _ _).map _).nodup_iff.mpr hstore
  | some course => exact hcatalog.nodup_course hcourse

/-! ### Rows -/

theorem mem_keys_score_iff (hs : s.Filed) {key : AthleteId × SplitId} :
    key ∈ (s.score catalog settings race event).results.map Slot.key ↔
      s.scores race event key.1 = true ∧
        key.2 ∈ (s.courseOf catalog race event).map (·.id) := by
  rw [keys_score hs, scores, List.contains_iff_mem]
  exact List.pair_mem_product

theorem scores_of_mem_score (hs : s.Filed) {row : Slot}
    (h : row ∈ (s.score catalog settings race event).results) :
    s.scores race event row.athlete = true :=
  ((mem_keys_score_iff hs).mp (List.mem_map_of_mem h)).1

theorem nodup_keys_score (hkeyed : s.Keyed) (hfiled : s.Filed)
    (hcatalog : catalog.CoursesConfigured) (settings : Settings) (race : RaceId)
    (event : EventId) :
    ((s.score catalog settings race event).results.map Slot.key).Nodup := by
  rw [keys_score hfiled]
  exact (nodup_athletes_eventTraces hkeyed.athletes race event).product
    (nodup_courseOf hfiled hcatalog race event)

/-- No two rows of a report are for one athlete and one split. -/
theorem nodup_keys_results (hkeyed : s.Keyed) (hfiled : s.Filed)
    (hcatalog : catalog.CoursesConfigured) (settings : Settings) (race : RaceId)
    (hevents : events.Nodup) :
    ((Report.ofEvents race (events.map (s.score catalog settings race))).results.map
      Slot.key).Nodup := by
  show (((events.map (s.score catalog settings race)).flatMap (·.results)).map Slot.key).Nodup
  rw [List.map_flatMap, List.flatMap_map, List.nodup_flatMap]
  refine ⟨fun event _ => nodup_keys_score hkeyed hfiled hcatalog settings race event, ?_⟩
  refine hevents.imp fun {event event'} hne key h h' => ?_
  exact hne (event_eq_of_scores hkeyed.athletes ((mem_keys_score_iff hfiled).mp h).1
    ((mem_keys_score_iff hfiled).mp h').1)

end ChipTiming.Store
