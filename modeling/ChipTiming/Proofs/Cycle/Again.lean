/-
A cycle run again at once.

The one thing that a cycle both reads and writes is the statuses on record.  The
changes that are reported for an athlete are no more than the one that scoring the
athlete's trace gave, since an athlete is in one event.  So each trace is read the
next time with just that change made to its status (`Store.eventTraces_written`),
and then the same is found as before, less the change (`scoreTrace_of_settled`).
The second report therefore has the results of the first, and writing them over
themselves changes nothing (`Store.withResults_withResults`).
-/
import ChipTiming.Proofs.Cycle.Athletes
import ChipTiming.Proofs.Store.Steps

namespace ChipTiming

variable {s first : Store} {race : RaceId} {event : EventId} {events : List EventId}
  {report : Report} (catalog : Catalog) (settings : Settings)

/-- The results of an event are the same without the changes of status. -/
theorem EventResults.ofScored_unchanged (event : EventId) (scored : List AthleteResults) :
    EventResults.ofScored event (scored.map fun found => { found with change := Option.none }) =
      { EventResults.ofScored event scored with changes := [] } := by
  simp [ofScored, List.flatMap_map, List.countP_map, total_map, Function.comp_def]

theorem Report.ofEvents_unchanged (race : RaceId) (computed : EventId → EventResults)
    (events : List EventId) :
    Report.ofEvents race (events.map fun event => { computed event with changes := [] }) =
      { Report.ofEvents race (events.map computed) with changes := [] } := by
  simp [ofEvents, List.flatMap_map, total_map, Function.comp_def]

namespace Store

/-! ### What is read the next time -/

/-- A trace with the change made that scoring it gives. -/
def settled (s : Store) (catalog : Catalog) (settings : Settings) (race : RaceId)
    (event : EventId) (trace : Trace) : Trace :=
  { trace with
    status := (s.scoreIn catalog settings race event trace).change.elim trace.status (·.next) }

/-- The changes reported for an athlete are those that scoring the athlete's trace
gave. -/
theorem mem_changes_and_names_iff (hids : (s.athletes.map Athlete.id).Nodup)
    (hevent : event ∈ events) (hcourse : (s.courseOf catalog race event).isEmpty = false)
    {a : Athlete} (ha : a ∈ s.athletesOf race event) {waveStart : Instant}
    (hlaunch : s.launchTime? event a.wave = some waveStart) (change : StatusChange) :
    (change ∈ (Report.ofEvents race (events.map (s.score catalog settings race))).changes ∧
        change.athlete = a.id) ↔
      (s.scoreIn catalog settings race event (a.trace waveStart (s.readsOf race))).change =
        some change := by
  refine ⟨?_, ?_⟩
  · intro h
    obtain ⟨hreported, hid⟩ := h
    obtain ⟨other, -, -, b, hb, waveStart', hlaunch', hscored⟩ := mem_changes_iff.mp hreported
    -- The change names the athlete of the trace, who is in this event only.
    have hnamed : change.athlete = b.id := by rw [(change_scoreTrace_eq_some hscored).1]; rfl
    obtain ⟨rfl, rfl⟩ := eq_of_mem_athletesOf hids ha hb (hid.symm.trans hnamed)
    rw [hlaunch, Option.some.injEq] at hlaunch'
    rwa [hlaunch']
  · intro hscored
    refine ⟨mem_changes_iff.mpr ⟨event, hevent, hcourse, a, ha, waveStart, hlaunch, hscored⟩, ?_⟩
    rw [(change_scoreTrace_eq_some hscored).1]
    rfl

theorem athletesOf_withChanges (s : Store) (changes : List StatusChange) (race : RaceId)
    (event : EventId) :
    (s.withChanges changes).athletesOf race event =
      (s.athletesOf race event).map (·.after changes) := by
  rw [athletesOf, athletes_withChanges, List.filter_map, athletesOf]
  refine congrArg (List.map _) (List.filter_congr fun a _ => ?_)
  obtain ⟨status, heq⟩ := a.exists_after_eq changes
  rw [Function.comp_apply, heq]

theorem entriesIn_withChanges (s : Store) (changes : List StatusChange) (race : RaceId)
    (event : EventId) :
    (s.withChanges changes).entriesIn race event = s.entriesIn race event := by
  have hids : ((s.withChanges changes).athletesOf race event).map (·.id) =
      (s.athletesOf race event).map (·.id) := by
    rw [athletesOf_withChanges, List.map_map]
    exact List.map_congr_left fun a _ => a.id_after changes
  funext athlete
  rw [entriesIn, entriesIn, overrides, overrides, hids]
  rfl

/-- After a cycle every trace of its events has the change made that it gave. -/
theorem eventTraces_written (hids : (s.athletes.map Athlete.id).Nodup)
    (hevent : event ∈ events) (hcourse : (s.courseOf catalog race event).isEmpty = false) :
    (s.written (.ofEvents race (events.map (s.score catalog settings race)))).eventTraces race
        event =
      (s.eventTraces race event).map (s.settled catalog settings race event) := by
  generalize hreport : Report.ofEvents race (events.map (s.score catalog settings race)) = report
  have hathletes : (s.written report).athletesOf race event =
      (s.athletesOf race event).map (·.after report.changes) :=
    athletesOf_withChanges ..
  show ((s.written report).athletesOf race event).filterMap (fun a =>
      (s.launchTime? event a.wave).map fun waveStart => a.trace waveStart (s.readsOf race)) = _
  rw [hathletes, List.filterMap_map, eventTraces, List.map_filterMap]
  refine List.filterMap_congr fun a ha => ?_
  rw [Function.comp_apply]
  cases hlaunch : s.launchTime? event a.wave with
  | none =>
      obtain ⟨status, heq⟩ := a.exists_after_eq report.changes
      rw [heq, hlaunch]
      rfl
  | some waveStart =>
      have hnamed := mem_changes_and_names_iff catalog settings hids hevent hcourse ha hlaunch
      rw [hreport] at hnamed
      rw [Athlete.after_eq hnamed, hlaunch]
      rfl

/-! ### What is found the next time -/

/-- What an event scores again is what it scored, without a change of status. -/
theorem score_again (hids : (s.athletes.map Athlete.id).Nodup) (hevent : event ∈ events) :
    (s.written (.ofEvents race (events.map (s.score catalog settings race)))).score catalog
        settings race event =
      { s.score catalog settings race event with changes := [] } := by
  have htraces : (s.courseOf catalog race event).isEmpty = false → _ :=
    eventTraces_written catalog settings hids hevent
  generalize Report.ofEvents race (events.map (s.score catalog settings race)) = report at htraces ⊢
  have hsplits : (s.written report).courseOf catalog race event = s.courseOf catalog race event :=
    rfl
  have hentries : (s.written report).entriesIn race event = s.entriesIn race event :=
    entriesIn_withChanges ..
  rw [score_eq, score_eq, hsplits]
  cases hcourse : (s.courseOf catalog race event).isEmpty with
  | true => rfl
  | false =>
      have hagain : ∀ trace, (s.written report).scoreIn catalog settings race event
          (s.settled catalog settings race event trace) =
            { s.scoreIn catalog settings race event trace with change := none } := by
        intro trace
        rw [scoreIn, hentries, hsplits]
        exact scoreTrace_of_settled rfl
      rw [htraces hcourse, List.map_map]
      have hscored : (s.eventTraces race event).map
          ((s.written report).scoreIn catalog settings race event ∘
            s.settled catalog settings race event) =
          ((s.eventTraces race event).map (s.scoreIn catalog settings race event)).map
            fun scored => { scored with change := none } := by
        rw [List.map_map]
        exact List.map_congr_left fun trace _ => hagain trace
      rw [hscored]
      exact EventResults.ofScored_unchanged ..

/-! ### What is written the next time -/

/-- Writing the same results again does nothing but count. -/
theorem withResults_withResults (h : ((s.resultsOf race).map Slot.key).Nodup)
    (batch : List Slot) :
    (s.withResults race batch).withResults race batch =
      { s.withResults race batch with bulkWrites := s.bulkWrites + 1 + 1 } := by
  have hresults : (s.withResults race batch).resultsOf race =
      putAll Slot.key batch (s.resultsOf race) := by
    rw [resultsOf_withResults, if_pos rfl]
  have hsame : put Prod.fst (race, putAll Slot.key batch (s.resultsOf race))
      (s.withResults race batch).results = (s.withResults race batch).results := by
    refine put_eq_self ?_
    rw [withResults, withKey?_put, if_pos rfl]
  rw [withResults, hresults, putAll_putAll h, hsame]
  rfl

theorem written_again (h : ((s.resultsOf race).map Slot.key).Nodup) (hrace : report.race = race) :
    (s.written report).written { report with changes := [] } =
      { s.written report with bulkWrites := s.bulkWrites + 1 + 1 } := by
  subst hrace
  show (({ s with athletes := (s.written report).athletes }.withResults report.race
    report.results).withResults report.race report.results) = _
  rw [withResults_withResults (s := { s with athletes := (s.written report).athletes }) h]
  rfl

end Store

/--
**A cycle run again at once changes nothing but the count of bulk writes.**  It
succeeds if the first one did, and reports the same but for the changes of status, of
which there are none left.
-/
theorem recomputeRace_again (hs : s.Reachable)
    (h : recomputeRace s.source catalog settings race s = (first, .ok report)) :
    recomputeRace first.source catalog settings race first =
      ({ first with bulkWrites := first.bulkWrites + 1 }, .ok { report with changes := [] }) := by
  have hreachable : first.Reachable := by
    have hnext := hs.recompute .wholeRace s.source catalog settings race
    rwa [Scope.recompute, h] at hnext
  obtain ⟨hwritable, hreport, hfirst⟩ := recomputeRace_source_eq_ok hs h
  have hscores : (first.launchedEvents race).map (first.score catalog settings race) =
      (s.launchedEvents race).map fun event =>
        { s.score catalog settings race event with changes := [] } := by
    rw [hfirst, hreport]
    exact List.map_congr_left fun event hevent =>
      Store.score_again catalog settings hs.keyed.athletes hevent
  have hagain : Report.ofEvents race
      ((first.launchedEvents race).map (first.score catalog settings race)) =
        { report with changes := [] } := by
    rw [hscores, hreport]
    exact Report.ofEvents_unchanged ..
  have hwritable' : first.writeFault = none := by
    rw [hfirst]
    exact hwritable
  have hcount : first.bulkWrites = s.bulkWrites + 1 := by
    rw [hfirst]
    rfl
  rw [recomputeRace_source hreachable hwritable', hagain, hcount, hfirst,
    Store.written_again (hs.filed.nodup_resultsOf race) (by rw [hreport]; rfl)]

theorem recompute_oneStarter_again :
    ∃ first report,
      recomputeRace oneStarter.source .empty .standard ⟨1⟩ oneStarter = (first, .ok report) ∧
        report.changes = [⟨⟨1⟩, .notYetStarted, .running⟩] ∧
        recomputeRace first.source .empty .standard ⟨1⟩ first =
          ({ first with bulkWrites := first.bulkWrites + 1 },
            .ok { report with changes := [] }) :=
  have hfirst := recomputeRace_source reachable_oneStarter (by cbv)
  ⟨_, _, hfirst, by cbv, recomputeRace_again .empty .standard reachable_oneStarter hfirst⟩

end ChipTiming
