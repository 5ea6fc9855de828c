/-
A race, event by event.

A cycle over a race asks everything before it writes anything.  Running a cycle
for one event after the other asks the later ones when the earlier ones are
already written.  That makes no difference to what they score
(`Store.score_written`).  And it makes no difference to what is stored, because
putting results in one batch or in several is the same
(`Store.resultsOf_withResults_append`), as is setting statuses
(`Store.holdsSame_written_append`).

`recomputeEach_eq` is the induction over the events.  It compares the run with the
store to which everything is written at once, from the state before the first
event on; the count of bulk writes is all that tells the two apart
(`Store.HoldsSame`).
-/
import ChipTiming.Proofs.Cycle.Score
import ChipTiming.Proofs.Store.Steps

namespace ChipTiming

/-! ### What is compared -/

/-- A cycle for each of several events, on the store that the one before left, up to
the first that fails. -/
def recomputeEach (catalog : Catalog) (settings : Settings) (race : RaceId) :
    Store → List EventId → Store × Except Failure (List Report)
  | s, [] => (s, .ok [])
  | s, event :: events =>
    match recomputeEvent s.source catalog settings race event s with
    | (left, .error failure) => (left, .error failure)
    | (left, .ok report) =>
      let (last, reports) := recomputeEach catalog settings race left events
      (last, reports.map (report :: ·))

/-- Several reports as one. -/
def Report.join (race : RaceId) (reports : List Report) : Report where
  race
  events := reports.flatMap (·.events)
  athletes := total (·.athletes) reports
  results := reports.flatMap (·.results)
  changes := reports.flatMap (·.changes)
  rejected := total (·.rejected) reports
  overrides := total (·.overrides) reports

/-- Two stores hold the same, however often either was written. -/
structure Store.HoldsSame (a b : Store) : Prop where
  catalog : a.catalog = b.catalog
  athletes : a.athletes = b.athletes
  reads : a.reads = b.reads
  entries : a.entries = b.entries
  results : ∀ race, a.resultsOf race = b.resultsOf race
  writeFault : a.writeFault = b.writeFault

theorem Store.HoldsSame.trans {a b c : Store} (hab : a.HoldsSame b) (hbc : b.HoldsSame c) :
    a.HoldsSame c where
  catalog := hab.catalog.trans hbc.catalog
  athletes := hab.athletes.trans hbc.athletes
  reads := hab.reads.trans hbc.reads
  entries := hab.entries.trans hbc.entries
  results race := (hab.results race).trans (hbc.results race)
  writeFault := hab.writeFault.trans hbc.writeFault

/-! ### Reports -/

/-- A report of several events is made of one report for each. -/
theorem Report.ofEvents_eq_join (race : RaceId) (computed : List EventResults) :
    .ofEvents race computed = join race (computed.map fun results => .ofEvents race [results]) := by
  have hevents : computed.map (·.event) = computed.flatMap fun results => [results.event] :=
    List.map_eq_flatMap
  simp [ofEvents, join, total_map, List.flatMap_map, hevents]

variable {s : Store} {catalog : Catalog} {settings : Settings} {race : RaceId}
  {event : EventId} {events : List EventId}

/-! ### Writing in parts -/

theorem Store.holdsSame_written_nil (s : Store) (race : RaceId) :
    s.HoldsSame (s.written (.ofEvents race [])) := by
  refine ⟨rfl, rfl, rfl, rfl, fun race' => ?_, rfl⟩
  exact resultsOf_withResults_nil.symm

/-- Writing one report after another is writing both at once. -/
theorem Store.holdsSame_written_append (s : Store) (race : RaceId)
    (first second : List EventResults) :
    ((s.written (.ofEvents race first)).written (.ofEvents race second)).HoldsSame
      (s.written (.ofEvents race (first ++ second))) := by
  refine ⟨rfl, ?_, rfl, rfl, fun race' => ?_, rfl⟩
  · show (second.flatMap (·.changes)).foldl _ ((first.flatMap (·.changes)).foldl _ s.athletes) =
      ((first ++ second).flatMap (·.changes)).foldl _ s.athletes
    rw [List.flatMap_append, List.foldl_append]
  · show ((s.withResults race (first.flatMap (·.results))).withResults race
        (second.flatMap (·.results))).resultsOf race' =
      (s.withResults race ((first ++ second).flatMap (·.results))).resultsOf race'
    rw [List.flatMap_append, resultsOf_withResults_append]

/-! ### One event after the other -/

/-- **A run over events that are launched succeeds, and stores what writing all their
scores at once would.**  What each event scores is what it scored before the run. -/
theorem recomputeEach_eq (catalog : Catalog) (settings : Settings) (hs : s.Reachable)
    (hwritable : s.writeFault = none)
    (hevents : events.Nodup) (hlaunched : ∀ event ∈ events, event ∈ s.launchedEvents race) :
    (recomputeEach catalog settings race s events).2 =
        .ok (events.map fun event => .ofEvents race [s.score catalog settings race event]) ∧
      (recomputeEach catalog settings race s events).1.HoldsSame
        (s.written (.ofEvents race (events.map (s.score catalog settings race)))) := by
  induction events generalizing s with
  | nil => exact ⟨rfl, s.holdsSame_written_nil race⟩
  | cons event events ih =>
      rw [List.nodup_cons] at hevents
      have hevent : event ∈ s.launchedEvents race := hlaunched event (List.mem_cons_self ..)
      have hstep : recomputeEvent s.source catalog settings race event s =
          (s.written (.ofEvents race [s.score catalog settings race event]),
            .ok (.ofEvents race [s.score catalog settings race event])) :=
        recomputeEvent_source hs hwritable hevent
      -- What the first event leaves is a store in which the others score as before.
      generalize hleft : s.written (.ofEvents race [s.score catalog settings race event]) = left
        at hstep
      have hreachable : left.Reachable := by
        have h := hs.recompute (.oneEvent event) s.source catalog settings race
        rwa [Scope.recompute, hstep] at h
      have hrest : left.writeFault = none ∧
          ∀ other ∈ events, other ∈ left.launchedEvents race := by
        rw [← hleft]
        exact ⟨hwritable, fun other hother => hlaunched other (List.mem_cons_of_mem _ hother)⟩
      have hscore : ∀ other ∈ events,
          left.score catalog settings race other = s.score catalog settings race other := by
        intro other hother
        rw [← hleft]
        exact Store.score_written hs.keyed.athletes fun heq => hevents.1 (heq ▸ hother)
      obtain ⟨hreports, hholds⟩ := ih hreachable hrest.1 hevents.2 hrest.2
      rw [recomputeEach, hstep]
      refine ⟨?_, ?_⟩
      · show (recomputeEach catalog settings race left events).2.map _ = _
        have hsame : (events.map fun event =>
              Report.ofEvents race [left.score catalog settings race event]) =
            events.map fun event => .ofEvents race [s.score catalog settings race event] :=
          List.map_congr_left fun other hother => by rw [hscore other hother]
        rw [hreports, hsame]
        rfl
      · rw [List.map_congr_left hscore] at hholds
        refine hholds.trans ?_
        rw [← hleft]
        exact s.holdsSame_written_append race [s.score catalog settings race event] _

/--
**Scoring a race is scoring its launched events one by one.**  Both succeed, they
leave stores that hold the same, and the report of the race is made of those of the
events.
-/
theorem recomputeRace_eq_recomputeEach (s : Store) (hs : s.Reachable)
    (hwritable : s.writeFault = none) (catalog : Catalog) (settings : Settings)
    (race : RaceId) :
    ∃ reports,
      (recomputeEach catalog settings race s (s.launchedEvents race)).2 = .ok reports ∧
      (recomputeRace s.source catalog settings race s).2 = .ok (.join race reports) ∧
      (recomputeEach catalog settings race s (s.launchedEvents race)).1.HoldsSame
        (recomputeRace s.source catalog settings race s).1 := by
  obtain ⟨hreports, hholds⟩ := recomputeEach_eq catalog settings hs hwritable
    (Store.nodup_launchedEvents hs.keyed race) fun _ h => h
  refine ⟨_, hreports, ?_, ?_⟩
  · rw [recomputeRace_source hs hwritable, Report.ofEvents_eq_join, List.map_map]
    rfl
  · rw [recomputeRace_source hs hwritable]
    exact hholds

theorem recompute_twoStarters :
    twoStarters.Reachable ∧ twoStarters.writeFault = none ∧
      twoStarters.launchedEvents ⟨1⟩ = [⟨1⟩, ⟨2⟩] ∧
      ∃ reports,
        (recomputeEach .empty .standard ⟨1⟩ twoStarters (twoStarters.launchedEvents ⟨1⟩)).2 =
          .ok reports ∧
        (recomputeRace twoStarters.source .empty .standard ⟨1⟩ twoStarters).2 =
          .ok (.join ⟨1⟩ reports) ∧
        (recomputeEach .empty .standard ⟨1⟩ twoStarters
            (twoStarters.launchedEvents ⟨1⟩)).1.HoldsSame
          (recomputeRace twoStarters.source .empty .standard ⟨1⟩ twoStarters).1 :=
  ⟨reachable_twoStarters, by cbv, by cbv,
    recomputeRace_eq_recomputeEach twoStarters reachable_twoStarters (by cbv) .empty .standard
      ⟨1⟩⟩

end ChipTiming
