/-
Cycles that fail.

A cycle that fails ought to leave its sink as it was.  It does if it fails while
computing, or because the sink refuses the bulk write.  But the changes of status
are written one by one after the results, and each of them can fail on its own: a
sink that lacks an athlete whose status changes keeps the results and whatever
changes came before.  This is the only way for a failed cycle to have written
something (`commit_error_iff`, `not_untouched_commit`).  A store that is its own
source knows everyone it is asked about and is never left half written
(`untouched_of_error`).
-/
import ChipTiming.Proofs.Cycle.Score

namespace ChipTiming

/-- Nothing was written: results, statuses and the count of bulk writes are as
before. -/
structure Store.Untouched (before after : Store) : Prop where
  results : ∀ race, after.resultsOf race = before.resultsOf race
  statuses : ∀ id,
    (after.athlete? id).map Athlete.status = (before.athlete? id).map Athlete.status
  bulkWrites : after.bulkWrites = before.bulkWrites

theorem Store.Untouched.refl (s : Store) : s.Untouched s :=
  ⟨fun _ => rfl, fun _ => rfl, rfl⟩

variable {source : Source} {catalog : Catalog} {settings : Settings} {race : RaceId}
  {event : EventId} {sink : Store} {scope : Scope}

/-! ### What becomes of the sink -/

/-- Once the bulk write is through, it shows. -/
theorem not_untouched_commit (report : Report) (h : sink.writeFault = none) :
    ¬sink.Untouched (commit sink report).1 := by
  intro huntouched
  obtain ⟨athletes, heq, -⟩ :=
    writeChanges_frame (sink.withResults report.race report.results) report.changes
  have hcount := huntouched.bulkWrites
  rw [commit_of_writable h, heq] at hcount
  exact absurd hcount (Nat.succ_ne_self _)

theorem commit_error_iff (report : Report) (h : sink.writeFault = none) :
    (∃ failure, (commit sink report).2 = .error failure) ↔
      ∃ change ∈ report.changes, sink.athlete? change.athlete = none := by
  have hwrites : (∃ failure, (writeChanges (sink.withResults report.race report.results)
      report.changes).2 = .error failure) ↔
        ∃ change ∈ report.changes, ¬sink.Knows change.athlete := writeChanges_error_iff h
  simp only [Store.athlete?_eq_none_iff, ← hwrites, commit_of_writable h]
  cases (writeChanges (sink.withResults report.race report.results) report.changes).2 <;>
    simp [Except.map]

/--
**A failed cycle has written something just if it came to an athlete the sink lacks.**
All of it was computed and writes are accepted, so that the results are already
stored, when a change of status names an athlete who is not on the roster of the sink.
-/
theorem half_written_iff (scope : Scope) (source : Source) (catalog : Catalog)
    (settings : Settings) (race : RaceId) (sink : Store) :
    ((∃ failure, (scope.recompute source catalog settings race sink).2 = .error failure) ∧
        ¬sink.Untouched (scope.recompute source catalog settings race sink).1) ↔
      sink.writeFault = none ∧
        ∃ report, scope.compute source catalog settings race = .ok report ∧
          ∃ change ∈ report.changes, sink.athlete? change.athlete = none := by
  rw [scope.recompute_eq]
  cases hcomputed : scope.compute source catalog settings race with
  | error failure =>
      simp [commitComputed, Store.Untouched.refl]
  | ok report =>
      rw [commitComputed]
      obtain hfault | ⟨reason, hfault⟩ := Option.eq_none_or_eq_some sink.writeFault
      · simp [commit_error_iff report hfault, not_untouched_commit report hfault, hfault]
      · simp [commit_of_fault hfault, Store.Untouched.refl, hfault]

/-! ### A sink that lacks an athlete -/

/-- A cycle from the store with the starter into one that holds nothing fails, and
leaves the starter's result behind. -/
theorem not_untouched_of_error :
    ¬∀ source sink : Store, source.Reachable → sink.Reachable →
      ∀ (scope : Scope) (catalog : Catalog) (settings : Settings) (race : RaceId)
        (failure : Failure),
      (scope.recompute source.source catalog settings race sink).2 = .error failure →
        sink.Untouched (scope.recompute source.source catalog settings race sink).1 := by
  intro huntouched
  have hchanges : (Scope.wholeRace.compute oneStarter.source .empty .standard ⟨1⟩).map
      Report.changes = .ok [⟨⟨1⟩, .notYetStarted, .running⟩] := by cbv
  cases hcomputed : Scope.wholeRace.compute oneStarter.source .empty .standard ⟨1⟩ with
  | error failure => rw [hcomputed] at hchanges; cases hchanges
  | ok report =>
      rw [hcomputed] at hchanges
      have hreport : report.changes = [⟨⟨1⟩, .notYetStarted, .running⟩] :=
        Except.ok.inj hchanges
      have hfails : ∃ failure, (commit .empty report).2 = .error failure :=
        (commit_error_iff report rfl).mpr ⟨_, hreport ▸ List.mem_singleton_self _, rfl⟩
      obtain ⟨failure, hfailure⟩ := hfails
      have hwritten : ¬Store.empty.Untouched (commit .empty report).1 :=
        not_untouched_commit report rfl
      refine hwritten ?_
      have hsink := huntouched oneStarter .empty reachable_oneStarter .empty .wholeRace .empty
        .standard ⟨1⟩ failure
      rw [Scope.recompute_eq, hcomputed] at hsink
      exact hsink hfailure

/-! ### A store as its own source -/

theorem Source.eventTraces_of_failingAt {query : Query} {about : Option EventId}
    {failure : Failure} {traces : List Trace}
    (h : (source.failingAt query about failure).eventTraces race event = .ok traces) :
    source.eventTraces race event = .ok traces := by
  dsimp only [Source.failingAt] at h
  split at h
  · cases h
  · exact h

/-- **A store that is its own source is left untouched by a cycle that fails**, at
whatever question the source may have failed. -/
theorem untouched_of_error (scope : Scope) (catalog : Catalog) (settings : Settings)
    (race : RaceId) (sink : Store)
    (hsource : source = sink.source ∨
      ∃ query event failure, source = sink.source.failingAt query event failure)
    {failure : Failure}
    (hfailure : (scope.recompute source catalog settings race sink).2 = .error failure) :
    sink.Untouched (scope.recompute source catalog settings race sink).1 := by
  rw [scope.recompute_eq] at hfailure ⊢
  cases hcomputed : scope.compute source catalog settings race with
  | error failure => exact .refl sink
  | ok report =>
      rw [hcomputed] at hfailure
      obtain hfault | ⟨reason, hfault⟩ := Option.eq_none_or_eq_some sink.writeFault
      · obtain ⟨change, hchange, hathlete⟩ :=
          (commit_error_iff report hfault).mp ⟨failure, hfailure⟩
        obtain ⟨event, traces, htraces, trace, htrace, heq⟩ :=
          Scope.exists_trace_of_mem_changes hcomputed hchange
        have hstore : traces = sink.eventTraces race event := by
          rcases hsource with rfl | ⟨query, about, failure, rfl⟩
          · exact (Except.ok.inj htraces).symm
          · exact (Except.ok.inj (Source.eventTraces_of_failingAt htraces)).symm
        obtain ⟨a, ha, hid⟩ := Store.exists_athlete_of_mem_eventTraces (hstore ▸ htrace)
        refine absurd hathlete (mt Store.athlete?_eq_none_iff.mp (not_not.mpr ?_))
        rw [heq, ← hid]
        exact List.mem_map_of_mem (Store.mem_athletesOf.mp ha).1
      · rw [commitComputed, commit_of_fault hfault]
        exact .refl sink

end ChipTiming
