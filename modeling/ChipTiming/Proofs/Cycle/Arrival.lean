/-
Reads that arrive in another order.

Readers report when they can, so that the reads of a store stand in the order in
which they came in and not in that of time.  Matching and places both depend on
order, but not on that one: reads go into a trace by chip, and a trace has its
detections in the order of time.  What is left are the reads of one chip at one
instant, which sorting leaves as they came in; which of them counts does depend on
that.

So the reads may be rearranged in whatever way keeps those in order
(`Rearranged`).  Then every athlete has the same trace (`Rearranged.trace_eq`), so
that every event scores the same, and what is written does not depend on the reads
at all (`commit_withReads`).
-/
import ChipTiming.Proofs.Cycle.Score

namespace ChipTiming

/-- The same reads in another order, where those of one chip at one instant keep
theirs. -/
structure Rearranged (given other : List ChipRead) : Prop where
  perm : other.Perm given
  stable : ∀ (chip : String) (t : Instant),
    other.filter (fun r => r.chip = chip ∧ r.time = t) =
      given.filter fun r => r.chip = chip ∧ r.time = t

variable {given other : List ChipRead} {s : Store} {catalog : Catalog} {settings : Settings}
  {race : RaceId} {event : EventId}

/-! ### What is read -/

theorem inTimeOrder_eq_of_filter_time_eq {given other : List Detection}
    (h : ∀ t : Instant, other.filter (·.time = t) = given.filter (·.time = t)) :
    inTimeOrder other = inTimeOrder given := by
  refine IsTimeOrder.eq_inTimeOrder ⟨pairwise_inTimeOrder other, fun t => ?_⟩
  rw [(isTimeOrder_inTimeOrder other).stable, h]

/-- The usable reads of a chip that are of one instant, as detections. -/
theorem filter_time_map_detection (reads : List ChipRead) (chip : String) (t : Instant) :
    ((reads.filter fun r => r.isUsable && r.chip == chip).map ChipRead.detection).filter
        (·.time = t) =
      ((reads.filter fun r => r.chip = chip ∧ r.time = t).filter (·.isUsable)).map
        ChipRead.detection := by
  rw [List.filter_map, List.filter_filter, List.filter_filter]
  refine congrArg (List.map _) (List.filter_congr fun r _ => ?_)
  rw [Function.comp_apply, ChipRead.detection]
  by_cases hchip : r.chip = chip <;> by_cases htime : r.time = t <;> simp [hchip, htime]

namespace Rearranged

/-- Leaving out reads by whatever test leaves the others rearranged. -/
theorem filter (h : Rearranged given other) (keep : ChipRead → Bool) :
    Rearranged (given.filter keep) (other.filter keep) where
  perm := h.perm.filter keep
  stable chip t := by
    rw [List.filter_comm, h.stable, List.filter_comm]

/-- An athlete has the same trace. -/
theorem trace_eq (h : Rearranged given other) (a : Athlete) (waveStart : Instant) :
    a.trace waveStart other = a.trace waveStart given := by
  unfold Athlete.trace
  rw [inTimeOrder_eq_of_filter_time_eq fun t => ?_]
  rw [filter_time_map_detection, filter_time_map_detection, h.stable]

end Rearranged

namespace Store

theorem eventTraces_withReads (h : Rearranged s.reads other) (race : RaceId) (event : EventId) :
    (s.withReads other).eventTraces race event = s.eventTraces race event := by
  have hreads : Rearranged (s.readsOf race) ((s.withReads other).readsOf race) := h.filter _
  rw [eventTraces, eventTraces]
  refine List.filterMap_congr fun a _ => ?_
  show (s.launchTime? event a.wave).map _ = (s.launchTime? event a.wave).map _
  exact congrArg (Option.map · _) (funext fun waveStart => hreads.trace_eq a waveStart)

theorem score_withReads (h : Rearranged s.reads other) (catalog : Catalog)
    (settings : Settings) (race : RaceId) (event : EventId) :
    (s.withReads other).score catalog settings race event =
      s.score catalog settings race event := by
  rw [score, score, eventTraces_withReads h]
  rfl

/-! ### What is written -/

theorem upsertResults_withReads (s : Store) (reads : List ChipRead) (race : RaceId)
    (batch : List Slot) :
    (s.withReads reads).upsertResults race batch =
      (s.upsertResults race batch).map (·.withReads reads) := by
  have hwritable : (s.withReads reads).checkWritable "upsert results" =
      s.checkWritable "upsert results" := rfl
  rw [upsertResults, upsertResults, hwritable]
  cases s.checkWritable "upsert results" <;> rfl

theorem updateStatus_withReads (s : Store) (reads : List ChipRead) (id : AthleteId)
    (status : Status) :
    (s.withReads reads).updateStatus id status =
      (s.updateStatus id status).map (·.withReads reads) := by
  have hwritable : (s.withReads reads).checkWritable "update status" =
      s.checkWritable "update status" := rfl
  have hathlete : (s.withReads reads).athlete? id = s.athlete? id := rfl
  rw [updateStatus, updateStatus, hwritable, hathlete]
  cases s.checkWritable "update status" with
  | error failure => rfl
  | ok => cases s.athlete? id <;> rfl

end Store

theorem writeChanges_withReads (sink : Store) (reads : List ChipRead)
    (changes : List StatusChange) :
    writeChanges (sink.withReads reads) changes =
      ((writeChanges sink changes).1.withReads reads, (writeChanges sink changes).2) := by
  induction changes generalizing sink with
  | nil => rfl
  | cons change changes ih =>
      rw [writeChanges, writeChanges, Store.updateStatus_withReads]
      cases sink.updateStatus change.athlete change.next with
      | error failure => rfl
      | ok written => exact ih written

theorem commit_withReads (sink : Store) (reads : List ChipRead) (report : Report) :
    commit (sink.withReads reads) report =
      ((commit sink report).1.withReads reads, (commit sink report).2) := by
  rw [commit, commit, Store.upsertResults_withReads]
  cases sink.upsertResults report.race report.results with
  | error failure => rfl
  | ok written =>
      have hchanges := writeChanges_withReads written reads report.changes
      simp only [Except.map, hchanges]

/-! ### The cycle -/

/--
**The order in which reads arrive does not matter** to a cycle over a race.  If those
of one chip at one instant keep their order, it comes to the same outcome with the
same report, and leaves the same store but for the reads.
-/
theorem recomputeRace_withReads (h : Rearranged s.reads other) (catalog : Catalog)
    (settings : Settings) (race : RaceId) :
    recomputeRace (s.withReads other).source catalog settings race (s.withReads other) =
      ((recomputeRace s.source catalog settings race s).1.withReads other,
        (recomputeRace s.source catalog settings race s).2) := by
  have hscore : (s.withReads other).score catalog settings race =
      s.score catalog settings race :=
    funext (Store.score_withReads h catalog settings race)
  rw [recomputeRace, recomputeRace, computeRace_source, computeRace_source, hscore]
  exact commit_withReads s other _

/-- Reads as they came in: two of one chip at one instant, by different readers, and
an earlier one of that chip last. -/
def lateRead : List ChipRead :=
  [startRead 1 "a", startRead 1 "b", startRead 2 "a", { startRead 1 "a" with time := early 4 }]

/-- The same reads in the order of time. -/
def readInTime : List ChipRead :=
  [{ startRead 1 "a" with time := early 4 }, startRead 1 "a", startRead 2 "a", startRead 1 "b"]

theorem rearranged_readInTime : Rearranged lateRead readInTime where
  perm := by decide
  stable chip t := by
    have hearly : early 4 ≠ early 5 := by decide
    simp only [lateRead, readInTime, startRead, List.filter_cons, List.filter_nil]
    by_cases ha : "a" = chip
    · subst ha
      by_cases ht : early 5 = t
      · subst ht
        simp [hearly]
      · simp [ht]
    · simp [ha]

theorem recomputeRace_readInTime :
    Rearranged lateRead readInTime ∧
      recomputeRace (oneStarter.withReads readInTime).source .empty .standard ⟨1⟩
          (oneStarter.withReads readInTime) =
        ((recomputeRace (oneStarter.withReads lateRead).source .empty .standard ⟨1⟩
            (oneStarter.withReads lateRead)).1.withReads readInTime,
          (recomputeRace (oneStarter.withReads lateRead).source .empty .standard ⟨1⟩
            (oneStarter.withReads lateRead)).2) :=
  ⟨rearranged_readInTime,
    recomputeRace_withReads (s := oneStarter.withReads lateRead) rearranged_readInTime .empty
      .standard ⟨1⟩⟩

end ChipTiming
