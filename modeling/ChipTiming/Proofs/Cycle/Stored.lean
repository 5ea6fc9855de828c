/-
Stored places.

A cycle over a race writes a row for each athlete that it scores and each split,
and rows of the same athlete and split from before are replaced.  Rows are never
taken away, though.  An athlete who is moved to a wave that has not been launched
keeps the rows of earlier cycles, places included, beside those that are given to
the others afresh (`not_denselyRanked_stored`).

Of the athletes who are scored it can be said what is stored: at a split of their
event it is the rows of the report, whatever was there before
(`Store.perm_visitedAt_written`), and those have the places 1, 2, 3, …
(`denselyRanked_stored`).  That rests on the rows of a report having keys of their
own, in an event because its splits are told apart, and among events because an
athlete is in one of them (`Store.nodup_keys_results`).
-/
import ChipTiming.Proofs.Cycle.Keys
import ChipTiming.Proofs.Store.Steps

namespace ChipTiming

variable {s left : Store} {settings : Settings} {race : RaceId} {event : EventId}
  {split : SplitId} {report : Report}

namespace Store

/-! ### Rows that are stored -/

/-- The rows stored of those who crossed a split. -/
def visitedAt (s : Store) (race : RaceId) (split : SplitId) : List Slot :=
  ((s.resultsOf race).filter (·.isVisited)).filter (·.split == split)

/-- Of the rows of a report, those of the athletes scored in an event are the
event's. -/
theorem filter_results_ofEvents (hkeyed : s.Keyed) (hfiled : s.Filed)
    (hevent : event ∈ s.launchedEvents race) :
    (Report.ofEvents race
        ((s.launchedEvents race).map (s.score s.catalog settings race))).results.filter
      (fun row => s.scores race event row.athlete) =
        (s.score s.catalog settings race event).results := by
  have hothers : ∀ other, other ≠ event → (s.score s.catalog settings race other).results.filter
      (fun row => s.scores race event row.athlete) = [] := by
    intro other hne
    rw [List.filter_eq_nil_iff]
    intro row hrow hscored
    exact hne (event_eq_of_scores hkeyed.athletes (scores_of_mem_score hfiled hrow) hscored)
  have hown : (s.score s.catalog settings race event).results.filter
      (fun row => s.scores race event row.athlete) =
        (s.score s.catalog settings race event).results :=
    List.filter_eq_self.mpr fun row hrow => scores_of_mem_score hfiled hrow
  obtain ⟨before, after, hsplit⟩ := List.append_of_mem hevent
  have hnodup := nodup_launchedEvents hkeyed race
  rw [hsplit, List.nodup_middle, List.nodup_cons, List.mem_append, not_or] at hnodup
  show (((s.launchedEvents race).map (s.score s.catalog settings race)).flatMap
    (·.results)).filter _ = _
  have hnil : ∀ events : List EventId, event ∉ events → (events.flatMap fun other =>
      (s.score s.catalog settings race other).results.filter
        fun row => s.scores race event row.athlete) = [] := by
    intro events hmem
    rw [List.flatMap_eq_nil_iff]
    exact fun other hother => hothers other fun heq => hmem (heq ▸ hother)
  rw [List.flatMap_map, List.filter_flatMap, hsplit, List.flatMap_append, List.flatMap_cons,
    hnil before hnodup.1.1, hnil after hnodup.1.2, hown, List.nil_append, List.append_nil]

/-- A report with a row at a split for each of some athletes replaces all that is
stored there of theirs. -/
theorem perm_filter_visitedAt (hkeys : (report.results.map Slot.key).Nodup)
    (hstored : ((s.resultsOf report.race).map Slot.key).Nodup) {scored : AthleteId → Bool}
    (hcovers : ∀ athlete, scored athlete = true →
      (athlete, split) ∈ report.results.map Slot.key) :
    (((s.written report).visitedAt report.race split).filter fun row => scored row.athlete).Perm
      (((report.results.filter fun row => scored row.athlete).filter (·.isVisited)).filter
        (·.split == split)) := by
  have hperm := perm_filter_putAll hkeys hstored
    (fun key => key.2 == split && scored key.1) fun row _ hkeep => by
      rw [Bool.and_eq_true, beq_iff_eq] at hkeep
      obtain ⟨hsplit, hscored⟩ := hkeep
      subst hsplit
      exact hcovers row.athlete hscored
  have hleft : ∀ rows : List Slot,
      ((rows.filter (·.isVisited)).filter (·.split == split)).filter
          (fun row => scored row.athlete) =
        (rows.filter fun row => row.split == split && scored row.athlete).filter
          (·.isVisited) := by
    intro rows
    simp only [List.filter_filter]
    exact List.filter_congr fun row _ => by ac_rfl
  have hright : ∀ rows : List Slot,
      ((rows.filter fun row => scored row.athlete).filter (·.isVisited)).filter
          (·.split == split) =
        (rows.filter fun row => row.split == split && scored row.athlete).filter
          (·.isVisited) := by
    intro rows
    simp only [List.filter_filter]
    exact List.filter_congr fun row _ => by ac_rfl
  rw [visitedAt, resultsOf_written, hleft, hright]
  exact hperm.filter _

/-- At a split of an event, what is stored after a cycle of the athletes who are
scored is what the event scored. -/
theorem perm_visitedAt_written (hkeyed : s.Keyed) (hfiled : s.Filed) (settings : Settings)
    (hevent : event ∈ s.launchedEvents race)
    (hsplit : split ∈ (s.courseOf s.catalog race event).map (·.id)) :
    (((s.written (.ofEvents race
        ((s.launchedEvents race).map (s.score s.catalog settings race)))).visitedAt race
          split).filter fun row => s.scores race event row.athlete).Perm
      (((s.score s.catalog settings race event).results.filter (·.isVisited)).filter
        (·.split == split)) := by
  rw [← filter_results_ofEvents hkeyed hfiled hevent]
  refine perm_filter_visitedAt
    (nodup_keys_results hkeyed hfiled hfiled.courses settings race
      (nodup_launchedEvents hkeyed race))
    (hfiled.nodup_resultsOf race) fun athlete hscored => ?_
  have hkey : (athlete, split) ∈
      (s.score s.catalog settings race event).results.map Slot.key :=
    (mem_keys_score_iff hfiled).mpr ⟨hscored, hsplit⟩
  refine List.map_subset _ (fun row hrow => ?_) hkey
  exact List.mem_flatMap.mpr ⟨_, List.mem_map_of_mem hevent, hrow⟩

theorem denselyRanked_score (s : Store) (catalog : Catalog) (settings : Settings)
    (race : RaceId) (event : EventId) (basis : TimeBasis) (split : SplitId) :
    DenselyRanked basis
      (((s.score catalog settings race event).results.filter (·.isVisited)).filter
        (·.split == split)) := by
  rw [score_eq]
  split
  · exact List.Perm.nil
  · exact denselyRanked_assignRanks ..

/-! ### Stores in use -/

/-- What a store in use is told of: configurations, athletes, reads and entries made
by hand. -/
def Operation.isRoutine : Operation → Bool
  | .saveConfiguration _ | .register _ | .record _ | .enter _ => true
  | .setWriteFault _ | .upsertResults _ _ | .updateStatus _ _ => false

/-- A step of a store in use, which is scored by cycles over a race that ask it for
everything. -/
def Step.IsRoutine : Step → Prop
  | .operate operation => operation.isRoutine = true
  | .recompute scope source catalog _ _ =>
    scope = .wholeRace ∧ source = Store.source ∧ catalog = Store.catalog

/-- What comes of such steps alone. -/
def InUse (s : Store) : Prop :=
  ∃ steps : List Step, (∀ step ∈ steps, step.IsRoutine) ∧ steps.foldl next .empty = s

theorem InUse.reachable (h : s.InUse) : s.Reachable := by
  obtain ⟨steps, -, rfl⟩ := h
  exact Reachable.empty.foldl_next steps

end Store

/--
**After a cycle the athletes who are scored in an event have the places 1, 2, 3, …,
each once, at every split of it.**  Their rows of earlier cycles are all replaced.
-/
theorem denselyRanked_stored (hs : s.InUse)
    (h : recomputeRace s.source s.catalog settings race s = (left, .ok report))
    (hevent : event ∈ s.launchedEvents race) {course : List Split}
    (hcourse : s.catalog.course? event = some course) {split : Split} (hsplit : split ∈ course)
    (basis : TimeBasis) :
    DenselyRanked basis
      ((left.visitedAt race split.id).filter fun row => s.scores race event row.athlete) := by
  obtain ⟨-, hreport, hleft⟩ := recomputeRace_source_eq_ok hs.reachable h
  have hmem : split.id ∈ (s.courseOf s.catalog race event).map (·.id) := by
    rw [Store.courseOf_catalog, hcourse]
    exact List.mem_map_of_mem hsplit
  have hperm := Store.perm_visitedAt_written hs.reachable.keyed hs.reachable.filed settings
    hevent hmem
  rw [hleft, hreport]
  exact (s.denselyRanked_score s.catalog settings race event basis split.id).of_perm hperm.symm

/-! ### An athlete who is moved -/

/-- A race with a second wave, which has not been launched. -/
def twoWaves : Configuration :=
  { Catalog.smallRace 1 1 with
    waves := (Catalog.smallRace 1 1).waves ++ [⟨⟨2⟩, ⟨1⟩, "", early 0, false⟩] }

/-- Two athletes of the first wave have started and are scored, and then the first of
them is moved to the other wave. -/
def movedAfterStart : List Store.Step :=
  [.operate (.saveConfiguration twoWaves), .operate (.register (starter 1 "a")),
    .operate (.register { starter 1 "b" with id := ⟨2⟩ }),
    .operate (.record [startRead 1 "a", startRead 1 "b"]),
    .recompute .wholeRace Store.source Store.catalog .standard ⟨1⟩,
    .operate (.register { starter 1 "a" with wave := ⟨2⟩ })]

/-- What has become of the store by then. -/
def firstMoved : Store := movedAfterStart.foldl Store.next .empty

theorem inUse_firstMoved : firstMoved.InUse :=
  ⟨movedAfterStart,
    by simp [movedAfterStart, Store.Step.IsRoutine, Store.Operation.isRoutine], rfl⟩

theorem launchedEvents_firstMoved : firstMoved.launchedEvents ⟨1⟩ = [⟨1⟩] := by cbv

theorem course?_firstMoved :
    firstMoved.catalog.course? ⟨1⟩ = some twoWaves.splits := by cbv

theorem recompute_firstMoved :
    ∃ left report, recomputeRace firstMoved.source firstMoved.catalog .standard ⟨1⟩ firstMoved =
        (left, .ok report) ∧
      (left.visitedAt ⟨1⟩ ⟨1⟩).map (fun row => (row.athlete, (row.ranks .gun).overall)) =
        [(⟨1⟩, some 1), (⟨2⟩, some 1)] :=
  ⟨_, _, recomputeRace_source inUse_firstMoved.reachable (by cbv), by cbv⟩

/-- The other athlete is then first, and so, still, is the one who was moved. -/
theorem not_denselyRanked_stored :
    ¬∀ (s left : Store) (settings : Settings) (race : RaceId) (report : Report), s.InUse →
      recomputeRace s.source s.catalog settings race s = (left, .ok report) →
      ∀ event ∈ s.launchedEvents race, ∀ course, s.catalog.course? event = some course →
      ∀ split ∈ course, ∀ basis, DenselyRanked basis (left.visitedAt race split.id) := by
  intro hdense
  obtain ⟨left, report, hrun, hrows⟩ := recompute_firstMoved
  have hevent : ⟨1⟩ ∈ firstMoved.launchedEvents ⟨1⟩ := by
    rw [launchedEvents_firstMoved]
    exact List.mem_singleton_self _
  have hranked : DenselyRanked .gun (left.visitedAt ⟨1⟩ ⟨1⟩) :=
    hdense firstMoved left .standard ⟨1⟩ report inUse_firstMoved hrun ⟨1⟩ hevent _
      course?_firstMoved _ (List.mem_singleton_self _) .gun
  have hlength : (left.visitedAt ⟨1⟩ ⟨1⟩).length = 2 := by
    rw [← List.length_map, hrows]
    rfl
  have hranks : (left.visitedAt ⟨1⟩ ⟨1⟩).map (fun row => (row.ranks .gun).overall) =
      [some 1, some 1] := by
    have hsnd := congrArg (List.map Prod.snd) hrows
    rwa [List.map_map] at hsnd
  rw [DenselyRanked, hlength, hranks] at hranked
  exact absurd hranked (by decide)

theorem denselyRanked_firstMoved :
    ∃ left report, recomputeRace firstMoved.source firstMoved.catalog .standard ⟨1⟩ firstMoved =
        (left, .ok report) ∧
      DenselyRanked .gun ((left.visitedAt ⟨1⟩ ⟨1⟩).filter fun row =>
        firstMoved.scores ⟨1⟩ ⟨1⟩ row.athlete) := by
  obtain ⟨left, report, hrun, -⟩ := recompute_firstMoved
  have hevent : ⟨1⟩ ∈ firstMoved.launchedEvents ⟨1⟩ := by
    rw [launchedEvents_firstMoved]
    exact List.mem_singleton_self _
  exact ⟨left, report, hrun, denselyRanked_stored inUse_firstMoved hrun hevent
    course?_firstMoved (List.mem_singleton_self _) .gun⟩

end ChipTiming
