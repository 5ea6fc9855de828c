/-
One ranking for a whole race.

A cycle ranks each event by itself and puts the ranked rows together.  It might as
well put the rows together as they come and rank them all at once, as long as no
split is of two events.  For the rows of an event are of the splits of its course
(`map_split_subset_of_computeUnranked`), and lists without a common split are
ranked together as they are one by one (`assignRanks_flatten`).  What is asked and
what fails is the same both ways, and so are the rest of the report and what is
written (`computeRace_eq_rankedOnce`).

Over a store that was given configurations without common identifiers, no split is
of two events (`Store.pairwise_shareNoSplit`).
-/
import ChipTiming.Proofs.Catalog.Answers
import ChipTiming.Proofs.Cycle.Athletes
import ChipTiming.Proofs.Standings.Joined

namespace ChipTiming

variable {source : Source} {catalog : Catalog} {settings : Settings} {race : RaceId}
  {event : EventId} {computed : EventResults}

/-! ### Events without places -/

/-- The results with places given to their rows. -/
def EventResults.rank (computed : EventResults) : EventResults :=
  { computed with results := assignRanks computed.results }

/-- What is found for athletes of an event, put together without places. -/
def EventResults.unranked (event : EventId) (scored : List AthleteResults) : EventResults :=
  { ofScored event scored with results := scored.flatMap (·.slots) }

/-- Computes the results of an event, with its rows as they come from matching and
from entries. -/
def computeUnranked (source : Source) (catalog : Catalog) (settings : Settings) (race : RaceId)
    (event : EventId) : Except Failure EventResults :=
  computeEventWith (scoreTrace settings.ceiling) (.unranked event) source catalog race event

theorem EventResults.rank_none (event : EventId) : (none event).rank = none event := by
  rw [rank, none, assignRanks_nil]

theorem computeEvent_eq_map_rank (source : Source) (catalog : Catalog) (settings : Settings)
    (race : RaceId) (event : EventId) :
    computeEvent source catalog settings race event =
      (computeUnranked source catalog settings race event).map EventResults.rank := by
  rw [computeEvent_eq_with, computeUnranked, computeEventWith, computeEventWith]
  cases courseFor source catalog race event with
  | error failure => rfl
  | ok splits =>
      cases splits with
      | nil => exact congrArg Except.ok (EventResults.rank_none event).symm
      | cons first rest =>
          cases source.eventTraces race event with
          | error failure => rfl
          | ok traces => cases source.overrides race event <;> rfl

/-- The rows of an event are of the splits of its course. -/
theorem map_split_subset_of_computeUnranked
    (h : computeUnranked source catalog settings race event = .ok computed) :
    ∃ course, courseFor source catalog race event = .ok course ∧
      computed.results.map Slot.split ⊆ course.map Split.id := by
  rw [computeUnranked, computeEventWith, bind_eq_ok_iff] at h
  obtain ⟨course, hcourse, h⟩ := h
  refine ⟨course, hcourse, ?_⟩
  by_cases hempty : course.isEmpty = true
  · rw [if_pos hempty] at h
    cases h
    exact List.nil_subset _
  · rw [if_neg hempty, bind_eq_ok_iff] at h
    obtain ⟨traces, -, h⟩ := h
    rw [bind_eq_ok_iff] at h
    obtain ⟨overrides, -, h⟩ := h
    cases h
    intro split hsplit
    obtain ⟨slot, hslot, rfl⟩ := List.mem_map.mp hsplit
    obtain ⟨scored, hscored, hslot⟩ := List.mem_flatMap.mp hslot
    obtain ⟨trace, -, rfl⟩ := List.mem_map.mp hscored
    rw [← map_split_scoreTrace]
    exact List.mem_map_of_mem hslot

/-! ### A race at once -/

/-- No split is of both events, as far as they have courses. -/
def ShareNoSplit (source : Source) (catalog : Catalog) (race : RaceId) (event event' : EventId) :
    Prop :=
  ∀ course course', courseFor source catalog race event = .ok course →
    courseFor source catalog race event' = .ok course' →
      (course.map Split.id).Disjoint (course'.map Split.id)

/-- Computes the launched events of a race, and ranks their rows all at once. -/
def computeRaceRankedOnce (source : Source) (catalog : Catalog) (settings : Settings)
    (race : RaceId) : Except Failure Report := do
  let events ← source.launchedEvents race
  let computed ← events.mapM (computeUnranked source catalog settings race)
  let report := Report.ofEvents race computed
  return { report with results := assignRanks report.results }

theorem Report.ofEvents_map_rank {computed : List EventResults}
    (h : computed.Pairwise fun a b =>
      (a.results.map Slot.split).Disjoint (b.results.map Slot.split)) :
    ofEvents race (computed.map EventResults.rank) =
      { ofEvents race computed with results := assignRanks (ofEvents race computed).results } := by
  have hrows : (computed.map EventResults.rank).flatMap (·.results) =
      assignRanks (computed.flatMap (·.results)) := by
    rw [List.flatMap_def, List.flatMap_def, assignRanks_flatten (List.pairwise_map.mpr h),
      List.map_map, List.map_map]
    rfl
  have hchanges : (computed.map EventResults.rank).flatMap (·.changes) =
      computed.flatMap (·.changes) := List.flatMap_map ..
  simp only [ofEvents, hrows, hchanges, List.map_map, total_map]
  rfl

/-- Whether events without a common split are ranked one by one or at once, the race
is computed alike, and fails alike. -/
theorem computeRace_eq_rankedOnce (h : ∀ events, source.launchedEvents race = .ok events →
      events.Pairwise (ShareNoSplit source catalog race)) :
    computeRace source catalog settings race =
      computeRaceRankedOnce source catalog settings race := by
  rw [computeRace, computeRaceRankedOnce,
    funext (computeEvent_eq_map_rank source catalog settings race)]
  simp only [mapM_map_right]
  cases hevents : source.launchedEvents race with
  | error failure => rfl
  | ok events =>
      show Except.bind (Except.map _ (events.mapM _)) _ = Except.bind (events.mapM _) _
      cases hcomputed : events.mapM (computeUnranked source catalog settings race) with
      | error failure => rfl
      | ok computed =>
          -- Rows have the splits of their courses, which are disjoint.
          have hdisjoint : computed.Pairwise fun a b =>
              (a.results.map Slot.split).Disjoint (b.results.map Slot.split) := by
            refine pairwise_of_mapM ?_ (h events hevents) hcomputed
            intro event event' a b hapart ha hb
            obtain ⟨course, hcourse, hsplits⟩ := map_split_subset_of_computeUnranked ha
            obtain ⟨course', hcourse', hsplits'⟩ := map_split_subset_of_computeUnranked hb
            intro split hsplit hsplit'
            exact hapart course course' hcourse hcourse' (hsplits hsplit) (hsplits' hsplit')
          exact congrArg Except.ok (Report.ofEvents_map_rank hdisjoint)

/-! ### Configurations without common identifiers -/

/-- Where configurations share no identifiers, no split is on two courses. -/
theorem Catalog.Represents.disjoint_courses {m : Catalog.Saved} (h : catalog.Represents m)
    {event' : EventId} (hne : event ≠ event') {course course' : List Split}
    (hcourse : catalog.course? event = some course)
    (hcourse' : catalog.course? event' = some course') :
    (course.map Split.id).Disjoint (course'.map Split.id) := by
  obtain ⟨race, config, hsaved, -, rfl, -⟩ := h.course?_eq_some_iff.mp hcourse
  obtain ⟨race', config', hsaved', -, rfl, -⟩ := h.course?_eq_some_iff.mp hcourse'
  intro id hid hid'
  obtain ⟨split, hsplit, rfl⟩ := List.mem_map.mp hid
  obtain ⟨split', hsplit', heq⟩ := List.mem_map.mp hid'
  obtain ⟨hmem, hevent⟩ := Configuration.mem_course.mp hsplit
  obtain ⟨hmem', hevent'⟩ := Configuration.mem_course.mp hsplit'
  by_cases hrace : race = race'
  · subst hrace
    obtain rfl : config = config' := Option.some.inj (hsaved.symm.trans hsaved')
    have hids := (Configuration.wellFormed (h.consistent.valid race config hsaved)).splitIds
    obtain rfl : split' = split := List.inj_on_of_nodup_map hids hmem' hmem heq
    exact hne (hevent.symm.trans hevent')
  · have hapart := h.consistent.apart race config race' config' hsaved hsaved' hrace
    exact hapart.splits (List.mem_map_of_mem hmem) (heq ▸ List.mem_map_of_mem hmem')

/-- So no split is of two events of a store with such configurations. -/
theorem Store.pairwise_shareNoSplit {s : Store} (hs : s.Keyed) {m : Catalog.Saved}
    (h : s.catalog.Represents m) (race : RaceId) :
    (s.launchedEvents race).Pairwise (ShareNoSplit s.source s.catalog race) := by
  refine (nodup_launchedEvents hs race).imp fun {event event'} hne course course' hfor hfor' => ?_
  rw [courseFor_source, courseOf_catalog, Except.ok.injEq] at hfor hfor'
  subst hfor hfor'
  cases hcourse : s.catalog.course? event with
  | none => exact List.disjoint_nil_left _
  | some course =>
      cases hcourse' : s.catalog.course? event' with
      | none => exact List.disjoint_nil_right _
      | some course' => exact h.disjoint_courses hne hcourse hcourse'

/-! ### Reports -/

/--
**Ranking event by event is ranking the whole race.**  Lists without a common split
are ranked together as they are one by one, whoever their rows are of.  So a cycle
over a race whose events have no split in common reports and writes what it would if
all rows were put together first and then ranked at once.
-/
theorem recomputeRace_eq_rankedOnce :
    (∀ lists : List (List Slot),
      lists.Pairwise (fun xs ys => (xs.map Slot.split).Disjoint (ys.map Slot.split)) →
        assignRanks lists.flatten = (lists.map assignRanks).flatten) ∧
    ∀ (source : Source) (catalog : Catalog) (settings : Settings) (race : RaceId) (sink : Store),
      (∀ events, source.launchedEvents race = .ok events →
        events.Pairwise (ShareNoSplit source catalog race)) →
      recomputeRace source catalog settings race sink =
        commitComputed sink (computeRaceRankedOnce source catalog settings race) := by
  refine ⟨fun lists => assignRanks_flatten, fun source catalog settings race sink h => ?_⟩
  rw [recomputeRace, computeRace_eq_rankedOnce h]

/-- The same finish at two splits. -/
def photoFinishes : List (List Slot) :=
  [⟨1⟩, ⟨2⟩].map fun split => (photoFinish.take 4).map ({ · with split })

theorem pairwise_shareNoSplit_twoStarters :
    (twoStarters.launchedEvents ⟨1⟩).Pairwise
      (ShareNoSplit twoStarters.source twoStarters.catalog ⟨1⟩) := by
  have hvalid : twoEvents.validate = .ok () := by cbv
  have hcatalog : twoStarters.catalog = Catalog.empty.after (.save twoEvents) := by cbv
  exact Store.pairwise_shareNoSplit reachable_twoStarters.keyed
    (hcatalog ▸ Catalog.represents_save hvalid) ⟨1⟩

theorem rankedOnce_photoFinishes :
    photoFinishes.Pairwise (fun xs ys => (xs.map Slot.split).Disjoint (ys.map Slot.split)) ∧
      (assignRanks photoFinishes.flatten).map (·.netRanks.overall) =
        [some 3, some 1, some 2, none, some 3, some 1, some 2, none] ∧
      assignRanks photoFinishes.flatten = (photoFinishes.map assignRanks).flatten ∧
      (twoStarters.launchedEvents ⟨1⟩).Pairwise
        (ShareNoSplit twoStarters.source twoStarters.catalog ⟨1⟩) ∧
      (computeRaceRankedOnce twoStarters.source twoStarters.catalog .standard ⟨1⟩).map
          (·.results.map fun row => (row.key, row.gunRanks.overall)) =
        .ok [((⟨1⟩, ⟨1⟩), some 1), ((⟨2⟩, ⟨2⟩), some 1)] ∧
      recomputeRace twoStarters.source twoStarters.catalog .standard ⟨1⟩ twoStarters =
        commitComputed twoStarters
          (computeRaceRankedOnce twoStarters.source twoStarters.catalog .standard ⟨1⟩) := by
  have hpairwise : photoFinishes.Pairwise fun xs ys =>
      (xs.map Slot.split).Disjoint (ys.map Slot.split) := by
    simp [photoFinishes, photoFinish]
  refine ⟨hpairwise, ?_, recomputeRace_eq_rankedOnce.1 photoFinishes hpairwise,
    pairwise_shareNoSplit_twoStarters, by cbv,
    recomputeRace_eq_rankedOnce.2 twoStarters.source twoStarters.catalog .standard ⟨1⟩ twoStarters
      fun events hevents => Except.ok.inj hevents ▸ pairwise_shareNoSplit_twoStarters⟩
  rw [Standings.assignRanks_eq]
  decide

end ChipTiming
