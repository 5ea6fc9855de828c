/-
What is written is what is reported.

A commit puts the rows of its report over those that are stored and sets the
statuses of the athletes it names.  If the report says one thing only of each row
and each athlete (`Report.Consistent`), the sink comes out of it as before, except
for just that (`Report.WrittenTo`): nothing is moved or lost, and what is new
comes last.

Reports of cycles are consistent because of what the source holds, and statuses
can be set because of what the sink holds.  The two need not be one store, and if
they are not, they need not agree on anything (`Scorer.recompute_writtenTo`).
-/
import ChipTiming.Proofs.Catalog.Courses
import ChipTiming.Proofs.Cycle.Keys

namespace ChipTiming

variable {s : Store} {report : Report}

/-! ### Reports -/

/-- A report that has one row for an athlete and a split, and one change for an
athlete. -/
structure Report.Consistent (report : Report) : Prop where
  rows : (report.results.map Slot.key).Nodup
  changes : ∀ change ∈ report.changes, ∀ other ∈ report.changes,
    change.athlete = other.athlete → change = other

/-- A report of what was scored from a store is consistent. -/
theorem Store.consistent_ofEvents (hs : s.Reachable) {catalog : Catalog}
    (hcatalog : catalog.CoursesConfigured) (settings : Settings) (race : RaceId)
    {events : List EventId} (hevents : events.Nodup) :
    (Report.ofEvents race (events.map (s.score catalog settings race))).Consistent where
  rows := nodup_keys_results hs.keyed hs.filed hcatalog settings race hevents
  changes _ hchange _ hother := eq_of_mem_changes hs.keyed.athletes hchange hother

/-- A store after a report was written to it, beside the store before. -/
structure Report.WrittenTo (report : Report) (before after : Store) : Prop where
  /-- Each row of the report stands under its athlete and split. -/
  row : ∀ row ∈ report.results,
    withKey? Slot.key row.key (after.resultsOf report.race) = some row
  /-- What was stored is in its place, unless there is a row for it as it was. -/
  kept : ∀ (i : Nat) (row : Slot), (before.resultsOf report.race)[i]? = some row →
    ∃ row', (after.resultsOf report.race)[i]? = some row' ∧ row'.key = row.key ∧
      (row.key ∉ report.results.map Slot.key → row' = row)
  /-- Rows that are new follow, in the order of the report. -/
  added : (after.resultsOf report.race).drop (before.resultsOf report.race).length =
    report.results.filter fun row => row.key ∉ (before.resultsOf report.race).map Slot.key
  otherRaces : ∀ race, race ≠ report.race → after.resultsOf race = before.resultsOf race
  /-- The roster is the same but for statuses, -/
  registration : List.Forall₂ (fun a a' : Athlete => a' = { a with status := a'.status })
    before.athletes after.athletes
  /-- which are as reported for those who are named -/
  status : ∀ change ∈ report.changes,
    (after.athlete? change.athlete).map Athlete.status = some change.next
  /-- and as they were for the others. -/
  unnamed : ∀ id, id ∉ report.changes.map (·.athlete) → after.athlete? id = before.athlete? id
  bulkWrites : after.bulkWrites = before.bulkWrites + 1
  catalog : after.catalog = before.catalog
  reads : after.reads = before.reads
  entries : after.entries = before.entries
  writeFault : after.writeFault = before.writeFault

namespace Store

/-! ### Rows -/

theorem row_written (hs : s.Filed) (hreport : report.Consistent) {row : Slot}
    (hrow : row ∈ report.results) :
    withKey? Slot.key row.key ((s.written report).resultsOf report.race) = some row := by
  have hstored := hs.nodup_resultsOf report.race
  rw [resultsOf_written, withKey?_eq_some_iff (nodup_putAll hstored),
    mem_putAll_iff hreport.rows hstored]
  exact ⟨Or.inl hrow, rfl⟩

theorem kept_written (hs : s.Filed) (hreport : report.Consistent) {i : Nat} {row : Slot}
    (hrow : (s.resultsOf report.race)[i]? = some row) :
    ∃ row', ((s.written report).resultsOf report.race)[i]? = some row' ∧ row'.key = row.key ∧
      (row.key ∉ report.results.map Slot.key → row' = row) := by
  have hi : i < (s.resultsOf report.race).length := (List.getElem?_eq_some_iff.mp hrow).1
  rw [resultsOf_written, putAll_eq_map_append hreport.rows (hs.nodup_resultsOf report.race),
    List.getElem?_append_left (by rwa [List.length_map]), List.getElem?_map, hrow,
    Option.map_some]
  cases hfound : withKey? Slot.key row.key report.results with
  | none => exact ⟨row, rfl, rfl, fun _ => rfl⟩
  | some row' =>
      obtain ⟨hmem, hkey⟩ := mem_of_withKey? hfound
      exact ⟨row', rfl, hkey, fun hnew => absurd (hkey ▸ List.mem_map_of_mem hmem) hnew⟩

theorem added_written (hs : s.Filed) (hreport : report.Consistent) :
    ((s.written report).resultsOf report.race).drop (s.resultsOf report.race).length =
      report.results.filter fun row => row.key ∉ (s.resultsOf report.race).map Slot.key := by
  rw [resultsOf_written, putAll_eq_map_append hreport.rows (hs.nodup_resultsOf report.race),
    List.drop_left' (List.length_map _)]
  -- Keys that are pairs are compared in more than one way.
  exact List.filter_congr fun row _ => decide_eq_decide.mpr Iff.rfl

/-! ### Athletes -/

theorem athlete?_written (s : Store) (report : Report) (id : AthleteId) :
    (s.written report).athlete? id = (s.athlete? id).map (·.after report.changes) := by
  rw [athlete?, athletes_written]
  exact withKey?_map (fun a => a.id_after report.changes) id s.athletes

theorem registration_written (s : Store) (report : Report) :
    List.Forall₂ (fun a a' : Athlete => a' = { a with status := a'.status })
      s.athletes (s.written report).athletes := by
  rw [athletes_written]
  refine List.forall₂_map_right_iff.mpr (List.forall₂_same.mpr fun a _ => ?_)
  obtain ⟨status, heq⟩ := a.exists_after_eq report.changes
  rw [heq]

theorem status_written (hreport : report.Consistent) {change : StatusChange}
    (hchange : change ∈ report.changes) (hknows : s.Knows change.athlete) :
    ((s.written report).athlete? change.athlete).map Athlete.status = some change.next := by
  obtain ⟨a, ha⟩ :=
    Option.ne_none_iff_exists'.mp (mt athlete?_eq_none_iff.mp (not_not.mpr hknows))
  have hid : a.id = change.athlete := (mem_of_withKey? ha).2
  rw [athlete?_written, ha, Option.map_some, Option.map_some, Option.some.injEq]
  rcases a.after_cases report.changes with ⟨hnone, -⟩ | ⟨other, hother, hnamed, heq⟩
  · exact absurd hid.symm (hnone change hchange)
  · rw [heq, hreport.changes other hother change hchange (hnamed.trans hid)]

theorem unnamed_written {id : AthleteId} (h : id ∉ report.changes.map (·.athlete)) :
    (s.written report).athlete? id = s.athlete? id := by
  rw [athlete?_written]
  cases ha : s.athlete? id with
  | none => rfl
  | some a =>
      obtain ⟨-, rfl⟩ := mem_of_withKey? ha
      rcases a.after_cases report.changes with ⟨-, heq⟩ | ⟨change, hchange, hnamed, -⟩
      · rw [Option.map_some, heq]
      · exact absurd (List.mem_map.mpr ⟨change, hchange, hnamed⟩) h

/-- **Writing a consistent report about athletes on the roster does what the report
says, and nothing else.** -/
theorem writtenTo_written (hs : s.Filed) (hreport : report.Consistent)
    (hknows : ∀ change ∈ report.changes, s.Knows change.athlete) :
    report.WrittenTo s (s.written report) where
  row _ hrow := row_written hs hreport hrow
  kept _ _ hrow := kept_written hs hreport hrow
  added := added_written hs hreport
  otherRaces _ hne := resultsOf_withResults.trans (if_neg hne.symm)
  registration := registration_written s report
  status change hchange := status_written hreport hchange (hknows change hchange)
  unnamed _ hid := unnamed_written hid
  bulkWrites := rfl
  catalog := rfl
  reads := rfl
  entries := rfl
  writeFault := rfl

end Store

/-! ### Cycles between stores -/

/-- The stores of a cycle: one that is both source and sink, or two. -/
inductive Stores where
  | shared (store : Store)
  | apart (source sink : Store)

namespace Stores

def source : Stores → Store
  | .shared store => store
  | .apart source _ => source

def sink : Stores → Store
  | .shared store => store
  | .apart _ sink => sink

/-- The stores after something was written to the sink. -/
def withSink : Stores → Store → Stores
  | .shared _, written => .shared written
  | .apart source _, written => .apart source written

@[simp] theorem sink_withSink (stores : Stores) (written : Store) :
    (stores.withSink written).sink = written := by cases stores <;> rfl

end Stores

/-- All that a cycle works with. -/
structure Scorer where
  stores : Stores
  catalog : Catalog
  settings : Settings

/-- A cycle, with what the scorer is left with. -/
def Scorer.recompute (scorer : Scorer) (scope : Scope) (race : RaceId) :
    Scorer × Except Failure Report :=
  let (written, outcome) := scope.recompute scorer.stores.source.source scorer.catalog
    scorer.settings race scorer.stores.sink
  ({ scorer with stores := scorer.stores.withSink written }, outcome)

/-- A cycle over a store that succeeds has written its report, whatever the sink. -/
theorem Scope.writtenTo_of_recompute {source sink left : Store} {catalog : Catalog}
    {settings : Settings} {race : RaceId} (hsource : source.Reachable) (hsink : sink.Reachable)
    (hcatalog : catalog.CoursesConfigured) (scope : Scope)
    (h : scope.recompute source.source catalog settings race sink = (left, .ok report)) :
    report.race = race ∧ report.WrittenTo sink left := by
  rw [scope.recompute_eq] at h
  cases hcomputed : scope.compute source.source catalog settings race with
  | error failure =>
      rw [hcomputed] at h
      cases h
  | ok computed =>
      rw [hcomputed] at h
      obtain ⟨-, rfl, rfl, hknows⟩ := commit_eq_ok hsink.keyed.athletes h
      obtain ⟨events, hevents, -, rfl⟩ := Scope.compute_source_eq_ok hsource.keyed hcomputed
      have hconsistent :=
        Store.consistent_ofEvents hsource hcatalog settings race hevents
      exact ⟨rfl, Store.writtenTo_written hsink.filed hconsistent hknows⟩

/--
**A cycle that succeeds changes the sink just as it reports**, and nothing else that
it works with.
-/
theorem Scorer.recompute_writtenTo {scorer next : Scorer} (changes : List Catalog.Change)
    (hcatalog : changes.foldl Catalog.after .empty = scorer.catalog)
    (hsource : scorer.stores.source.Reachable) (hsink : scorer.stores.sink.Reachable)
    {scope : Scope} {race : RaceId}
    (h : scorer.recompute scope race = (next, .ok report)) :
    report.race = race ∧ report.WrittenTo scorer.stores.sink next.stores.sink ∧
      next = { scorer with stores := scorer.stores.withSink next.stores.sink } := by
  have hcourses : scorer.catalog.CoursesConfigured :=
    hcatalog ▸ Catalog.coursesConfigured_foldl_empty changes
  rw [recompute] at h
  cases hrun : scope.recompute scorer.stores.source.source scorer.catalog scorer.settings race
      scorer.stores.sink with
  | mk written outcome =>
      rw [hrun] at h
      cases h
      obtain ⟨hrace, hwritten⟩ := scope.writtenTo_of_recompute hsource hsink hcourses hrun
      rw [Stores.sink_withSink]
      exact ⟨hrace, hwritten, rfl⟩

/-- A row from before, of an athlete who was seen ten seconds after the start. -/
def earlierRow (n : BitVec 128) : Slot :=
  ⟨⟨n⟩, ⟨1⟩, ⟨1⟩, none, .unspecified,
    .detected ⟨early 10, .ofSeconds 10, .zero⟩, ⟨some n.toNat, none, none⟩, .none⟩

/-- The starter, and another athlete who has not started. -/
def oneOfTwo : Store := oneStarter.perform (.register { starter 1 "b" with id := ⟨2⟩ })

/-- A store that keeps results elsewhere, with another registration of the starter,
who has no row there yet.  The other athlete has one, and someone else too. -/
def resultsElsewhere : Store :=
  (Store.empty.perform (.register { starter 1 "c" with bib := "7" })).perform
    (.upsertResults ⟨1⟩ [earlierRow 2, earlierRow 3])

theorem reachable_oneOfTwo : oneOfTwo.Reachable := reachable_oneStarter.perform _

theorem reachable_resultsElsewhere : resultsElsewhere.Reachable :=
  (Store.Reachable.empty.perform _).perform _

/-- What scores the two athletes into that store. -/
def keptApart : Scorer where
  stores := .apart oneOfTwo resultsElsewhere
  catalog := Catalog.empty.after (.save (Catalog.smallRace 1 1))
  settings := .standard

theorem recompute_keptApart :
    ∃ next report, keptApart.recompute .wholeRace ⟨1⟩ = (next, .ok report) ∧
      report.changes = [⟨⟨1⟩, .notYetStarted, .running⟩] ∧
      report.results.map (·.athlete) = [⟨1⟩, ⟨2⟩] ∧
      (next.stores.sink.resultsOf ⟨1⟩).map (·.athlete) = [⟨2⟩, ⟨3⟩, ⟨1⟩] ∧
      report.race = ⟨1⟩ ∧ report.WrittenTo keptApart.stores.sink next.stores.sink ∧
      next = { keptApart with stores := keptApart.stores.withSink next.stores.sink } := by
  have hsource : keptApart.stores.source.Reachable := reachable_oneOfTwo
  have hsink : keptApart.stores.sink.Reachable := reachable_resultsElsewhere
  have hreported : (keptApart.recompute .wholeRace ⟨1⟩).2.map
      (fun report => (report.changes, report.results.map (·.athlete))) =
        .ok ([⟨⟨1⟩, .notYetStarted, .running⟩], [⟨1⟩, ⟨2⟩]) := by cbv
  have hstored : ((keptApart.recompute .wholeRace ⟨1⟩).1.stores.sink.resultsOf ⟨1⟩).map
      (·.athlete) = [⟨2⟩, ⟨3⟩, ⟨1⟩] := by cbv
  cases hrun : keptApart.recompute .wholeRace ⟨1⟩ with
  | mk next outcome =>
      rw [hrun] at hreported hstored
      cases outcome with
      | error failure => cases hreported
      | ok report =>
          obtain ⟨hchanges, hathletes⟩ := Prod.mk.inj (Except.ok.inj hreported)
          exact ⟨next, report, rfl, hchanges, hathletes, hstored,
            Scorer.recompute_writtenTo [.save (Catalog.smallRace 1 1)] rfl hsource hsink hrun⟩

end ChipTiming
