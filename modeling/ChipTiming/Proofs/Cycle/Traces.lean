/-
Who is scored, and with which reads.

The traces of an event are gathered from three tables.  The roster says who is
registered for the event and for which wave, the catalog which waves have been
launched and which readers belong to the race, and the reads stand in one list for
all chips.  Identifiers are keys of the catalog's tables (`Catalog.Distinct`), so
that looking a wave or a reader up in a listing of them is looking it up in the
table (`Store.launchTime?_eq`, `Store.contains_readersOf`).

With that an event has just the traces that a plain reading of the tables gives it
(`Store.tracesOf_foldl_next`): one for each athlete of the event in a launched
wave of it, with the usable reads of the athlete's chip.  Reads may be grouped by
chip beforehand, since a group is what a filter finds (`lookup_byChip`).
-/
import ChipTiming.Proofs.Cycle.Keys
import ChipTiming.Proofs.Store.History

namespace ChipTiming

/-! ### Waves and readers -/

namespace Catalog

/-- No two waves have one identifier, nor do two readers. -/
structure Distinct (c : Catalog) : Prop where
  waves : (c.waves.map Wave.id).Nodup
  readers : (c.readers.map TimeReader.id).Nodup

theorem Distinct.after {c : Catalog} (h : c.Distinct) (change : Change) :
    (c.after change).Distinct := by
  have hpurge (race : RaceId) : (c.purge race).Distinct :=
    ⟨h.waves.sublist (List.filter_sublist.map Wave.id),
      h.readers.sublist (List.filter_sublist.map TimeReader.id)⟩
  cases change with
  | remove race => exact ⟨(hpurge race).waves, (hpurge race).readers⟩
  | save config =>
      cases hvalid : config.validate with
      | error mistake => rwa [after_save_of_refused hvalid]
      | ok =>
          rw [after_save hvalid]
          exact ⟨nodup_putAll (hpurge config.race.id).waves,
            nodup_putAll (hpurge config.race.id).readers⟩

end Catalog

namespace Store

variable {s : Store} {race : RaceId} {event : EventId} {a : Athlete} {trace : Trace}

theorem Reachable.distinct (h : s.Reachable) : s.catalog.Distinct := by
  induction h with
  | empty => exact ⟨List.nodup_nil, List.nodup_nil⟩
  | @perform s _ operation ih =>
      rcases s.catalog_perform operation with heq | ⟨config, heq⟩
      · rwa [heq]
      · rw [heq]
        exact ih.after (.save config)

theorem perm_launched (s : Store) (event : EventId) :
    ((s.catalog.wavesOf event).filter (·.isLaunched)).Perm
      (s.catalog.waves.filter fun wave => wave.event == event && wave.isLaunched) := by
  have hlisted : (s.catalog.wavesOf event).Perm (s.catalog.waves.filter (·.event == event)) :=
    List.mergeSort_perm _ _
  have hlaunched := hlisted.filter (·.isLaunched)
  rw [List.filter_filter] at hlaunched
  simpa only [Bool.and_comm] using hlaunched

theorem nodup_launched (h : s.catalog.Distinct) (event : EventId) :
    (((s.catalog.wavesOf event).filter (·.isLaunched)).map Wave.id).Nodup := by
  rw [((s.perm_launched event).map Wave.id).nodup_iff]
  exact h.waves.sublist (List.filter_sublist.map Wave.id)

/-- A wave that is listed as launched is the one in the catalog. -/
theorem launchTime?_eq (h : s.catalog.Distinct) (event : EventId) (wave : WaveId) :
    s.launchTime? event wave =
      ((s.catalog.wave? wave).filter fun w => w.event == event && w.isLaunched).map
        Wave.startTime := by
  rw [launchTime?, withKey?_eq_of_perm (nodup_launched h event) (s.perm_launched event),
    withKey?_filter_of_nodup h.waves]
  rfl

/-- A reader that is listed for a race is of the race by the catalog. -/
theorem contains_readersOf (h : s.catalog.Distinct) (race : RaceId) (reader : TimeReaderId) :
    ((s.catalog.readersOf race).map (·.id)).contains reader =
      (s.catalog.reader? reader).any (·.race == race) := by
  have hlisted : (s.catalog.readersOf race).Perm (s.catalog.readers.filter (·.race == race)) :=
    List.mergeSort_perm _ _
  have hids : ((s.catalog.readers.filter (·.race == race)).map TimeReader.id).Nodup :=
    h.readers.sublist (List.filter_sublist.map TimeReader.id)
  have hfound : reader ∈ (s.catalog.readersOf race).map TimeReader.id ↔
      (withKey? TimeReader.id reader (s.catalog.readersOf race)).isSome = true := by
    rw [Option.isSome_iff_ne_none, ne_eq, withKey?_eq_none_iff, not_not]
  rw [Bool.eq_iff_iff, List.contains_iff_mem, hfound, ← withKey?_eq_of_perm hids hlisted.symm,
    withKey?_filter_of_nodup h.readers, Option.isSome_filter]
  rfl

/-! ### What the tables say -/

/-- The athletes of an event whose wave is a launched wave of the event. -/
def scoreable (s : Store) (race : RaceId) (event : EventId) : List Athlete :=
  s.athletes.filter fun a => (a.race == race && a.event == event) &&
    (s.catalog.wave? a.wave).any fun wave => wave.event == event && wave.isLaunched

/-- The usable reads of a chip by the readers of a race. -/
def usableReads (s : Store) (race : RaceId) (chip : String) : List ChipRead :=
  s.reads.filter fun read => (read.isUsable && read.chip == chip) &&
    (s.catalog.reader? read.reader).any (·.race == race)

/-- What a trace of an athlete tells. -/
structure IsTraceOf (s : Store) (race : RaceId) (a : Athlete) (trace : Trace) : Prop where
  athlete : trace.athlete = a.id
  bib : trace.bib = a.bib
  chip : trace.chip = a.chip
  gender : trace.gender = a.gender
  category : trace.category = a.category
  status : trace.status = a.status
  /-- The wave is a launched one of the event, and time is taken from its start. -/
  wave : ∃ wave, s.catalog.wave? a.wave = some wave ∧ wave.event = a.event ∧
    wave.isLaunched = true ∧ trace.waveStart = wave.startTime
  /-- The usable reads of the chip, sorted by time. -/
  detections : IsTimeOrder ((s.usableReads race a.chip).map ChipRead.detection) trace.detections

theorem filter_readsOf (h : s.catalog.Distinct) (race : RaceId) (chip : String) :
    ((s.readsOf race).filter fun read => read.isUsable && read.chip == chip) =
      s.usableReads race chip := by
  rw [readsOf, List.filter_filter, usableReads]
  simp only [contains_readersOf h]

theorem isTraceOf_trace (h : s.catalog.Distinct) {waveStart : Instant}
    (hlaunch : s.launchTime? a.event a.wave = some waveStart) (race : RaceId) :
    s.IsTraceOf race a (a.trace waveStart (s.readsOf race)) where
  athlete := rfl
  bib := rfl
  chip := rfl
  gender := rfl
  category := rfl
  status := rfl
  wave := by
    rw [launchTime?_eq h, Option.map_eq_some_iff] at hlaunch
    obtain ⟨wave, hwave, rfl⟩ := hlaunch
    rw [Option.filter_eq_some_iff, Bool.and_eq_true, beq_iff_eq] at hwave
    exact ⟨wave, hwave.1, hwave.2.1, hwave.2.2, rfl⟩
  detections := by
    rw [← filter_readsOf h]
    exact isTimeOrder_inTimeOrder _

end Store

/-! ### One trace for each -/

theorem forall₂_filter_filterMap {α β : Type} {r : α → β → Prop} {f : α → Option β} {xs : List α}
    (h : ∀ x ∈ xs, ∀ y, f x = some y → r x y) :
    List.Forall₂ r (xs.filter fun x => (f x).isSome) (xs.filterMap f) := by
  induction xs with
  | nil => exact .nil
  | cons x xs ih =>
      have hxs := ih fun z hz => h z (List.mem_cons_of_mem _ hz)
      cases hx : f x with
      | none =>
          rw [List.filterMap_cons_none hx, List.filter_cons_of_neg (by simp [hx])]
          exact hxs
      | some y =>
          rw [List.filterMap_cons_some hx, List.filter_cons_of_pos (by simp [hx])]
          exact .cons (h x (List.mem_cons_self ..) y hx) hxs

/-! ### Reads grouped by chip -/

/-- Adds a read to those of its chip. -/
def addToChip (groups : List (String × List ChipRead)) (read : ChipRead) :
    List (String × List ChipRead) :=
  put Prod.fst (read.chip, (groups.lookup read.chip).getD [] ++ [read]) groups

/-- The reads of each chip, as they came. -/
def byChip (reads : List ChipRead) : List (String × List ChipRead) := reads.foldl addToChip []

theorem lookup_addToChip (groups : List (String × List ChipRead)) (read : ChipRead)
    (chip : String) :
    ((addToChip groups read).lookup chip).getD [] =
      (groups.lookup chip).getD [] ++ [read].filter (·.chip == chip) := by
  rw [addToChip, lookup_put]
  by_cases hchip : read.chip = chip
  · rw [if_pos hchip, Option.getD_some, List.filter_cons_of_pos (by simpa using hchip),
      List.filter_nil, hchip]
  · rw [if_neg hchip, List.filter_cons_of_neg (by simpa using hchip), List.filter_nil,
      List.append_nil]

theorem lookup_foldl_addToChip (groups : List (String × List ChipRead)) (reads : List ChipRead)
    (chip : String) :
    ((reads.foldl addToChip groups).lookup chip).getD [] =
      (groups.lookup chip).getD [] ++ reads.filter (·.chip == chip) := by
  -- What is there already stays in front, so the groups have to be arbitrary.
  induction reads generalizing groups with
  | nil => simp
  | cons read reads ih =>
      rw [List.foldl_cons, ih, lookup_addToChip, List.append_assoc, ← List.filter_append,
        List.singleton_append]

/-- A group is what a filter finds. -/
theorem lookup_byChip (reads : List ChipRead) (chip : String) :
    ((byChip reads).lookup chip).getD [] = reads.filter (·.chip == chip) :=
  lookup_foldl_addToChip [] reads chip

namespace Store

variable {s : Store} {registered : List Athlete} {race : RaceId} {event : EventId}
  {traces : List Trace}

/-- The launched waves of an event with their starts, as a table. -/
def launchTimes (s : Store) (event : EventId) : List (WaveId × Instant) :=
  putAll Prod.fst
    (((s.catalog.wavesOf event).filter (·.isLaunched)).map fun w => (w.id, w.startTime)) []

/-- The traces of an event, with the reads grouped by chip and the waves in a table
beforehand. -/
def tracesByChip (s : Store) (race : RaceId) (event : EventId) : List Trace :=
  let groups := byChip (s.readsOf race)
  (s.athletesOf race event).filterMap fun a =>
    ((s.launchTimes event).lookup a.wave).map fun waveStart =>
      a.trace waveStart ((groups.lookup a.chip).getD [])

theorem lookup_launchTimes (h : s.catalog.Distinct) (event : EventId) (wave : WaveId) :
    (s.launchTimes event).lookup wave = s.launchTime? event wave := by
  -- The table is the listing, as no identifier comes twice and is overwritten.
  have htable : s.launchTimes event =
      ((s.catalog.wavesOf event).filter (·.isLaunched)).map fun w => (w.id, w.startTime) := by
    refine putAll_eq_append ?_ fun _ _ => List.not_mem_nil
    rw [List.map_map]
    exact nodup_launched h event
  rw [htable, lookup_eq_map_withKey?, withKey?, List.find?_map, Option.map_map]
  rfl

theorem tracesByChip_eq (h : s.catalog.Distinct) (race : RaceId) (event : EventId) :
    s.tracesByChip race event = s.eventTraces race event := by
  refine List.filterMap_congr fun a _ => ?_
  have htrace : ∀ waveStart, a.trace waveStart
      (((byChip (s.readsOf race)).lookup a.chip).getD []) = a.trace waveStart (s.readsOf race) := by
    intro waveStart
    refine a.trace_congr waveStart ?_
    rw [lookup_byChip, List.filter_filter]
    simp only [Bool.and_self]
  rw [lookup_launchTimes h]
  simp only [htrace]

/-! ### All traces of an event -/

theorem forall₂_eventTraces (h : s.catalog.Distinct) (race : RaceId) (event : EventId) :
    List.Forall₂ (s.IsTraceOf race) (s.scoreable race event) (s.eventTraces race event) := by
  have hscoreable : s.scoreable race event = (s.athletesOf race event).filter fun a =>
      ((s.launchTime? event a.wave).map fun waveStart =>
        a.trace waveStart (s.readsOf race)).isSome := by
    rw [scoreable, athletesOf, List.filter_filter]
    simp only [Option.isSome_map, launchTime?_eq h, Option.isSome_filter, Bool.and_comm]
  rw [hscoreable]
  refine forall₂_filter_filterMap fun a ha trace htrace => ?_
  obtain ⟨waveStart, hlaunch, rfl⟩ := Option.map_eq_some_iff.mp htrace
  obtain ⟨-, -, rfl⟩ := mem_athletesOf.mp ha
  exact isTraceOf_trace h hlaunch race

/-- A trace has the reads of its chip, whoever carries it. -/
theorem detections_of_mem_eventTraces (h : s.catalog.Distinct) {trace : Trace}
    (htrace : trace ∈ s.eventTraces race event) :
    trace.detections = inTimeOrder ((s.usableReads race trace.chip).map ChipRead.detection) := by
  obtain ⟨a, -, ha⟩ := List.mem_filterMap.mp htrace
  obtain ⟨waveStart, -, rfl⟩ := Option.map_eq_some_iff.mp ha
  show inTimeOrder _ = inTimeOrder _
  rw [filter_readsOf h]
  rfl

theorem map_athlete_eventTraces (h : s.catalog.Distinct) (race : RaceId) (event : EventId) :
    (s.eventTraces race event).map Trace.athlete = (s.scoreable race event).map Athlete.id := by
  have hsame : List.Forall₂ Eq ((s.eventTraces race event).map Trace.athlete)
      ((s.scoreable race event).map Athlete.id) := by
    rw [List.forall₂_map_left_iff, List.forall₂_map_right_iff]
    exact (forall₂_eventTraces h race event).flip.imp fun _ _ htrace => htrace.athlete
  rwa [List.forall₂_eq_eq_eq] at hsame

/-- The traces of an event, told by what a store holds and who was registered in
it. -/
structure TracesOf (s : Store) (registered : List Athlete) (race : RaceId) (event : EventId)
    (traces : List Trace) : Prop where
  /-- One for each athlete of the event in a launched wave of it, in the order of the
  roster, -/
  each : List.Forall₂ (s.IsTraceOf race) (s.scoreable race event) traces
  /-- which is that of first registration. -/
  order : (traces.map Trace.athlete).Sublist (registered.map Athlete.id).eraseDups
  /-- Nobody has two. -/
  once : (traces.map Trace.athlete).Nodup
  /-- Athletes are as they were registered last, but for the status. -/
  current : ∀ a ∈ s.scoreable race event, ∃ last,
    withKey? Athlete.id a.id registered.reverse = some last ∧ a = { last with status := a.status }
  /-- Those who share a chip have all of its reads, each of them. -/
  shared : ∀ trace ∈ traces, ∀ event', ∀ other ∈ s.eventTraces race event',
    other.chip = trace.chip → other.detections = trace.detections
  /-- Those who were not read have none. -/
  unread : ∀ trace ∈ traces, trace.detections = [] ↔ s.usableReads race trace.chip = []
  /-- Grouping reads by chip beforehand gives the same traces. -/
  grouped : s.tracesByChip race event = traces

/--
**An event has a trace for just those who can be scored, with all of their usable
reads**, whatever has happened to the store.
-/
theorem tracesOf_foldl_next (steps : List Step) (race : RaceId) (event : EventId) :
    ∃ traces, (steps.foldl next .empty).source.eventTraces race event = .ok traces ∧
      (steps.foldl next .empty).TracesOf (steps.filterMap Step.registered?) race event traces := by
  have hremembers := remembers_foldl_next steps
  have hs : (steps.foldl next .empty).Reachable := Reachable.empty.foldl_next steps
  generalize steps.foldl next .empty = s at hremembers hs
  refine ⟨s.eventTraces race event, rfl, ?_⟩
  exact
    { each := forall₂_eventTraces hs.distinct race event
      order := by
        rw [map_athlete_eventTraces hs.distinct, ← hremembers.order]
        exact List.filter_sublist.map Athlete.id
      once := nodup_athletes_eventTraces hs.keyed.athletes race event
      current := fun a ha => hremembers.registration a (List.mem_filter.mp ha).1
      shared := by
        intro trace htrace event' other hother hchip
        rw [detections_of_mem_eventTraces hs.distinct hother,
          detections_of_mem_eventTraces hs.distinct htrace, hchip]
      unread := by
        intro trace htrace
        have hlength := (inTimeOrder_perm
          ((s.usableReads race trace.chip).map ChipRead.detection)).length_eq
        rw [← detections_of_mem_eventTraces hs.distinct htrace, List.length_map] at hlength
        rw [← List.length_eq_zero_iff, hlength, List.length_eq_zero_iff]
      grouped := tracesByChip_eq hs.distinct race event }

/-- Two athletes share a chip, a third has not been read, and a fourth is in a wave of
another race.  The chip is read out of order by the reader of the race, once more by
that of the other one. -/
def chipShared : List Step :=
  [.saveConfiguration (Catalog.smallRace 1 1), .saveConfiguration (Catalog.smallRace 2 2),
    .register (starter 1 "a"), .register { starter 1 "c" with id := ⟨2⟩ },
    .register { starter 1 "b" with id := ⟨3⟩ },
    .register { starter 1 "a" with id := ⟨4⟩, wave := ⟨2⟩ },
    .register { starter 1 "a" with id := ⟨2⟩ },
    .record [{ startRead 1 "a" with time := early 7 }, startRead 1 "a", startRead 2 "a",
      { startRead 1 "a" with isUsable := false }]].map .operate

theorem tracesOf_chipShared :
    ∃ traces, (chipShared.foldl next .empty).source.eventTraces ⟨1⟩ ⟨1⟩ = .ok traces ∧
      traces.map (fun trace => (trace.athlete, trace.detections)) =
        [(⟨1⟩, [⟨⟨1⟩, early 5⟩, ⟨⟨1⟩, early 7⟩]), (⟨2⟩, [⟨⟨1⟩, early 5⟩, ⟨⟨1⟩, early 7⟩]),
          (⟨3⟩, [])] ∧
      (chipShared.foldl next .empty).TracesOf (chipShared.filterMap Step.registered?) ⟨1⟩ ⟨1⟩
        traces := by
  have hdetections : ((chipShared.foldl next .empty).source.eventTraces ⟨1⟩ ⟨1⟩).map
      (fun traces => traces.map fun trace => (trace.athlete, trace.detections)) =
        .ok [(⟨1⟩, [⟨⟨1⟩, early 5⟩, ⟨⟨1⟩, early 7⟩]), (⟨2⟩, [⟨⟨1⟩, early 5⟩, ⟨⟨1⟩, early 7⟩]),
          (⟨3⟩, [])] := by cbv
  obtain ⟨traces, htraces, htold⟩ := tracesOf_foldl_next chipShared ⟨1⟩ ⟨1⟩
  rw [htraces] at hdetections
  exact ⟨traces, htraces, Except.ok.inj hdetections, htold⟩

end Store

end ChipTiming
