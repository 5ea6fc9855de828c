/-
An event, athlete by athlete.

What an event scores over a store is put together from what is found for each of
its athletes who is in a launched wave (`Store.score_eq`).  The rest of the event
does not come into what is found for one of them, so that most of what there is to
say about a score is said about `scoreTrace`: its slots are keyed by the athlete
and the splits of the course, its status is one that scoring sets, and a status
that follows it changes nothing but the change itself (`scoreTrace_of_settled`).

Places are given last and to the whole event, but that leaves all keys alone.  So
a score has one row for each athlete that is scored and each split, in that order
(`Store.keys_score`), and the rows of different events have different athletes.
-/
import ChipTiming.Proofs.Cycle.Score
import ChipTiming.Proofs.Matching.Walk
import ChipTiming.Proofs.Standings
import Mathlib.Data.List.Nodup
import Mathlib.Data.List.ProdSigma

namespace ChipTiming

variable {ceiling : Duration} {splits : List Split} {start : Option Split} {entries : List Slot}
  {trace : Trace} {status : Status}

/-! ### One athlete -/

/-- A trace has reads of one chip only. -/
theorem Athlete.trace_congr (a : Athlete) (waveStart : Instant) {reads reads' : List ChipRead}
    (h : reads'.filter (·.chip == a.chip) = reads.filter (·.chip == a.chip)) :
    a.trace waveStart reads' = a.trace waveStart reads := by
  unfold Athlete.trace
  rw [← List.filter_filter, ← List.filter_filter, h]

theorem isAdministrative_impliedStatus (slots : List Slot) (splits : List Split) :
    (impliedStatus slots splits).isAdministrative = false := by
  fun_induction impliedStatus slots splits with
  | case1 _ _ _ _ _ ih => exact ih
  | case2 => rfl
  | case3 => rfl
  | case4 _ _ _ _ _ _ _ ih => exact ih
  | case5 => rfl

/-- The status that the reads and entries of an athlete amount to. -/
def scoredStatus (ceiling : Duration) (splits : List Split) (start : Option Split)
    (entries : List Slot) (trace : Trace) : Status :=
  let outcome := matchTrace ceiling trace splits start
  if 0 < countOverrides entries outcome.slots then
    impliedStatus (applyOverrides entries outcome.slots) splits
  else outcome.status

theorem isAdministrative_scoredStatus :
    (scoredStatus ceiling splits start entries trace).isAdministrative = false := by
  dsimp only [scoredStatus]
  split
  · exact isAdministrative_impliedStatus ..
  · exact Matching.isAdministrative_matchTrace ..

theorem scoreTrace_eq :
    scoreTrace ceiling splits start entries trace =
      { slots := applyOverrides entries (matchTrace ceiling trace splits start).slots
        change :=
          if scoredStatus ceiling splits start entries trace != trace.status &&
              trace.status.canBecome (scoredStatus ceiling splits start entries trace) then
            some ⟨trace.athlete, trace.status, scoredStatus ceiling splits start entries trace⟩
          else none
        rejected := scoredStatus ceiling splits start entries trace != trace.status &&
          !trace.status.canBecome (scoredStatus ceiling splits start entries trace)
        overrides := countOverrides entries (matchTrace ceiling trace splits start).slots } := rfl

/-- A change is to the status that was scored, and allowed. -/
theorem change_scoreTrace_eq_some {change : StatusChange}
    (h : (scoreTrace ceiling splits start entries trace).change = some change) :
    change = ⟨trace.athlete, trace.status, scoredStatus ceiling splits start entries trace⟩ ∧
      trace.status.canBecome change.next = true := by
  rw [scoreTrace_eq] at h
  simp only [Option.ite_none_right_eq_some, Bool.and_eq_true, Option.some.injEq] at h
  obtain ⟨⟨-, hallowed⟩, rfl⟩ := h
  exact ⟨rfl, hallowed⟩

/-- Once the status is what the change made it, nothing else is found than before: a
change that was refused is refused again, and the one that was made is no change any
more. -/
theorem scoreTrace_of_settled
    (h : status =
      (scoreTrace ceiling splits start entries trace).change.elim trace.status (·.next)) :
    scoreTrace ceiling splits start entries { trace with status } =
      { scoreTrace ceiling splits start entries trace with change := none } := by
  -- Matching and entries do not read the status on record.
  have hscored : scoredStatus ceiling splits start entries { trace with status } =
      scoredStatus ceiling splits start entries trace := rfl
  have hmatch : matchTrace ceiling { trace with status } splits start =
      matchTrace ceiling trace splits start := rfl
  rw [scoreTrace_eq] at h
  rw [scoreTrace_eq, scoreTrace_eq, hscored, hmatch]
  generalize scoredStatus ceiling splits start entries trace = scored at h ⊢
  by_cases hsame : scored = trace.status
  · simp_all
  · by_cases hallowed : trace.status.canBecome scored = true
    · have hstatus : status = scored := by simpa [hsame, hallowed] using h
      simp [hstatus, hallowed]
    · have hstatus : status = trace.status := by simpa [hallowed] using h
      simp [hstatus, hallowed]

theorem split_of_override? {slot entry : Slot} (h : override? entries slot = some entry) :
    entry.split = slot.split := by simpa using List.find?_some h

theorem map_split_applyOverrides (entries slots : List Slot) :
    (applyOverrides entries slots).map Slot.split = slots.map Slot.split := by
  rw [applyOverrides, List.map_map]
  refine List.map_congr_left fun slot _ => ?_
  rw [Function.comp_apply]
  cases hfound : override? entries slot with
  | none => rfl
  | some entry => exact split_of_override? hfound

theorem keys_applyOverrides {slots : List Slot}
    (h : ∀ entry ∈ entries, ∀ slot ∈ slots, entry.athlete = slot.athlete) :
    (applyOverrides entries slots).map Slot.key = slots.map Slot.key := by
  rw [applyOverrides, List.map_map]
  refine List.map_congr_left fun slot hslot => ?_
  rw [Function.comp_apply]
  cases hfound : override? entries slot with
  | none => rfl
  | some entry =>
      have hathlete := h entry (List.mem_of_find?_eq_some hfound) slot hslot
      rw [Option.getD_some, Slot.key, Slot.key, hathlete, split_of_override? hfound]

theorem keys_scoreTrace (h : ∀ entry ∈ entries, entry.athlete = trace.athlete) :
    (scoreTrace ceiling splits start entries trace).slots.map Slot.key =
      splits.map fun split => (trace.athlete, split.id) := by
  rw [scoreTrace_eq, ← Matching.keys_matchTrace ceiling trace splits start]
  refine keys_applyOverrides fun entry hentry slot hslot => ?_
  have hkey : slot.key ∈ splits.map fun split => (trace.athlete, split.id) := by
    rw [← Matching.keys_matchTrace ceiling trace splits start]
    exact List.mem_map_of_mem hslot
  obtain ⟨split, -, hsplit⟩ := List.mem_map.mp hkey
  rw [h entry hentry]
  exact congrArg Prod.fst hsplit

/-- Whatever entries there are, the slots are those of the splits. -/
theorem map_split_scoreTrace :
    (scoreTrace ceiling splits start entries trace).slots.map Slot.split = splits.map Split.id := by
  rw [scoreTrace_eq]
  exact (map_split_applyOverrides ..).trans (Matching.map_split_matchTrace ..)

/-! ### All athletes of an event -/

/-- What is found for athletes of an event, put together. -/
def EventResults.ofScored (event : EventId) (scored : List AthleteResults) : EventResults where
  event
  athletes := scored.length
  results := assignRanks (scored.flatMap (·.slots))
  changes := scored.filterMap (·.change)
  rejected := scored.countP (·.rejected)
  overrides := total (·.overrides) scored

theorem scoreTraces_eq (ceiling : Duration) (event : EventId) (splits : List Split)
    (traces : List Trace) (overrides : List (AthleteId × List Slot)) :
    scoreTraces ceiling event splits traces overrides = .ofScored event (traces.map fun trace =>
      scoreTrace ceiling splits (splits.find? (·.isStart))
        ((overrides.lookup trace.athlete).getD []) trace) := by
  rw [scoreTraces, EventResults.ofScored, List.length_map]

/-- Computes an event as `computeEvent` does, with another way to score an athlete or
to put together what is found for them. -/
def computeEventWith
    (score : List Split → Option Split → List Slot → Trace → AthleteResults)
    (gather : List AthleteResults → EventResults) (source : Source) (catalog : Catalog)
    (race : RaceId) (event : EventId) : Except Failure EventResults := do
  let splits ← courseFor source catalog race event
  if splits.isEmpty then return .none event
  let traces ← source.eventTraces race event
  let overrides ← source.overrides race event
  return gather (traces.map fun trace =>
    score splits (splits.find? (·.isStart)) ((overrides.lookup trace.athlete).getD []) trace)

theorem computeEvent_eq_with (source : Source) (catalog : Catalog) (settings : Settings)
    (race : RaceId) (event : EventId) :
    computeEvent source catalog settings race event =
      computeEventWith (scoreTrace settings.ceiling) (.ofScored event) source catalog race
        event := by
  rw [computeEvent, computeEventWith]
  simp only [scoreTraces_eq]

namespace Store

variable {s : Store} {catalog : Catalog} {settings : Settings} {race : RaceId} {event : EventId}
  {change : StatusChange}

/-- The entries made by hand that count for an athlete of an event. -/
def entriesIn (s : Store) (race : RaceId) (event : EventId) (athlete : AthleteId) : List Slot :=
  ((s.overrides race event).lookup athlete).getD []

/-- What is found for the athlete of a trace. -/
def scoreIn (s : Store) (catalog : Catalog) (settings : Settings) (race : RaceId)
    (event : EventId) (trace : Trace) : AthleteResults :=
  let course := s.courseOf catalog race event
  scoreTrace settings.ceiling course (course.find? (·.isStart))
    (s.entriesIn race event trace.athlete) trace

theorem score_eq (s : Store) (catalog : Catalog) (settings : Settings) (race : RaceId)
    (event : EventId) :
    s.score catalog settings race event =
      if (s.courseOf catalog race event).isEmpty then .none event
      else .ofScored event
        ((s.eventTraces race event).map (s.scoreIn catalog settings race event)) := by
  rw [score]
  exact if_congr Iff.rfl rfl (scoreTraces_eq ..)

/-- What is reported as a change was found for an athlete of one of the events. -/
theorem mem_changes_iff {events : List EventId} :
    change ∈ (Report.ofEvents race (events.map (s.score catalog settings race))).changes ↔
      ∃ event ∈ events, (s.courseOf catalog race event).isEmpty = false ∧
        ∃ a ∈ s.athletesOf race event, ∃ waveStart,
          s.launchTime? event a.wave = some waveStart ∧
          (s.scoreIn catalog settings race event (a.trace waveStart (s.readsOf race))).change =
            some change := by
  have hscore : ∀ event, change ∈ (s.score catalog settings race event).changes ↔
      (s.courseOf catalog race event).isEmpty = false ∧
        ∃ trace ∈ s.eventTraces race event,
          (s.scoreIn catalog settings race event trace).change = some change := by
    intro event
    rw [score_eq]
    cases (s.courseOf catalog race event).isEmpty <;>
      simp [EventResults.none, EventResults.ofScored]
  simp [Report.ofEvents, hscore, eventTraces, and_assoc]

/-- Entries that count for an athlete are the athlete's own. -/
theorem athlete_of_mem_entriesIn (hs : s.Filed) {athlete : AthleteId} {entry : Slot}
    (h : entry ∈ s.entriesIn race event athlete) : entry.athlete = athlete := by
  rw [entriesIn] at h
  cases hlookup : (s.overrides race event).lookup athlete with
  | none => simp [hlookup] at h
  | some found =>
      rw [hlookup] at h
      obtain ⟨before, after, hsplit, -⟩ := List.lookup_eq_some_iff.mp hlookup
      have hfiled : (athlete, found) ∈ s.overrides race event := by simp [hsplit]
      exact hs.entries _ (List.mem_of_mem_filter hfiled) entry h

/-- A score has a row for each athlete who is scored and each split of the course. -/
theorem keys_score (hs : s.Filed) (catalog : Catalog) (settings : Settings) (race : RaceId)
    (event : EventId) :
    (s.score catalog settings race event).results.map Slot.key =
      (s.eventTraces race event).map (·.athlete) ×ˢ
        (s.courseOf catalog race event).map (·.id) := by
  rw [score_eq]
  cases hcourse : s.courseOf catalog race event with
  | nil => simp [EventResults.none]
  | cons first rest =>
      show (assignRanks _).map Slot.key = _
      rw [map_assignRanks fun slot basis ranks => slot.key_setRanks basis ranks,
        List.map_flatMap, List.flatMap_map]
      have hkeys : ∀ trace, (s.scoreIn catalog settings race event trace).slots.map Slot.key =
          ((first :: rest).map (·.id)).map (Prod.mk trace.athlete) := by
        intro trace
        rw [scoreIn, keys_scoreTrace fun entry => athlete_of_mem_entriesIn hs, hcourse,
          List.map_map]
        rfl
      simp only [hkeys]
      show _ = ((s.eventTraces race event).map (·.athlete)).flatMap fun athlete =>
        ((first :: rest).map (·.id)).map (Prod.mk athlete)
      rw [List.flatMap_map]

end Store

end ChipTiming
