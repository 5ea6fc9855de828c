/-
Scoring cycles.

A cycle asks a source for what has happened, computes the results of one event or
of every launched event of a race, and writes them to a sink.  Per event: the
splits (those of the catalog if it has them, otherwise those of the source), the
traces matched against them, entries made by hand put in their places, the status
that follows from the slots checked against the table of allowed changes, and
ranks over the whole event.

Everything is asked before anything is written.  The writes are one bulk write of
all results and then one write for each change of status; a write that fails ends
the cycle, and what was written before it stays.  That is why a commit gives back
the sink in either case.
-/
import ChipTiming.Override
import ChipTiming.Settings
import ChipTiming.Standings
import ChipTiming.Store

namespace ChipTiming

/-! ### Where results come from -/

/-- A question that a source can be asked. -/
inductive Query where
  | launchedEvents | eventSplits | eventTraces | overrides
  deriving DecidableEq, Repr

/-- The reading side of a cycle. -/
structure Source where
  /-- The events of a race that have a launched wave. -/
  launchedEvents : RaceId → Except Failure (List EventId)
  /-- The splits of an event, in any order. -/
  eventSplits : RaceId → EventId → Except Failure (List Split)
  /-- Every athlete of an event that can be scored. -/
  eventTraces : RaceId → EventId → Except Failure (List Trace)
  /-- The entries made by hand, by athlete. -/
  overrides : RaceId → EventId → Except Failure (List (AthleteId × List Slot))

/-- A store as a source; it answers every question. -/
def Store.source (s : Store) : Source where
  launchedEvents race := .ok (s.launchedEvents race)
  eventSplits race event := .ok (s.eventSplits race event)
  eventTraces race event := .ok (s.eventTraces race event)
  overrides race event := .ok (s.overrides race event)

/-- A source that fails when it is asked one question, always or only when asked about
one event.  The question for launched events is not about an event. -/
def Source.failingAt (s : Source) (query : Query) (event : Option EventId) (failure : Failure) :
    Source :=
  let fails (asked : Query) (about : EventId) : Bool :=
    query == asked && event.all (· == about)
  { launchedEvents := fun race =>
      if query == .launchedEvents && event.isNone then .error failure else s.launchedEvents race
    eventSplits := fun race about =>
      if fails .eventSplits about then .error failure else s.eventSplits race about
    eventTraces := fun race about =>
      if fails .eventTraces about then .error failure else s.eventTraces race about
    overrides := fun race about =>
      if fails .overrides about then .error failure else s.overrides race about }

/-! ### The results of one event -/

/-- What a quantity adds up to over a list. -/
def total {α : Type} (quantity : α → Nat) (xs : List α) : Nat :=
  xs.foldr (fun x sum => quantity x + sum) 0

theorem total_map {α β : Type} (quantity : β → Nat) (f : α → β) (xs : List α) :
    total quantity (xs.map f) = total (fun x => quantity (f x)) xs := by
  induction xs with
  | nil => rfl
  | cons x xs ih =>
      show quantity (f x) + total quantity (xs.map f) = _
      rw [ih]
      rfl

@[simp] theorem total_singleton {α : Type} (quantity : α → Nat) (x : α) :
    total quantity [x] = quantity x := Nat.add_zero _

/-- A change of status that is allowed. -/
structure StatusChange where
  athlete : AthleteId
  current : Status
  next : Status
  deriving DecidableEq, Repr

/-- The ranked results of an event, not yet written. -/
structure EventResults where
  event : EventId
  athletes : Nat
  /-- A row for each athlete and split, athletes in the order of the source. -/
  results : List Slot
  changes : List StatusChange
  /-- How many changes of status were not allowed. -/
  rejected : Nat
  overrides : Nat
  deriving DecidableEq, Repr

/-- What is found for one athlete. -/
structure AthleteResults where
  slots : List Slot
  change : Option StatusChange
  rejected : Bool
  overrides : Nat
  deriving DecidableEq, Repr

/-- Scores one athlete: matches the trace, puts entries made by hand in their places,
and checks the change of status. -/
def scoreTrace (ceiling : Duration) (splits : List Split) (start : Option Split)
    (entries : List Slot) (trace : Trace) : AthleteResults :=
  let outcome := matchTrace ceiling trace splits start
  let slots := applyOverrides entries outcome.slots
  let replaced := countOverrides entries outcome.slots
  let status := if 0 < replaced then impliedStatus slots splits else outcome.status
  let allowed := trace.status.canBecome status
  { slots
    change :=
      if status != trace.status && allowed then some ⟨trace.athlete, trace.status, status⟩ else none
    rejected := status != trace.status && !allowed
    overrides := replaced }

/-- Scores the athletes of an event. -/
def scoreTraces (ceiling : Duration) (event : EventId) (splits : List Split) (traces : List Trace)
    (overrides : List (AthleteId × List Slot)) : EventResults :=
  let start := splits.find? (·.isStart)
  let scored := traces.map fun trace =>
    scoreTrace ceiling splits start ((overrides.lookup trace.athlete).getD []) trace
  { event
    athletes := traces.length
    results := assignRanks (scored.flatMap (·.slots))
    changes := scored.filterMap (·.change)
    rejected := scored.countP (·.rejected)
    overrides := total (·.overrides) scored }

/-- An event without splits has no results. -/
def EventResults.none (event : EventId) : EventResults := ⟨event, 0, [], [], 0, 0⟩

/-- The splits of an event in the order of the course: the catalog's, or else the
source's. -/
def courseFor (source : Source) (catalog : Catalog) (race : RaceId) (event : EventId) :
    Except Failure (List Split) :=
  match catalog.course? event with
  | some splits => .ok splits
  | .none => (source.eventSplits race event).map courseOrder

/-- Computes the results of an event. -/
def computeEvent (source : Source) (catalog : Catalog) (settings : Settings) (race : RaceId)
    (event : EventId) : Except Failure EventResults := do
  let splits ← courseFor source catalog race event
  if splits.isEmpty then return .none event
  let traces ← source.eventTraces race event
  let overrides ← source.overrides race event
  return scoreTraces settings.ceiling event splits traces overrides

/-! ### Cycles -/

/-- What a cycle wrote. -/
structure Report where
  race : RaceId
  events : List EventId
  athletes : Nat
  results : List Slot
  changes : List StatusChange
  rejected : Nat
  overrides : Nat
  deriving DecidableEq, Repr

/-- The results of several events together. -/
def Report.ofEvents (race : RaceId) (computed : List EventResults) : Report where
  race
  events := computed.map (·.event)
  athletes := total (·.athletes) computed
  results := computed.flatMap (·.results)
  changes := computed.flatMap (·.changes)
  rejected := total (·.rejected) computed
  overrides := total (·.overrides) computed

/-- Writes changes of status one after another, up to the first that fails. -/
def writeChanges (sink : Store) : List StatusChange → Store × Except Failure Unit
  | [] => (sink, .ok ())
  | change :: rest =>
    match sink.updateStatus change.athlete change.next with
    | .ok written => writeChanges written rest
    | .error failure => (sink, .error failure)

/-- Writes a report: all results at once, then the changes of status. -/
def commit (sink : Store) (report : Report) : Store × Except Failure Report :=
  match sink.upsertResults report.race report.results with
  | .error failure => (sink, .error failure)
  | .ok written =>
    let (changed, outcome) := writeChanges written report.changes
    (changed, outcome.map fun _ => report)

/-- Computes the launched events of a race. -/
def computeRace (source : Source) (catalog : Catalog) (settings : Settings) (race : RaceId) :
    Except Failure Report := do
  let events ← source.launchedEvents race
  let computed ← events.mapM (computeEvent source catalog settings race)
  return .ofEvents race computed

/-- Computes one event of a race, which must have been launched. -/
def computeLaunched (source : Source) (catalog : Catalog) (settings : Settings) (race : RaceId)
    (event : EventId) : Except Failure Report := do
  let launched ← source.launchedEvents race
  if !launched.contains event then throw (.eventNotFound event.text)
  let computed ← computeEvent source catalog settings race event
  return .ofEvents race [computed]

/-- Writes what was computed, if anything was. -/
def commitComputed (sink : Store) (computed : Except Failure Report) :
    Store × Except Failure Report :=
  match computed with
  | .ok report => commit sink report
  | .error failure => (sink, .error failure)

/-- A cycle over every launched event of a race. -/
def recomputeRace (source : Source) (catalog : Catalog) (settings : Settings) (race : RaceId)
    (sink : Store) : Store × Except Failure Report :=
  commitComputed sink (computeRace source catalog settings race)

/-- A cycle over one launched event. -/
def recomputeEvent (source : Source) (catalog : Catalog) (settings : Settings) (race : RaceId)
    (event : EventId) (sink : Store) : Store × Except Failure Report :=
  commitComputed sink (computeLaunched source catalog settings race event)

end ChipTiming
