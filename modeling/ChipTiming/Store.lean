/-
A store of everything that scoring reads and writes.

It holds the configuration of the races, the roster, the reads as they came in,
the entries made by hand and the results of each race.  Reads are only ever added.
A write can be made to fail, which leaves the store as it was.

The queries are those that scoring asks of a source: which events of a race have
been launched, their splits, the traces of their athletes, and the entries made by
hand for them.  Only athletes in a launched wave have a trace, and only reads by a
reader of the race are part of it.
-/
import ChipTiming.Catalog
import ChipTiming.Slot

namespace ChipTiming

/-- What scoring reads and writes. -/
structure Store where
  catalog : Catalog
  /-- Athletes in the order of their first registration. -/
  athletes : List Athlete
  reads : List ChipRead
  /-- Entries made by hand, by athlete. -/
  entries : List (AthleteId × List Slot)
  /-- Results by race, in the order in which they were first written. -/
  results : List (RaceId × List Slot)
  /-- How many bulk writes were accepted. -/
  bulkWrites : Nat
  /-- Why writes fail at present. -/
  writeFault : Option String
  deriving DecidableEq, Repr

namespace Store

/-- A store that holds nothing. -/
def empty : Store := ⟨.empty, [], [], [], [], 0, none⟩

/-! ### Recording -/

/-- Saves the configuration of a race in place of the one before. -/
def saveConfiguration (s : Store) (config : Configuration) : Except Misconfiguration Store := do
  return { s with catalog := ← s.catalog.update config }

/-- Registers an athlete, in place of an earlier registration. -/
def register (s : Store) (athlete : Athlete) : Store :=
  { s with athletes := put Athlete.id athlete s.athletes }

/-- Adds reads. -/
def record (s : Store) (reads : List ChipRead) : Store := { s with reads := s.reads ++ reads }

/-- The entries made by hand for an athlete. -/
def entriesOf (s : Store) (athlete : AthleteId) : List Slot :=
  ((withKey? Prod.fst athlete s.entries).map (·.2)).getD []

/-- Makes an entry by hand, in place of an earlier one for its athlete and split. -/
def enter (s : Store) (entry : Slot) : Store :=
  let updated := put Slot.split entry (s.entriesOf entry.athlete)
  { s with entries := put Prod.fst (entry.athlete, updated) s.entries }

/-- Makes writes fail for a reason, or succeed again. -/
def setWriteFault (s : Store) (reason : Option String) : Store := { s with writeFault := reason }

/-! ### Looking things up -/

/-- The athlete with an identifier. -/
def athlete? (s : Store) (id : AthleteId) : Option Athlete := withKey? Athlete.id id s.athletes

/-- The results of a race. -/
def resultsOf (s : Store) (race : RaceId) : List Slot :=
  ((withKey? Prod.fst race s.results).map (·.2)).getD []

/-- The result of an athlete at a split.  The key may be stored for several races, and
the order in which races are searched is not specified; that in which they were first
written to is a choice. -/
def result? (s : Store) (athlete : AthleteId) (split : SplitId) : Option Slot :=
  (s.results.flatMap (·.2)).find? (·.key == (athlete, split))

/-- The events of a race that have been launched. -/
def launchedEvents (s : Store) (race : RaceId) : List EventId := s.catalog.launchedEvents race

/-- The splits of an event of a race. -/
def eventSplits (s : Store) (race : RaceId) (event : EventId) : List Split :=
  match s.catalog.event? event with
  | some found => if found.race = race then (s.catalog.course? event).getD [] else []
  | none => []

/-- The athletes registered for an event of a race. -/
def athletesOf (s : Store) (race : RaceId) (event : EventId) : List Athlete :=
  s.athletes.filter fun a => a.race == race && a.event == event

/-- When a wave of an event started, if it has been launched. -/
def launchTime? (s : Store) (event : EventId) (wave : WaveId) : Option Instant :=
  (withKey? Wave.id wave ((s.catalog.wavesOf event).filter (·.isLaunched))).map (·.startTime)

/-- The reads by the readers of a race. -/
def readsOf (s : Store) (race : RaceId) : List ChipRead :=
  let readers := (s.catalog.readersOf race).map (·.id)
  s.reads.filter fun r => readers.contains r.reader

/-- The traces of an event's athletes. -/
def eventTraces (s : Store) (race : RaceId) (event : EventId) : List Trace :=
  let reads := s.readsOf race
  (s.athletesOf race event).filterMap fun a =>
    (s.launchTime? event a.wave).map fun waveStart => a.trace waveStart reads

/-- The entries made by hand for an event's athletes. -/
def overrides (s : Store) (race : RaceId) (event : EventId) : List (AthleteId × List Slot) :=
  let athletes := (s.athletesOf race event).map (·.id)
  s.entries.filter fun entry => athletes.contains entry.1

/-! ### Writing -/

/-- Refuses a write while writes fail. -/
def checkWritable (s : Store) (operation : String) : Except Failure Unit :=
  match s.writeFault with
  | some reason => .error (.sink operation reason)
  | none => .ok ()

/-- Writes results of a race, each in place of the one before for its athlete and
split. -/
def upsertResults (s : Store) (race : RaceId) (batch : List Slot) : Except Failure Store := do
  s.checkWritable "upsert results"
  let updated := putAll Slot.key batch (s.resultsOf race)
  return { s with
    results := put Prod.fst (race, updated) s.results
    bulkWrites := s.bulkWrites + 1 }

/-- Sets the status of an athlete. -/
def updateStatus (s : Store) (id : AthleteId) (status : Status) : Except Failure Store := do
  s.checkWritable "update status"
  match s.athlete? id with
  | none => throw (.sink "update status" ("unknown athlete " ++ id.text))
  | some athlete => return { s with athletes := put Athlete.id { athlete with status } s.athletes }

end Store

end ChipTiming
