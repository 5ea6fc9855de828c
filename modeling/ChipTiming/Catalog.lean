/-
The catalog: everything configured about the races that are currently known.

A catalog is a plain value, so whoever holds one keeps a consistent view however
often the catalog in use is replaced.  Saving a configuration removes everything
of its race and then adds the new entities; an entity that another race had under
the same identifier is replaced.  The course of every event that has splits is
kept beside the splits, already in order.

Which entities belong to a race is decided by its events: a category, split or
wave is removed with the event that it names.
-/
import ChipTiming.Configuration
import ChipTiming.Keyed

namespace ChipTiming

/-- What is configured about all races. -/
structure Catalog where
  /-- How many changes led here. -/
  version : Nat
  races : List Race
  events : List Event
  categories : List Category
  readers : List TimeReader
  splits : List Split
  waves : List Wave
  /-- The splits of each event that has any, in the order of the course. -/
  courses : List (EventId × List Split)
  deriving DecidableEq, Repr

namespace Catalog

/-- Nothing is configured. -/
def empty : Catalog := ⟨0, [], [], [], [], [], [], []⟩

/-! ### Looking things up -/

/-- The race with an identifier. -/
def race? (c : Catalog) (id : RaceId) : Option Race := withKey? Race.id id c.races

/-- The event with an identifier. -/
def event? (c : Catalog) (id : EventId) : Option Event := withKey? Event.id id c.events

/-- The category with an identifier. -/
def category? (c : Catalog) (id : CategoryId) : Option Category :=
  withKey? Category.id id c.categories

/-- The time reader with an identifier. -/
def reader? (c : Catalog) (id : TimeReaderId) : Option TimeReader :=
  withKey? TimeReader.id id c.readers

/-- The split with an identifier. -/
def split? (c : Catalog) (id : SplitId) : Option Split := withKey? Split.id id c.splits

/-- The wave with an identifier. -/
def wave? (c : Catalog) (id : WaveId) : Option Wave := withKey? Wave.id id c.waves

/-- The splits of an event in the order of the course, if it has any. -/
def course? (c : Catalog) (event : EventId) : Option (List Split) :=
  (withKey? Prod.fst event c.courses).map (·.2)

/-- The start of an event. -/
def start? (c : Catalog) (event : EventId) : Option Split :=
  (c.course? event).bind (·.find? (·.isStart))

/-- A list by one value of its elements, and by another where the first is equal. -/
def sortedBy {α β γ : Type} [Ord β] [Ord γ] (first : α → β) (second : α → γ)
    (xs : List α) : List α :=
  xs.mergeSort fun a b => ((compareOn first a b).then (compareOn second a b)).isLE

/-- The waves of an event by starting time. -/
def wavesOf (c : Catalog) (event : EventId) : List Wave :=
  sortedBy Wave.startTime Wave.id (c.waves.filter (·.event == event))

/-- The categories of an event by name. -/
def categoriesOf (c : Catalog) (event : EventId) : List Category :=
  sortedBy Category.name Category.id (c.categories.filter (·.event == event))

/-- The events of a race by date. -/
def eventsOf (c : Catalog) (race : RaceId) : List Event :=
  sortedBy Event.date Event.id (c.events.filter (·.race == race))

/-- The time readers of a race by name. -/
def readersOf (c : Catalog) (race : RaceId) : List TimeReader :=
  sortedBy TimeReader.name TimeReader.id (c.readers.filter (·.race == race))

/-- The events of a race that have a launched wave. -/
def launchedEvents (c : Catalog) (race : RaceId) : List EventId :=
  ((c.eventsOf race).filter fun e =>
    c.waves.any fun w => w.event == e.id && w.isLaunched).map (·.id)

/-! ### Replacing a race -/

/-- The catalog without a race and what belongs to it. -/
def purge (c : Catalog) (race : RaceId) : Catalog :=
  let gone := (c.events.filter (·.race == race)).map (·.id)
  { c with
    races := c.races.filter (·.id != race)
    events := c.events.filter (·.race != race)
    categories := c.categories.filter fun k => !gone.contains k.event
    readers := c.readers.filter (·.race != race)
    splits := c.splits.filter fun s => !gone.contains s.event
    waves := c.waves.filter fun w => !gone.contains w.event
    courses := c.courses.filter fun entry => !gone.contains entry.1 }

/-- The courses that a configuration defines, one for each event that a split of it
names. -/
def coursesOf (config : Configuration) : List (EventId × List Split) :=
  let events := config.splits.foldl (fun seen s => put id s.event seen) []
  events.map fun event => (event, config.course event)

/-- The catalog with the entities of a configuration put into it. -/
def insert (c : Catalog) (config : Configuration) : Catalog :=
  { c with
    races := put Race.id config.race c.races
    events := putAll Event.id config.events c.events
    categories := putAll Category.id config.categories c.categories
    readers := putAll TimeReader.id config.readers c.readers
    splits := putAll Split.id config.splits c.splits
    waves := putAll Wave.id config.waves c.waves
    courses := putAll Prod.fst (coursesOf config) c.courses }

/-- The catalog in which a configuration has replaced everything of its race.  A
configuration with a mistake is refused. -/
def update (c : Catalog) (config : Configuration) : Except Misconfiguration Catalog := do
  config.validate
  return { (c.purge config.race.id).insert config with version := c.version + 1 }

/-- The catalog without a race. -/
def removeRace (c : Catalog) (race : RaceId) : Catalog :=
  { c.purge race with version := c.version + 1 }

end Catalog

end ChipTiming
