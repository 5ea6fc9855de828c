/-
The configuration of a race, and when it is well formed.

A `Configuration` holds everything about one race and is saved as a whole.
`mistake?` looks for the first mistake in a fixed order: identifiers used twice,
entities of another race, references to events that are not there, each split on
its own, chains of laps that never end, and last the number of starts of each
event.  A configuration without a mistake is what matching relies on.

Chains of laps are followed link by link, with a note of the splits that were met.
A chain that comes back to one of them never ends; and since every further link
leads to a split that was not met before, the walk is over once there are no more
of those.
-/
import ChipTiming.Failure

namespace ChipTiming

/-- The configuration of one race. -/
structure Configuration where
  race : Race
  events : List Event
  categories : List Category
  readers : List TimeReader
  splits : List Split
  waves : List Wave
  deriving DecidableEq, Repr

/-- The first element that occurs among those before it. -/
def firstRepeated? {α : Type} [BEq α] (earlier : List α) : List α → Option α
  | [] => none
  | x :: xs => if earlier.contains x then some x else firstRepeated? (x :: earlier) xs

namespace Configuration

/-- The splits of an event in the order of the course. -/
def course (c : Configuration) (event : EventId) : List Split :=
  courseOrder (c.splits.filter (·.event == event))

/-! ### The checks -/

variable {entity : Entity}

/-- An identifier used twice. -/
def repeatedId? (subject : Subject) (ids : List (Id entity)) : Option Misconfiguration :=
  (firstRepeated? [] ids).map fun id => ⟨subject, id.text, .duplicateId⟩

/-- An entity that belongs to another race. -/
def foreign? (c : Configuration) (subject : Subject) (id : Id entity) (race : RaceId) :
    Option Misconfiguration :=
  if race = c.race.id then none else some ⟨subject, id.text, .foreignRace race c.race.id⟩

/-- A reference to an event that is not part of the race. -/
def dangling? (c : Configuration) (subject : Subject) (id : Id entity) (event : EventId) :
    Option Misconfiguration :=
  if c.events.any (·.id == event) then none else some ⟨subject, id.text, .unknownEvent event⟩

/-- The split with an identifier. -/
def split? (c : Configuration) (id : SplitId) : Option Split := c.splits.find? (·.id == id)

/-- What is wrong with the previous lap of a split. -/
def previousLapReason? (c : Configuration) (s : Split) (previous : SplitId) : Option Reason :=
  if previous = s.id then some .ownPreviousLap
  else match c.split? previous with
    | some found => if found.event = s.event then none else some (.previousLapElsewhere previous)
    | none => some (.previousLapMissing previous)

/-- What is wrong with a split, taken together with the splits, events and readers it
names. -/
def splitReason? (c : Configuration) (s : Split) : Option Reason :=
  if !c.events.any (·.id == s.event) then some (.unknownEvent s.event)
  else if !c.readers.any (·.id == s.reader) then some (.foreignReader s.reader)
  else if !s.maxTime.isZero && s.maxTime < s.minTime then
    some (.invertedWindow s.maxTime s.minTime)
  else s.previousLap.bind (c.previousLapReason? s)

/-- The split that closes the lap before a split. -/
def previousLap? (c : Configuration) (id : SplitId) : Option SplitId :=
  (c.split? id).bind (·.previousLap)

/-- Where following laps back leads. -/
structure LapWalk where
  /-- How many links are followed. -/
  steps : Nat
  /-- Whether there is no link any more; otherwise the last one led to a split met
  before. -/
  ends : Bool
  deriving DecidableEq, Repr

/-- The splits that were not met. -/
def unmet (c : Configuration) (met : List SplitId) : List Split :=
  c.splits.filter fun s => !met.contains s.id

/-- How many links a walk can still follow: one to each split that was not met, and
one more, to a split that was or that does not exist. -/
def lapsAhead (c : Configuration) (met : List SplitId) (id : SplitId) : Nat :=
  (c.unmet met).length + if (c.previousLap? id).isSome then 1 else 0

theorem unmet_cons (c : Configuration) (id : SplitId) (met : List SplitId) :
    c.unmet (id :: met) = (c.unmet met).filter (·.id != id) := by
  rw [unmet, unmet, List.filter_filter]
  refine List.filter_congr fun s _ => ?_
  rw [List.contains_cons, Bool.not_or]
  rfl

theorem lapsAhead_lt {c : Configuration} {met : List SplitId} {id previous : SplitId}
    (hlink : c.previousLap? id = some previous) (hnew : previous ∉ met) :
    c.lapsAhead (previous :: met) previous < c.lapsAhead met id := by
  have hle : (c.unmet (previous :: met)).length ≤ (c.unmet met).length := by
    rw [unmet_cons]
    exact List.length_filter_le ..
  cases hfound : c.split? previous with
  | none =>
      -- No split is used up, but no link goes on from one that does not exist.
      have hend : c.previousLap? previous = none := by simp [previousLap?, hfound]
      simp only [lapsAhead, hlink, hend, Option.isSome_none, Option.isSome_some]
      exact Nat.lt_succ_of_le hle
  | some s =>
      have hid : s.id = previous := by simpa using List.find?_some hfound
      have hmem : s ∈ c.splits := List.mem_of_find?_eq_some hfound
      have hlt : (c.unmet (previous :: met)).length < (c.unmet met).length := by
        rw [unmet_cons, List.length_filter_lt_length_iff_exists]
        exact ⟨s, by simp [unmet, hmem, hid, hnew], by simp [hid]⟩
      simp only [lapsAhead, hlink, Option.isSome_some, if_true]
      split <;> omega

/-- Follows laps back from a split, where `met` are the splits met so far.  It can be
unfolded, so that configurations are checked by evaluation. -/
@[semireducible]
def walkLaps (c : Configuration) (met : List SplitId) (id : SplitId) : LapWalk :=
  match hlink : c.previousLap? id with
  | none => ⟨0, true⟩
  | some previous =>
    if hmet : previous ∈ met then ⟨1, false⟩
    else
      let rest := c.walkLaps (previous :: met) previous
      ⟨rest.steps + 1, rest.ends⟩
termination_by c.lapsAhead met id
decreasing_by exact lapsAhead_lt hlink hmet

/-- How many starts an event has. -/
def startCount (c : Configuration) (event : EventId) : Nat :=
  c.splits.countP fun s => s.event == event && s.isStart

/-- An event that has splits, but not exactly one start. -/
def startMistake? (c : Configuration) (event : Event) : Option Misconfiguration :=
  if c.splits.any (·.event == event.id) && c.startCount event.id != 1 then
    some ⟨.event, event.id.text, .startCount (c.startCount event.id)⟩
  else none

/-- The checks in their order. -/
def checks (c : Configuration) : List (Option Misconfiguration) :=
  [repeatedId? .event (c.events.map (·.id)),
    repeatedId? .category (c.categories.map (·.id)),
    repeatedId? .timeReader (c.readers.map (·.id)),
    repeatedId? .split (c.splits.map (·.id)),
    repeatedId? .wave (c.waves.map (·.id)),
    c.events.findSome? fun e => c.foreign? .event e.id e.race,
    c.readers.findSome? fun r => c.foreign? .timeReader r.id r.race,
    c.categories.findSome? fun k => c.dangling? .category k.id k.event,
    c.waves.findSome? fun w => c.dangling? .wave w.id w.event,
    c.splits.findSome? fun s => (c.splitReason? s).map fun r => ⟨.split, s.id.text, r⟩,
    c.splits.findSome? fun s =>
      if (c.walkLaps [s.id] s.id).ends then none else some ⟨.split, s.id.text, .lapCycle⟩,
    c.events.findSome? c.startMistake?]

/-- The first mistake. -/
def mistake? (c : Configuration) : Option Misconfiguration := c.checks.findSome? id

/-- Refuses a configuration with a mistake. -/
def validate (c : Configuration) : Except Misconfiguration Unit :=
  match c.mistake? with
  | some mistake => .error mistake
  | none => .ok ()

end Configuration

end ChipTiming
