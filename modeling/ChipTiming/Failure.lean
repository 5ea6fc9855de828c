/-
What can go wrong.

A failure is kept as its cause.  Its wording, whether trying again may help, and
what to try are functions of the cause.  Finding no detections for an athlete is
not a failure, and neither is a change of status that scoring may not make.
-/
import ChipTiming.Course

namespace ChipTiming

/-- What a mistake in the configuration is found in. -/
inductive Subject where
  | event | category | timeReader | split | wave | settings
  deriving DecidableEq, Repr

namespace Subject

/-- The word for it in messages. -/
def name : Subject → String
  | event => "event"
  | category => "category"
  | timeReader => "time reader"
  | split => "split"
  | wave => "wave"
  | settings => "settings"

/-- Every subject once. -/
def all : List Subject := [event, category, timeReader, split, wave, settings]

/-- The subject that a word stands for. -/
def ofName? (s : String) : Option Subject := all.find? (·.name == s)

end Subject

/-- Why a configuration is refused. -/
inductive Reason where
  | duplicateId
  | foreignRace (found expected : RaceId)
  | unknownEvent (event : EventId)
  | foreignReader (reader : TimeReaderId)
  | invertedWindow (maxTime minTime : Duration)
  | ownPreviousLap
  | previousLapElsewhere (previous : SplitId)
  | previousLapMissing (previous : SplitId)
  | lapCycle
  | startCount (found : Nat)
  | noConcurrency
  | noCeiling
  /-- A reason found elsewhere, in its own words. -/
  | stated (text : String)
  deriving DecidableEq, Repr

/-- The wording of a reason. -/
def Reason.text : Reason → String
  | duplicateId => "duplicate id"
  | foreignRace found expected =>
    "belongs to race " ++ found.text ++ " instead of " ++ expected.text
  | unknownEvent event => "references unknown event " ++ event.text
  | foreignReader reader => "time reader " ++ reader.text ++ " is not part of this race"
  | invertedWindow maxTime minTime =>
    "max time " ++ maxTime.brief ++ " is before min time " ++ minTime.brief
  | ownPreviousLap => "previous-lap split references itself"
  | previousLapElsewhere previous =>
    "previous-lap split " ++ previous.text ++ " belongs to another event"
  | previousLapMissing previous => "previous-lap split " ++ previous.text ++ " does not exist"
  | lapCycle => "previous-lap chain forms a cycle"
  | startCount found => "expected exactly one start split, found " ++ toString found
  | noConcurrency => "must be at least 1"
  | noCeiling => "must be greater than zero"
  | stated text => text

/-- A mistake in the configuration: what it is found in, which one, and why it is
one. -/
structure Misconfiguration where
  subject : Subject
  label : String
  reason : Reason
  deriving DecidableEq, Repr

/-- Why an operation did not succeed. -/
inductive Failure where
  /-- The configuration is refused. -/
  | configuration (mistake : Misconfiguration)
  /-- A document cannot be read. -/
  | parse (context details : String)
  /-- The source of results did not answer a query. -/
  | source (operation cause : String)
  /-- The sink of results did not accept a write. -/
  | sink (operation cause : String)
  /-- An event was to be scored that has no launched wave, or does not exist. -/
  | eventNotFound (label : String)
  deriving DecidableEq, Repr

namespace Failure

/-- The wording of a failure. -/
def message : Failure → String
  | configuration m =>
    "Invalid " ++ m.subject.name ++ " configuration (" ++ m.label ++ "): " ++ m.reason.text
  | parse context details => "Parse error in " ++ context ++ ": " ++ details
  | source operation _ => "Result source failed during " ++ operation
  | sink operation _ => "Result sink failed during " ++ operation
  | eventNotFound label => "Event " ++ label ++ " is not launched or does not exist"

/-- Whether the same operation may succeed later: so it is when another system failed,
and not when the input is at fault. -/
def isRetryable : Failure → Bool
  | source .. | sink .. => true
  | configuration .. | parse .. | eventNotFound .. => false

/-- What to try. -/
def suggestions : Failure → List String
  | configuration _ =>
    ["Check that every split references a reader of the same race",
      "Check previous-lap links point at splits of the same event",
      "Ensure each event has exactly one start split"]
  | parse .. =>
    ["Check the YAML document structure", "Verify durations are given in seconds",
      "Verify ids are valid UUIDs"]
  | source .. => ["Check connectivity to the results database", "Retry the recomputation"]
  | sink .. =>
    ["Check connectivity to the results database",
      "Retry the recomputation; results are recomputed idempotently"]
  | eventNotFound _ =>
    ["Verify the event id", "Launch at least one wave of the event before scoring it"]

end Failure

end ChipTiming
