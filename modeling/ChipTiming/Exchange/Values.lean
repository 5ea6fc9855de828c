/-
The values that records are made of: identifiers, times, words.

Every type that documents hold has two functions: `read` takes a part of a
document of any kind for a value of the type, and `toJson` gives the form in which
values are written.

A duration is a number of seconds, read exactly and written as the double that
comes closest.  Words are told apart by case.
-/
import ChipTiming.Exchange.Json
import ChipTiming.Json.Writer
import ChipTiming.Slot
import ChipTiming.Text.Timestamp

namespace ChipTiming

open Exchange

variable {δ : Type} [Readable δ]

/-! ### Identifiers, times and numbers -/

def Id.read {entity : Entity} (d : δ) : Reading (Id entity) := do
  need (Id.ofText? (← Readable.text d))

def Id.toJson {entity : Entity} (id : Id entity) : Json := .text id.text

def Instant.read (d : δ) : Reading Instant := do need (Instant.ofText? (← Readable.text d))

def Instant.toJson (t : Instant) : Json := .text t.text

def Date.read (d : δ) : Reading Date := do need (Date.ofText? (← Readable.text d))

def Date.toJson (d : Date) : Json := .text d.text

def Duration.read (d : δ) : Reading Duration := do
  need (Duration.ofBinary64? (← Readable.number d))

def Duration.toJson (d : Duration) : Json := .double d.toBinary64

/-! ### Words -/

/-- The value that a word stands for, by a table of words. -/
def readWord {α : Type} (words : List (String × α)) (d : δ) : Reading α := do
  need (words.lookup (← Readable.choice d))

namespace SplitKind

/-- The written form. -/
def word : SplitKind → String
  | start => "start"
  | standard => "standard"
  | finish => "finish"

def read (d : δ) : Reading SplitKind :=
  readWord ([start, standard, finish].map fun k => (k.word, k)) d

def toJson (k : SplitKind) : Json := .text k.word

end SplitKind

namespace Gender

/-- The written form. -/
def word : Gender → String
  | male => "male"
  | female => "female"
  | nonBinary => "nonbinary"
  | unspecified => "unspecified"

/-- Besides the written forms, `x` is understood. -/
def read (d : δ) : Reading Gender :=
  readWord
    (([male, female, nonBinary, unspecified].map fun g => (g.word, g)) ++ [("x", nonBinary)]) d

def toJson (g : Gender) : Json := .text g.word

end Gender

namespace Status

/-- The written form. -/
def word : Status → String
  | notYetStarted => "not-yet-started"
  | running => "running"
  | finished => "finished"
  | disqualified => "disqualified"
  | quarantine => "quarantine"
  | preRaceWithdrawal => "pre-race-withdrawal"
  | withdrawnDuringRace => "withdrawn-during-race"

def read (d : δ) : Reading Status := readWord (all.map fun s => (s.word, s)) d

def toJson (s : Status) : Json := .text s.word

end Status

namespace TimeBasis

/-- The written form. -/
def word : TimeBasis → String
  | gun => "gun"
  | net => "net"

def read (d : δ) : Reading TimeBasis := readWord ([gun, net].map fun b => (b.word, b)) d

def toJson (b : TimeBasis) : Json := .text b.word

end TimeBasis

end ChipTiming
