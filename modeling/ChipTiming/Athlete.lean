/-
Athletes and the reads of their chips.

A reader reports every chip that passes it.  What matching needs of one athlete is
gathered in a `Trace`: who the athlete is, when the wave started, and the usable
reads of the athlete's chip in the order of time.
-/
import ChipTiming.Course
import ChipTiming.Status

namespace ChipTiming

/-- The gender an athlete is ranked under. -/
inductive Gender where
  | male | female | nonBinary | unspecified
  deriving DecidableEq, Repr

/-- A registered participant. -/
structure Athlete where
  id : AthleteId
  race : RaceId
  event : EventId
  wave : WaveId
  bib : String
  chip : String
  gender : Gender
  category : Option CategoryId
  status : Status
  deriving DecidableEq, Repr

/-- A chip seen by a reader. -/
structure ChipRead where
  chip : String
  time : Instant
  reader : TimeReaderId
  /-- False if the read was found invalid or a duplicate. -/
  isUsable : Bool
  deriving DecidableEq, Repr

/-- A usable read of a known athlete's chip. -/
structure Detection where
  reader : TimeReaderId
  time : Instant
  deriving DecidableEq, Repr

/-- What matching knows about one athlete. -/
structure Trace where
  athlete : AthleteId
  bib : String
  chip : String
  gender : Gender
  category : Option CategoryId
  waveStart : Instant
  /-- The status on record. -/
  status : Status
  detections : List Detection
  deriving DecidableEq, Repr

/-- A read without its chip. -/
def ChipRead.detection (r : ChipRead) : Detection := ⟨r.reader, r.time⟩

/-- Detections in the order of time, simultaneous ones in the order given. -/
def inTimeOrder (detections : List Detection) : List Detection :=
  detections.mergeSort fun a b => a.time ≤ b.time

/-- The trace of an athlete whose wave started at `waveStart`: the usable reads of the
athlete's chip, in the order of time. -/
def Athlete.trace (a : Athlete) (waveStart : Instant) (reads : List ChipRead) : Trace where
  athlete := a.id
  bib := a.bib
  chip := a.chip
  gender := a.gender
  category := a.category
  waveStart
  status := a.status
  detections :=
    inTimeOrder ((reads.filter fun r => r.isUsable && r.chip == a.chip).map ChipRead.detection)

end ChipTiming
