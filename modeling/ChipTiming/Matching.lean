/-
Matching: from the reads of one athlete's chip to crossings of the splits.

Detections are taken in the order of time, and each is offered to the splits in
the order of the course, because one mat may serve several of them: the start
line, every lap, the finish.  A split accepts a detection if

* it is read by the detection's reader, inside the split's window;
* the split before it in a chain of laps has been crossed, at least the lap's minimum
  time earlier;
* it has not been crossed yet, or it is a start: of a start the last crossing counts,
  of every other split the first.

The crossing of a finish ends the race, and nothing is accepted after it.
`Progress` is what has been found so far; the status in it is `finished` exactly
from that moment on, which is how `offer` knows.
-/
import ChipTiming.Slot

namespace ChipTiming

/-- The window length used for splits without a limit, unless another is chosen: ten
days. -/
def defaultCeiling : Duration := .ofSeconds 864000

/-- The slots of one athlete, one for each split, and the status they amount to. -/
structure Outcome where
  slots : List Slot
  status : Status
  deriving DecidableEq, Repr

namespace Matching

/-- What has been found in the detections so far. -/
structure Progress where
  /-- One for each split, in the order of the course. -/
  passages : List Passage
  /-- Crossings with the latest first. -/
  crossings : List (SplitId × Instant)
  status : Status
  deriving DecidableEq, Repr

/-- Nothing found yet on a course of so many splits. -/
def Progress.initial (count : Nat) : Progress :=
  ⟨List.replicate count .notVisited, [], .notYetStarted⟩

/-- The time of the latest crossing of a split. -/
def Progress.crossing? (p : Progress) (split : SplitId) : Option Instant :=
  p.crossings.lookup split

/-- What stays the same while the detections are taken one by one. -/
structure Setting where
  ceiling : Duration
  waveStart : Instant
  /-- The place of the start among the splits. -/
  startPlace : Option Nat
  deriving DecidableEq, Repr

/-- Whether the lap that a split closes has been opened, and for long enough. -/
def lapIsOpen (p : Progress) (split : Split) (d : Detection) : Bool :=
  match split.previousLap with
  | none => true
  | some previous =>
    match (p.crossing? previous).bind (·.elapsed d.time) with
    | some lap => split.minLapTime ≤ lap
    | none => false

/-- Whether a split may take a detection, whatever its own slot holds. -/
def isEligible (s : Setting) (p : Progress) (split : Split) (d : Detection) : Bool :=
  split.reader == d.reader && (split.window s.waveStart s.ceiling).contains d.time
    && lapIsOpen p split d

/-- Whether the split at a place would keep a further crossing. -/
def isOpen (p : Progress) (place : Nat) (split : Split) : Bool :=
  split.isStart || !(p.passages[place]?.any Passage.isVisited)

/-- The timing of a crossing.  The net time runs from the athlete's crossing of the
start; it is zero at a start, and the gun time while the start has not been
crossed. -/
def timing (s : Setting) (p : Progress) (split : Split) (d : Detection) : Timing :=
  let gunTime := (s.waveStart.elapsed d.time).getD .zero
  let netTime :=
    if split.isStart then .zero
    else match s.startPlace.bind fun place => p.passages[place]?.bind Passage.timing? with
      | some start => (start.time.elapsed d.time).getD .zero
      | none => gunTime
  ⟨d.time, gunTime, netTime⟩

/-- Offers a detection to the split at a place. -/
def offer (s : Setting) (d : Detection) (p : Progress) (entry : Split × Nat) : Progress :=
  let (split, place) := entry
  if p.status == .finished then p
  else if isEligible s p split d && isOpen p place split then
    { passages := p.passages.set place (.detected (timing s p split d))
      crossings := (split.id, d.time) :: p.crossings
      status := if split.isFinish then .finished else .running }
  else p

/-- Offers a detection to every split. -/
def offerAll (s : Setting) (splits : List Split) (p : Progress) (d : Detection) : Progress :=
  splits.zipIdx.foldl (offer s d) p

/-- What all the detections of a trace amount to. -/
def walk (s : Setting) (splits : List Split) (detections : List Detection) : Progress :=
  (inTimeOrder detections).foldl (offerAll s splits) (.initial splits.length)

end Matching

open Matching

/-- Matches a trace against the splits of an event, given in the order of the course.
`start` is the split that net times run from; it counts only if it is among the
splits. -/
def matchTrace (ceiling : Duration) (trace : Trace) (splits : List Split) (start : Option Split) :
    Outcome :=
  let setting : Setting :=
    { ceiling
      waveStart := trace.waveStart
      startPlace := start.bind fun s => splits.findIdx? (·.id == s.id) }
  let progress := walk setting splits trace.detections
  { slots := List.zipWith (fun split passage => { Slot.vacant trace split with passage }) splits
      progress.passages
    status := progress.status }

end ChipTiming
