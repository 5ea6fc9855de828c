/-
What a race consists of: events, categories, readers, splits and waves.

A split is a checkpoint of an event.  It is read by one time reader, and it
accepts a detection only inside its window, which is measured from the start of
the athlete's wave.  An upper end of zero stands for a window without an upper
end; a ceiling chosen by the caller takes its place, so that a stray read weeks
later is still refused.
-/
import ChipTiming.Id
import ChipTiming.Instant

namespace ChipTiming

/-- A race, the scope of all other configuration. -/
structure Race where
  id : RaceId
  name : String
  timezone : String
  deriving DecidableEq, Repr

/-- An event run as part of a race. -/
structure Event where
  id : EventId
  race : RaceId
  name : String
  /-- Length of the course in metres. -/
  distance : Binary64
  date : Date
  deriving DecidableEq, Repr

/-- A category of athletes within an event. -/
structure Category where
  id : CategoryId
  event : EventId
  name : String
  deriving DecidableEq, Repr

/-- A mat or antenna that detects chips. -/
structure TimeReader where
  id : TimeReaderId
  race : RaceId
  name : String
  deriving DecidableEq, Repr

/-- The role of a split on the course. -/
inductive SplitKind where
  | start | standard | finish
  deriving DecidableEq, Repr

/-- A checkpoint of an event. -/
structure Split where
  id : SplitId
  event : EventId
  name : String
  kind : SplitKind
  /-- Metres from the start line. -/
  distance : Binary64
  reader : TimeReaderId
  /-- Earliest valid detection after the wave start. -/
  minTime : Duration
  /-- Latest valid detection after the wave start; zero for no limit. -/
  maxTime : Duration
  /-- Least time since the crossing of the previous lap's split. -/
  minLapTime : Duration
  previousLap : Option SplitId
  deriving DecidableEq, Repr

/-- Athletes who share a starting time. -/
structure Wave where
  id : WaveId
  event : EventId
  name : String
  startTime : Instant
  isLaunched : Bool
  deriving DecidableEq, Repr

/-- A stretch of time, both ends included. -/
structure Window where
  earliest : Instant
  latest : Instant
  deriving DecidableEq, Repr

/-- Whether an instant lies in the window. -/
def Window.contains (w : Window) (t : Instant) : Bool :=
  w.earliest ≤ t && t ≤ w.latest

namespace Split

/-- Whether the split is its event's start. -/
def isStart (s : Split) : Bool := s.kind == .start

/-- Whether the split ends the race. -/
def isFinish (s : Split) : Bool := s.kind == .finish

/-- The upper end of the window after the wave start, with the ceiling in place of no
limit. -/
def latestAfterStart (s : Split) (ceiling : Duration) : Duration :=
  if s.maxTime.isZero then ceiling else s.maxTime

/-- The window in which the split accepts detections of a wave. -/
def window (s : Split) (waveStart : Instant) (ceiling : Duration) : Window :=
  ⟨waveStart.plus s.minTime, waveStart.plus (s.latestAfterStart ceiling)⟩

end Split

/-! ### Order along the course -/

/-- Splits by distance from the start, those at one distance in the order given. -/
def courseOrder (splits : List Split) : List Split :=
  splits.mergeSort fun a b => a.distance ≤ b.distance

end ChipTiming
