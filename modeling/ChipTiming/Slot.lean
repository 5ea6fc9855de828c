/-
The result of one athlete at one split.

A `Slot` exists for every athlete and every split of the event, crossed or not.  A
crossing carries the time of day and two times measured from different starts: the
gun time from the start of the wave, and the net time from the athlete's own
crossing of the start line.  Ranks are kept for each of the two.
-/
import ChipTiming.Athlete

namespace ChipTiming

/-- What a time is measured from: the start of the wave, or the athlete's own
start. -/
inductive TimeBasis where
  | gun | net
  deriving DecidableEq, Repr

/-- When a split was crossed. -/
structure Timing where
  time : Instant
  gunTime : Duration
  netTime : Duration
  deriving DecidableEq, Repr

/-- The time on a basis. -/
def Timing.on (t : Timing) : TimeBasis → Duration
  | .gun => t.gunTime
  | .net => t.netTime

/-- Whether a split was crossed, and how that is known. -/
inductive Passage where
  | notVisited
  /-- Matched from a detection. -/
  | detected (timing : Timing)
  /-- Entered by an operator. -/
  | manual (timing : Timing)
  deriving DecidableEq, Repr

namespace Passage

/-- The timing of a crossing. -/
def timing? : Passage → Option Timing
  | notVisited => none
  | detected t | manual t => some t

/-- Whether the split was crossed. -/
def isVisited (p : Passage) : Bool := p.timing?.isSome

end Passage

/-- Places in the three scopes: everyone, the athlete's gender, the athlete's
category.  No place exceeds the number of slots that are ranked
(`Standings.place_le_length`), so for fewer than 2^32 slots these are the numbers that
32 bits give. -/
structure Ranks where
  overall : Option Nat
  gender : Option Nat
  category : Option Nat
  deriving DecidableEq, Repr

/-- No place in any scope. -/
def Ranks.none : Ranks := ⟨.none, .none, .none⟩

/-- The result of an athlete at a split. -/
structure Slot where
  athlete : AthleteId
  split : SplitId
  event : EventId
  category : Option CategoryId
  gender : Gender
  passage : Passage
  gunRanks : Ranks
  netRanks : Ranks
  deriving DecidableEq, Repr

namespace Slot

/-- The slot of an athlete who has not crossed the split. -/
def vacant (trace : Trace) (split : Split) : Slot where
  athlete := trace.athlete
  split := split.id
  event := split.event
  category := trace.category
  gender := trace.gender
  passage := .notVisited
  gunRanks := .none
  netRanks := .none

/-- Whether the split was crossed. -/
def isVisited (s : Slot) : Bool := s.passage.isVisited

/-- The time on a basis, if the split was crossed. -/
def time? (s : Slot) (basis : TimeBasis) : Option Duration :=
  s.passage.timing?.map (·.on basis)

/-- The ranks on a basis. -/
def ranks (s : Slot) : TimeBasis → Ranks
  | .gun => s.gunRanks
  | .net => s.netRanks

/-- The slot with other ranks on a basis. -/
def setRanks (s : Slot) (basis : TimeBasis) (ranks : Ranks) : Slot :=
  match basis with
  | .gun => { s with gunRanks := ranks }
  | .net => { s with netRanks := ranks }

/-- What a slot is stored under. -/
def key (s : Slot) : AthleteId × SplitId := (s.athlete, s.split)

@[simp] theorem key_setRanks (s : Slot) (basis : TimeBasis) (r : Ranks) :
    (s.setRanks basis r).key = s.key := by cases basis <;> rfl

@[simp] theorem split_setRanks (s : Slot) (basis : TimeBasis) (r : Ranks) :
    (s.setRanks basis r).split = s.split := by cases basis <;> rfl

@[simp] theorem isVisited_setRanks (s : Slot) (basis : TimeBasis) (r : Ranks) :
    (s.setRanks basis r).isVisited = s.isVisited := by cases basis <;> rfl

@[simp] theorem setRanks_setRanks (s : Slot) (basis : TimeBasis) (r r' : Ranks) :
    (s.setRanks basis r).setRanks basis r' = s.setRanks basis r' := by cases basis <;> rfl

@[simp] theorem isSome_time? (s : Slot) (basis : TimeBasis) :
    (s.time? basis).isSome = s.isVisited := by simp [time?, isVisited, Passage.isVisited]

end Slot

end ChipTiming
