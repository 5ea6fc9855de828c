/-
The status of an athlete, and which changes of it scoring may make.

Scoring only ever proposes that an athlete has not started, is running or has
finished.  The other four statuses are set by officials; the table below has no
way out of them to any of those three, so scoring never undoes a decision of
theirs.
-/
namespace ChipTiming

/-- Where an athlete stands in the race. -/
inductive Status where
  | notYetStarted | running | finished
  | disqualified | quarantine | preRaceWithdrawal | withdrawnDuringRace
  deriving DecidableEq, Repr

namespace Status

/-- Every status once. -/
def all : List Status :=
  [notYetStarted, running, finished, disqualified, quarantine, preRaceWithdrawal,
    withdrawnDuringRace]

/-- Whether the status is set, and left, by officials only. -/
def isAdministrative : Status → Bool
  | disqualified | quarantine | preRaceWithdrawal | withdrawnDuringRace => true
  | notYetStarted | running | finished => false

/-- The changes that are allowed, besides none at all. -/
def transitions : List (Status × Status) :=
  [(notYetStarted, running), (notYetStarted, finished), (notYetStarted, disqualified),
    (notYetStarted, quarantine), (notYetStarted, preRaceWithdrawal),
    (running, finished), (running, disqualified), (running, quarantine),
    (running, withdrawnDuringRace),
    (finished, disqualified), (finished, quarantine),
    (quarantine, disqualified),
    (preRaceWithdrawal, disqualified),
    (withdrawnDuringRace, disqualified), (withdrawnDuringRace, quarantine)]

/-- Whether one status may replace another. -/
def canBecome (current next : Status) : Bool :=
  current == next || transitions.contains (current, next)

end Status

end ChipTiming
