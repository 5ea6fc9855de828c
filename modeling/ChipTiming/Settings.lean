/-
Settings of the scoring engine.
-/
import ChipTiming.Failure
import ChipTiming.Matching

namespace ChipTiming

/-- How results are computed. -/
structure Settings where
  /-- How many events may be computed at the same time; results do not depend on
  it. -/
  concurrency : Nat
  /-- The length of windows without a limit. -/
  ceiling : Duration
  deriving DecidableEq, Repr

namespace Settings

/-- What holds where nothing is set. -/
def standard : Settings := ⟨4, defaultCeiling⟩

/-- Refuses settings under which nothing could be computed. -/
def validate (s : Settings) : Except Misconfiguration Unit :=
  if s.concurrency = 0 then .error ⟨.settings, "MaxConcurrentEvents", .noConcurrency⟩
  else if s.ceiling.isZero then .error ⟨.settings, "OpenWindowCeiling", .noCeiling⟩
  else .ok ()

end Settings

end ChipTiming
