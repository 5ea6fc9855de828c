/-
Points on the time line, leap seconds included.

An `Instant` counts whole seconds from 1970-01-01T00:00:00Z, as if every day had
86400 of them, and nanoseconds within its second.  A fraction of a second or more
means that the instant lies inside a leap second: the one that follows the second
counted, and that lasts as long as the fraction stays below two seconds.  The
order is that of the pair, so a leap second comes after all of the second it
follows and before the next one.

Only the two operations that the rest of the library needs are defined: moving
forward by a duration, which stops at the last instant there is, and the time from
one instant to a later one.
-/
import ChipTiming.Calendar
import ChipTiming.Duration

namespace ChipTiming

/-- Seconds in a day. -/
def secondsPerDay : Int := 86400

/-- The second that opens the first day of the calendar. -/
def firstSecond : Int := -8334601228800

/-- The second that closes the last day of the calendar. -/
def lastSecond : Int := 8210266876799

example : firstSecond = dayNumber firstYear 1 1 * secondsPerDay := by decide
example : lastSecond = dayNumber lastYear 12 31 * secondsPerDay + 86399 := by decide

/-- A point in time. -/
structure Instant where
  /-- Whole seconds since 1970-01-01T00:00:00Z. -/
  second : Int
  /-- Nanoseconds within the second; one second or more inside a leap second. -/
  fraction : Nat
  second_mem : firstSecond ≤ second ∧ second ≤ lastSecond
  fraction_lt : fraction < 2 * nanosPerSecond
  deriving DecidableEq, Repr

namespace Instant

instance : Ord Instant :=
  ⟨fun a b => (compare a.second b.second).then (compare a.fraction b.fraction)⟩

instance : LE Instant :=
  ⟨fun a b => a.second < b.second ∨ (a.second = b.second ∧ a.fraction ≤ b.fraction)⟩

instance : DecidableLE Instant := fun a b =>
  inferInstanceAs
    (Decidable (a.second < b.second ∨ (a.second = b.second ∧ a.fraction ≤ b.fraction)))

theorem le_def {a b : Instant} :
    a ≤ b ↔ a.second < b.second ∨ (a.second = b.second ∧ a.fraction ≤ b.fraction) := Iff.rfl

/-- The instant with this second and fraction, if it lies in the range of the
calendar. -/
def of? (second : Int) (fraction : Nat) : Option Instant :=
  if h : (firstSecond ≤ second ∧ second ≤ lastSecond) ∧ fraction < 2 * nanosPerSecond then
    some ⟨second, fraction, h.1, h.2⟩
  else none

/-- The last instant that moving forward can reach. -/
def last : Instant := ⟨lastSecond, 999999999, by decide, by decide⟩

/-- Whether the instant lies inside a leap second. -/
def inLeapSecond (t : Instant) : Bool := nanosPerSecond ≤ t.fraction

/-! ### Moving forward -/

/-- The instant a duration later, or the last instant if that lies beyond it.

From inside a leap second the move stays inside while it fits; otherwise it goes on as if
from the second that the leap second follows, with the leap second used up. -/
def plus (t : Instant) (d : Duration) : Instant :=
  if h : t.inLeapSecond ∧ d.seconds = 0 ∧ t.fraction + d.subsecond < 2 * nanosPerSecond then
    ⟨t.second, t.fraction + d.subsecond, t.second_mem, h.2.2⟩
  else
    let nanos := t.fraction % nanosPerSecond + d.nanos
    let second := t.second + (nanos / nanosPerSecond : Nat)
    if hs : second ≤ lastSecond then
      ⟨second, nanos % nanosPerSecond,
        ⟨Int.le_trans t.second_mem.1 (Int.le_add_of_nonneg_right (Int.natCast_nonneg _)), hs⟩,
        Nat.lt_of_lt_of_le (Nat.mod_lt _ (by decide)) (by decide)⟩
    else last

/-! ### The time between two instants -/

/-- The second of the day. -/
def secondOfDay (t : Instant) : Int := t.second % secondsPerDay

/-- The second that a leap second at one end adds.  It is told from the times of day
alone: one more when the earlier time of day lies inside a leap second and the other
in a later second, one less the other way round. -/
def leapBetween (start finish : Instant) : Int :=
  if start.secondOfDay < finish.secondOfDay then (if start.inLeapSecond then 1 else 0)
  else if finish.secondOfDay < start.secondOfDay then (if finish.inLeapSecond then -1 else 0)
  else 0

/-- Nanoseconds from one instant to another, negative if the other comes first. -/
def nanosUntil (start finish : Instant) : Int :=
  (finish.second - start.second + leapBetween start finish) * nanosPerSecond
    + (finish.fraction - start.fraction)

/-- The time from one instant to another, if the other does not come first. -/
def elapsed (start finish : Instant) : Option Duration :=
  if nanosUntil start finish < 0 then none else some ⟨(nanosUntil start finish).toNat⟩

end Instant

end ChipTiming
