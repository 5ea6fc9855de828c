/-
Dates and instants as text.

Reading is lenient about form and strict about meaning.  Months, days and times of
day may have one digit, white space may stand in front of each number and each
separator, and the offset from UTC may be spelt several ways; but every field must
be in range, the day must exist, and nothing may follow.  Writing has one form:
UTC, two digits a field, and the shortest of no, three, six or nine places that is
exact.

The grammar is read by small functions from a text to a value and the rest of the
text.
-/
import ChipTiming.Decimal
import ChipTiming.Instant
import ChipTiming.Text.Blank

namespace ChipTiming.Text

/-! ### Pieces of the grammar -/

/-- At least one digit and at most `width` of them, after white space. -/
def number? (width : Nat) (cs : List Char) : Option (Nat × List Char) :=
  let cs := skipBlanks cs
  let digits := (cs.take width).takeWhile isDigit
  if digits.isEmpty then none else some (Decimal.valueOf digits, cs.drop digits.length)

/-- A separator, after white space. -/
def separator? (mark : Char) (cs : List Char) : Option (List Char) :=
  match skipBlanks cs with
  | c :: rest => if c = mark then some rest else none
  | [] => none

/-- A year: four digits at most, or any number of them after a sign. -/
def year? (cs : List Char) : Option (Int × List Char) :=
  let cs := skipBlanks cs
  let signed (cs : List Char) : Option (Nat × List Char) :=
    let digits := cs.takeWhile isDigit
    if digits.isEmpty then none else some (Decimal.valueOf digits, cs.drop digits.length)
  match cs with
  | '-' :: rest => (signed rest).map fun (n, cs) => (-(n : Int), cs)
  | '+' :: rest => (signed rest).map fun (n, cs) => ((n : Int), cs)
  | cs => (number? 4 cs).map fun (n, cs) => ((n : Int), cs)

/-- Year, month and day. -/
def civil? (cs : List Char) : Option (Date × List Char) := do
  let (year, cs) ← year? cs
  let cs ← separator? '-' cs
  let (month, cs) ← number? 2 cs
  let cs ← separator? '-' cs
  let (day, cs) ← number? 2 cs
  let date ← Date.of? year month day
  return (date, cs)

/-- A fraction of a second in nanoseconds; digits beyond the ninth are dropped.
Without a point the fraction is zero. -/
def fraction? : List Char → Option (Nat × List Char)
  | '.' :: cs =>
    let digits := cs.takeWhile isDigit
    let kept := digits.take 9
    if kept.isEmpty then none
    else
      some (Decimal.valueOf (kept ++ List.replicate (9 - kept.length) '0'),
        cs.drop digits.length)
  | cs => some (0, cs)

/-- Hours, minutes and seconds with their fraction, as a second of the day and
nanoseconds.  The sixtieth second is the leap second that follows the fifty-ninth. -/
def clock? (cs : List Char) : Option ((Nat × Nat) × List Char) := do
  let (hour, cs) ← number? 2 cs
  let cs ← separator? ':' cs
  let (minute, cs) ← number? 2 cs
  let cs ← separator? ':' cs
  let (second, cs) ← number? 2 cs
  let (nanos, cs) ← fraction? cs
  guard (hour < 24 && minute < 60 && second ≤ 60)
  let minutes := hour * 60 + minute
  return (if second = 60 then (minutes * 60 + 59, nanos + nanosPerSecond)
    else (minutes * 60 + second, nanos), cs)

/-- Two digits exactly. -/
def twoDigits? : List Char → Option (Nat × List Char)
  | c :: d :: cs =>
    if isDigit c && isDigit d then some (Decimal.valueOf [c, d], cs) else none
  | _ => none

/-- The offset from UTC in seconds: `Z`, `UTC`, or a sign with hours and minutes,
between which any colons and white space may stand. -/
def offset? (cs : List Char) : Option (Int × List Char) :=
  let sized (direction : Int) (cs : List Char) : Option (Int × List Char) := do
    let (hours, cs) ← twoDigits? cs
    let (minutes, cs) ← twoDigits? (cs.dropWhile fun c => c = ':' || isBlank c)
    guard (minutes < 60 && hours < 24)
    return (direction * (hours * 3600 + minutes * 60 : Nat), cs)
  match cs with
  | 'Z' :: cs => some (0, cs)
  | 'z' :: cs => some (0, cs)
  | '+' :: cs => sized 1 cs
  | '-' :: cs => sized (-1) cs
  | '\u2212' :: cs => sized (-1) cs
  | u :: t :: c :: cs =>
    if u.toUpper = 'U' && t.toUpper = 'T' && c.toUpper = 'C' then some (0, cs) else none
  | _ => none

end ChipTiming.Text

namespace ChipTiming

open Text

/-! ### Whole texts -/

namespace Date

/-- Reads a date; white space may follow it. -/
def ofText? (s : String) : Option Date :=
  match civil? s.toList with
  | some (date, rest) => if isBlankText rest then some date else none
  | none => none

/-- A year in four digits at least, with a sign outside 0 to 9999. -/
def yearText (year : Int) : String :=
  if year < 0 then "-" ++ Duration.padded 4 year.natAbs
  else if 9999 < year then "+" ++ Duration.padded 4 year.natAbs
  else Duration.padded 4 year.natAbs

/-- Year, month and day, joined by hyphens. -/
def civilText (year : Int) (month day : Nat) : String :=
  yearText year ++ "-" ++ Duration.padded 2 month ++ "-" ++ Duration.padded 2 day

/-- The written form of a date. -/
def text (d : Date) : String := civilText d.year d.month d.day

end Date

namespace Instant

/-- Reads an instant: a date, one of `T`, `t` and a space, a time of day and an offset
from UTC; white space may follow. -/
def ofText? (s : String) : Option Instant := do
  let (date, cs) ← civil? s.toList
  let cs ← match cs with
    | c :: cs => if c = 'T' || c = 't' || c = ' ' then some cs else none
    | [] => none
  let ((second, nanos), cs) ← clock? cs
  let (offset, rest) ← offset? (skipBlanks cs)
  guard (isBlankText rest)
  of? (date.number * secondsPerDay + second - offset) nanos

/-- A fraction of a second, with the places that it takes. -/
def fractionText (nanos : Nat) : String :=
  if nanos = 0 then ""
  else if nanos % 1000000 = 0 then "." ++ Duration.padded 3 (nanos / 1000000)
  else if nanos % 1000 = 0 then "." ++ Duration.padded 6 (nanos / 1000)
  else "." ++ Duration.padded 9 nanos

/-- The written form of an instant; a leap second is the sixtieth of its minute. -/
def text (t : Instant) : String :=
  let (year, month, day) := civilOfDay (t.second / secondsPerDay)
  let secondOfDay := t.secondOfDay.toNat
  let second := secondOfDay % 60 + if t.inLeapSecond then 1 else 0
  Date.civilText year month day ++ "T" ++ Duration.padded 2 (secondOfDay / 3600) ++ ":"
    ++ Duration.padded 2 (secondOfDay / 60 % 60) ++ ":" ++ Duration.padded 2 second
    ++ fractionText (t.fraction % nanosPerSecond) ++ "Z"

end Instant

end ChipTiming
