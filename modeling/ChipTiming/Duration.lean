/-
Lengths of time, to the nanosecond.

A `Duration` is a count of nanoseconds and never negative.  Documents give it in
seconds as a double; the conversion starts from the exact value of that double and
rounds once, so the same number of seconds means the same duration whichever way
it was written.
-/
import ChipTiming.Binary64

namespace ChipTiming

/-- A length of time in nanoseconds. -/
structure Duration where
  nanos : Nat
  deriving DecidableEq, Repr

/-- A second, in nanoseconds. -/
def nanosPerSecond : Nat := 1000000000

namespace Duration

instance : LE Duration := ⟨fun a b => a.nanos ≤ b.nanos⟩
instance : LT Duration := ⟨fun a b => a.nanos < b.nanos⟩
instance : DecidableLE Duration := fun a b => inferInstanceAs (Decidable (a.nanos ≤ b.nanos))
instance : DecidableLT Duration := fun a b => inferInstanceAs (Decidable (a.nanos < b.nanos))

theorem le_def {a b : Duration} : a ≤ b ↔ a.nanos ≤ b.nanos := Iff.rfl
theorem lt_def {a b : Duration} : a < b ↔ a.nanos < b.nanos := Iff.rfl

/-- No time at all. -/
def zero : Duration := ⟨0⟩

/-- A whole number of seconds. -/
def ofSeconds (n : Nat) : Duration := ⟨n * nanosPerSecond⟩

/-- Whether no time passes. -/
def isZero (d : Duration) : Bool := d.nanos == 0

theorem isZero_iff {d : Duration} : d.isZero = true ↔ d = zero := by
  cases d
  simp [isZero, zero]

/-- The whole seconds. -/
def seconds (d : Duration) : Nat := d.nanos / nanosPerSecond

/-- The nanoseconds beyond the whole seconds. -/
def subsecond (d : Duration) : Nat := d.nanos % nanosPerSecond

/-! ### Seconds as a double -/

/-- The duration nearest to a number of seconds, exact ties going to the even
nanosecond.  There is none for a negative number, for one of `2 ^ 64` or more, or for
one that is not finite; negative zero is zero. -/
def ofBinary64? (x : Binary64) : Option Duration :=
  if !x.isFinite then none
  else if x.isZero then some zero
  else if x.isNegative || x.reaches UInt64.size then none
  else some ⟨x.roundTimes nanosPerSecond⟩

/-- The number of seconds as a double: the whole seconds and the rest are rounded
separately and then added. -/
def toBinary64 (d : Duration) : Binary64 :=
  (Binary64.ofNat d.seconds).addMagnitudes (Binary64.ofRatio false d.subsecond nanosPerSecond)

/-! ### Written forms -/

/-- `n` in decimal, with leading zeros up to `width` digits. -/
def padded (width n : Nat) : String :=
  let digits := Nat.toDigits 10 n
  String.ofList (List.replicate (width - digits.length) '0' ++ digits)

/-- Seconds with nine places. -/
def text (d : Duration) : String :=
  toString d.seconds ++ "." ++ padded 9 d.subsecond

/-- `count / 10 ^ places` without trailing zeros, followed by its unit. -/
def inUnit (count places : Nat) (mark : String) : String :=
  let digits := (padded (places + 1) count).toList
  let whole := digits.take (digits.length - places)
  let fraction := ((digits.drop whole.length).reverse.dropWhile (· = '0')).reverse
  String.ofList (if fraction.isEmpty then whole else whole ++ '.' :: fraction) ++ mark

/-- The short form used in messages: the largest of `s`, `ms`, `µs` and `ns` that the
duration reaches, and as many places as it takes. -/
def brief (d : Duration) : String :=
  if nanosPerSecond ≤ d.nanos then inUnit d.nanos 9 "s"
  else if 1000000 ≤ d.nanos then inUnit d.nanos 6 "ms"
  else if 1000 ≤ d.nanos then inUnit d.nanos 3 "µs"
  else inUnit d.nanos 0 "ns"

end Duration

end ChipTiming
