/-
Double-precision numbers as exact data.

Distances, and times given in seconds, are kept as the double nearest to the
decimal that was written.  A `Binary64` is the 64-bit word of such a number and
nothing else: reading it, ordering it and rounding to it are integer arithmetic on
the word, so every result here is the exact one and can be reasoned about.

`ofRatio` is the one place where rounding happens.  A quotient is scaled so that
its whole part has at most 53 binary digits, rounded to the nearest whole number
with halves going to the even neighbour, and packed.  Because the fraction field
is added to the shifted exponent field, a significand that rounds up to `2 ^ 53`
carries into the exponent by itself.
-/
namespace ChipTiming

/-- The word of a double-precision number: sign, eleven exponent bits, fifty-two
fraction bits. -/
structure Binary64 where
  bits : UInt64
  deriving DecidableEq, Repr

/-- `num / den` to the nearest whole number, a half going to the even neighbour. -/
def roundDiv (num den : Nat) : Nat :=
  let quotient := num / den
  let twice := 2 * (num % den)
  if den < twice || (twice == den && quotient % 2 == 1) then quotient + 1 else quotient

namespace Binary64

/-! ### The fields of a word

Their sizes are the powers 52, 11 and 63 of two. -/

/-- How many values the fraction field has. -/
def fractionSize : Nat := 0x10000000000000

/-- How many values the exponent field has. -/
def exponentSize : Nat := 0x800

/-- How many values both fields have together, which is the weight of the sign bit. -/
def magnitudeSize : Nat := 0x8000000000000000

example : magnitudeSize = exponentSize * fractionSize := by decide

/-- The sign bit, which a zero carries too. -/
def isNegative (x : Binary64) : Bool :=
  magnitudeSize ≤ x.bits.toNat

/-- The exponent field. -/
def exponentField (x : Binary64) : Nat :=
  x.bits.toNat / fractionSize % exponentSize

/-- The fraction field. -/
def fractionField (x : Binary64) : Nat :=
  x.bits.toNat % fractionSize

/-- Neither an infinity nor a NaN. -/
def isFinite (x : Binary64) : Bool :=
  x.exponentField != exponentSize - 1

/-- The whole number `m` for which a finite magnitude is `m * 2 ^ power`. -/
def significand (x : Binary64) : Nat :=
  if x.exponentField = 0 then x.fractionField else fractionSize + x.fractionField

/-- The power of two that goes with `significand`. -/
def power (x : Binary64) : Int :=
  (max x.exponentField 1 : Nat) - 1075

/-- Either of the two zeros. -/
def isZero (x : Binary64) : Bool :=
  x.exponentField == 0 && x.fractionField == 0

/-! ### The total order

Words are ordered as `-NaN < -∞ < … < -0 < +0 < … < +∞ < +NaN`: non-negative words by themselves,
negative words below them, from the greatest to the least. -/

/-- The place of a word in the total order. -/
def rank (x : Binary64) : Int :=
  if x.isNegative then (magnitudeSize : Int) - 1 - x.bits.toNat else x.bits.toNat

instance : LE Binary64 := ⟨fun x y => x.rank ≤ y.rank⟩

instance : DecidableLE Binary64 := fun x y => inferInstanceAs (Decidable (x.rank ≤ y.rank))

/-! ### Rounding to a double -/

/-- The lower bits of infinity. -/
def infiniteMagnitude : Nat := (exponentSize - 1) * fractionSize

/-- The word with this sign and these lower bits; whatever exceeds the finite range is
infinite. -/
def pack (negative : Bool) (magnitude : Nat) : Binary64 :=
  let sign := if negative then magnitudeSize else 0
  ⟨UInt64.ofNat (sign + min magnitude infiniteMagnitude)⟩

/-- Zero, positive. -/
def zero : Binary64 := pack false 0

/-- Infinity, positive or negative. -/
def infinity (negative : Bool) : Binary64 := pack negative infiniteMagnitude

/-- A positive quotient lies in `[2 ^ e, 2 ^ (e + 1))` for this `e`.  Here and below a
number times a power of two is the number shifted to the left. -/
def exponentOf (num den : Nat) : Int :=
  let estimate : Int := (num.log2 : Int) - den.log2
  if den <<< estimate.toNat ≤ num <<< (-estimate).toNat then estimate else estimate - 1

/-- The double nearest to `num / den`, a half going to the even significand. -/
def ofRatio (negative : Bool) (num den : Nat) : Binary64 :=
  if num = 0 then pack negative 0
  else
    let scale := max (exponentOf num den - 52) (-1074)
    let whole := roundDiv (num <<< (-scale).toNat) (den <<< scale.toNat)
    pack negative ((scale + 1074).toNat * fractionSize + whole)

/-- The double nearest to a whole number. -/
def ofNat (n : Nat) : Binary64 := ofRatio false n 1

/-- The double nearest to the sum of two non-negative finite doubles. -/
def addMagnitudes (x y : Binary64) : Binary64 :=
  let base := min x.power y.power
  let part (z : Binary64) := z.significand <<< (z.power - base).toNat
  ofRatio false ((part x + part y) <<< base.toNat) (1 <<< (-base).toNat)

/-- A finite magnitude times `factor`, rounded to the nearest whole number. -/
def roundTimes (x : Binary64) (factor : Nat) : Nat :=
  roundDiv ((x.significand * factor) <<< x.power.toNat) (1 <<< (-x.power).toNat)

/-- A finite magnitude reaches the whole number `bound`. -/
def reaches (x : Binary64) (bound : Nat) : Bool :=
  bound <<< (-x.power).toNat ≤ x.significand <<< x.power.toNat

/-! ### The written word -/

/-- The word in sixteen hexadecimal digits. -/
def hex (x : Binary64) : String :=
  let digits := Nat.toDigits 16 x.bits.toNat
  String.ofList (List.replicate (16 - digits.length) '0' ++ digits)

end Binary64

end ChipTiming
