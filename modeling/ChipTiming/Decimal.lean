/-
Decimal numbers as they are written.

A decimal is a sign, its digits read as one whole number, and the power of ten
they are scaled by, so nothing is lost between the text and the rounding to a
double.  The grammar is the wide one: digits may be missing on either side of the
point, but not on both.
-/
import ChipTiming.Binary64

namespace ChipTiming

/-- The value `± digits * 10 ^ exponent`. -/
structure Decimal where
  negative : Bool
  digits : Nat
  exponent : Int
  deriving DecidableEq, Repr

/-- A decimal digit of ASCII; no other digit counts as one anywhere in this
library. -/
def isDigit (c : Char) : Bool := '0' ≤ c && c ≤ '9'

/-- The value of a hexadecimal digit in either case. -/
def hexValue? (c : Char) : Option Nat :=
  if isDigit c then some (c.toNat - '0'.toNat)
  else if 'a' ≤ c && c ≤ 'f' then some (c.toNat - 'a'.toNat + 10)
  else if 'A' ≤ c && c ≤ 'F' then some (c.toNat - 'A'.toNat + 10)
  else none

/-- The whole number that digits of the given base spell, if each of them is a digit
of it. -/
def natOfDigits? (base : Nat) (cs : List Char) : Option Nat :=
  cs.foldlM (fun value c =>
    match hexValue? c with
    | some d => if d < base then some (value * base + d) else none
    | none => none) 0

namespace Decimal

/-- The whole number that decimal digits spell. -/
def valueOf (digits : List Char) : Nat :=
  digits.foldl (fun value c => value * 10 + (c.toNat - '0'.toNat)) 0

/-- A sign, if one is written, and what follows it. -/
def sign : List Char → Bool × List Char
  | '-' :: cs => (true, cs)
  | '+' :: cs => (false, cs)
  | cs => (false, cs)

/-- The scale that a text asks for when all of it is an exponent part, or is empty. -/
def scale? : List Char → Option Int
  | [] => some 0
  | c :: cs =>
    if c = 'e' || c = 'E' then
      let (negative, digits) := sign cs
      if digits.isEmpty || !digits.all isDigit then none
      else if negative then some (-(valueOf digits : Int)) else some (valueOf digits)
    else none

/-- Reads a whole text as a decimal. -/
def ofChars? (cs : List Char) : Option Decimal :=
  let (negative, unsigned) := sign cs
  let whole := unsigned.takeWhile isDigit
  let afterWhole := unsigned.dropWhile isDigit
  let (places, rest) := match afterWhole with
    | '.' :: cs => (cs.takeWhile isDigit, cs.dropWhile isDigit)
    | cs => ([], cs)
  if whole.isEmpty && places.isEmpty then none
  else (scale? rest).map fun e => ⟨negative, valueOf (whole ++ places), e - places.length⟩

/-- The double nearest to the decimal; far outside the range of doubles the powers are
not formed, since the answer is then zero or infinite whatever the digits are. -/
def toBinary64 (d : Decimal) : Binary64 :=
  let order : Int := (Nat.toDigits 10 d.digits).length + d.exponent
  if d.digits = 0 || order < -400 then Binary64.pack d.negative 0
  else if 400 < order then Binary64.infinity d.negative
  else Binary64.ofRatio d.negative (d.digits * Nat.pow 10 d.exponent.toNat)
    (Nat.pow 10 (-d.exponent).toNat)

end Decimal

end ChipTiming
