/-
Reading JSON text.

The reader follows the grammar of JSON exactly: no leading zeros, no trailing
commas, no comments, no raw control characters in strings, and no half of a
surrogate pair without the other.  Arrays and objects may be nested, but only so
deep.  Each function takes the text and gives a value with the text that is left.
The functions for values, items and members call one another; each call for a part
gets one unit less of `fuel`, and since every part begins later in the text than
the whole, the length of the text is enough of it.
-/
import ChipTiming.Decimal
import ChipTiming.Json.Basic

namespace ChipTiming.Json

/-- White space between the parts of a text. -/
def isSpace (c : Char) : Bool := c = ' ' || c = '\n' || c = '\t' || c = '\r'

/-- A text without the white space that it opens with. -/
def skipSpaces (cs : List Char) : List Char := cs.dropWhile isSpace

/-! ### Strings -/

/-- The character that a letter after a backslash stands for. -/
def escaped? (c : Char) : Option Char :=
  if c = '\x22' || c = '\x5c' || c = '/' then some c
  else if c = 'b' then some '\x08'
  else if c = 'f' then some '\x0c'
  else if c = 'n' then some '\n'
  else if c = 'r' then some '\r'
  else if c = 't' then some '\t'
  else none

/-- The rest of a string up to its closing quote.  `high` is the first half of a
surrogate pair whose second half must come next, and `done` is what has been read,
last character first. -/
def stringRest? (high : Option Nat) (done : List Char) : List Char → Option (String × List Char)
  | '\x5c' :: 'u' :: a :: b :: c :: d :: cs =>
    match natOfDigits? 16 [a, b, c, d], high with
    | some unit, some first =>
      if 0xDC00 ≤ unit ∧ unit ≤ 0xDFFF then
        stringRest? none
          (Char.ofNat (0x10000 + (first - 0xD800) * 0x400 + (unit - 0xDC00)) :: done) cs
      else none
    | some unit, none =>
      if 0xD800 ≤ unit ∧ unit ≤ 0xDBFF then stringRest? (some unit) done cs
      else if 0xDC00 ≤ unit ∧ unit ≤ 0xDFFF then none
      else stringRest? none (Char.ofNat unit :: done) cs
    | none, _ => none
  | '\x5c' :: c :: cs =>
    match escaped? c with
    | some e => if high.isSome then none else stringRest? none (e :: done) cs
    | none => none
  | c :: cs =>
    if high.isSome then none
    else if c = '\x22' then some (String.ofList done.reverse, cs)
    else if c = '\x5c' || c.toNat < 0x20 then none
    else stringRest? none (c :: done) cs
  | [] => none

/-! ### Numbers -/

/-- Whether digits are a whole part: some, and no zero in front of others. -/
def isWholePart (digits : List Char) : Bool :=
  match digits with
  | [] => false
  | ['0'] => true
  | c :: _ => c != '0'

/-- Whether a point, if the rest of a number opens with one, has a digit after it. -/
def hasPlaces : List Char → Bool
  | '.' :: c :: _ => isDigit c
  | ['.'] => false
  | _ => true

/-- The value of a number's text. -/
def number? (cs : List Char) : Option Json := do
  let unsigned := if cs.head? = some '-' then cs.drop 1 else cs
  let whole := unsigned.takeWhile isDigit
  let rest := unsigned.dropWhile isDigit
  guard (isWholePart whole && hasPlaces rest)
  let decimal ← Decimal.ofChars? cs
  let value : Int := if decimal.negative then -(decimal.digits : Int) else decimal.digits
  if rest.isEmpty && !(decimal.negative && value = 0) && Int64.minValue.toInt ≤ value &&
      value < UInt64.size then
    return integer value
  else
    let double := decimal.toBinary64
    guard double.isFinite
    return real double

/-- The characters that numbers are made of. -/
def isNumeric (c : Char) : Bool :=
  isDigit c || c = '-' || c = '+' || c = '.' || c = 'e' || c = 'E'

/-! ### Values -/

/-- A text without the word that it is expected to open with. -/
def word? (word : String) (value : Json) (cs : List Char) : Option (Json × List Char) :=
  if word.toList.isPrefixOf cs then some (value, cs.drop word.length) else none

mutual

/-- A value in which arrays and objects are nested no deeper than `nesting`. -/
def value? (nesting : Nat) : Nat → List Char → Option (Json × List Char)
  | 0, _ => none
  | fuel + 1, cs =>
    match skipSpaces cs with
    | '\x7b' :: rest =>
      if nesting = 0 then none
      else match skipSpaces rest with
        | '\x7d' :: rest => some (object [], rest)
        | rest => members? (nesting - 1) fuel [] rest
    | '[' :: rest =>
      if nesting = 0 then none
      else match skipSpaces rest with
        | ']' :: rest => some (array [], rest)
        | rest => items? (nesting - 1) fuel [] rest
    | '\x22' :: rest => (stringRest? none [] rest).map fun (s, rest) => (text s, rest)
    | 't' :: rest => word? "rue" (flag true) rest
    | 'f' :: rest => word? "alse" (flag false) rest
    | 'n' :: rest => word? "ull" null rest
    | rest => (number? (rest.takeWhile isNumeric)).map (·, rest.dropWhile isNumeric)

/-- The items of an array, and its closing bracket. -/
def items? (nesting : Nat) : Nat → List Json → List Char → Option (Json × List Char)
  | 0, _, _ => none
  | fuel + 1, done, cs =>
    match value? nesting fuel cs with
    | none => none
    | some (item, rest) =>
      match skipSpaces rest with
      | ',' :: rest => items? nesting fuel (item :: done) rest
      | ']' :: rest => some (array (item :: done).reverse, rest)
      | _ => none

/-- The members of an object, and its closing brace. -/
def members? (nesting : Nat) : Nat → List (String × Json) → List Char → Option (Json × List Char)
  | 0, _, _ => none
  | fuel + 1, done, cs =>
    match skipSpaces cs with
    | '\x22' :: rest =>
      match stringRest? none [] rest with
      | none => none
      | some (name, rest) =>
        match skipSpaces rest with
        | ':' :: rest =>
          match value? nesting fuel rest with
          | none => none
          | some (value, rest) =>
            match skipSpaces rest with
            | ',' :: rest => members? nesting fuel ((name, value) :: done) rest
            | '\x7d' :: rest => some (ofMembers ((name, value) :: done).reverse, rest)
            | _ => none
        | _ => none
    | _ => none

end

/-- How deep arrays and objects may be nested. -/
def maxNesting : Nat := 127

/-- Reads a whole text as one value. -/
def ofText? (s : String) : Option Json :=
  let cs := s.toList
  match value? maxNesting (cs.length + 1) cs with
  | some (value, rest) => if (skipSpaces rest).isEmpty then some value else none
  | none => none

end ChipTiming.Json
