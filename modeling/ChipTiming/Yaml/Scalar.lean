/-
What plain scalars mean.

A scalar has no type of its own: the reader of a document says what it expects,
and the text is read as that.  Only a plain scalar can be anything but a text,
except that a literal block with the right tag can too.
-/
import ChipTiming.Decimal
import ChipTiming.Yaml.Token.Basic

namespace ChipTiming.Yaml

/-- The tag of a basic type. -/
def basicTag (name : String) : TagText := TagText.ofString ("tag:yaml.org,2002:" ++ name)

/-- Whether a text is one of the spellings of null. -/
def isNull (text : List Char) : Bool :=
  ["null", "Null", "NULL", "~"].contains (String.ofList text)

/-- The truth value that a text spells. -/
def flagOf? (text : List Char) : Option Bool :=
  if ["true", "True", "TRUE"].contains (String.ofList text) then some true
  else if ["false", "False", "FALSE"].contains (String.ofList text) then some false
  else none

/-- A text without the plus sign that it may open with. -/
def unplussed : List Char → List Char
  | '+' :: cs => cs
  | cs => cs

/-- Whether a text opens with a sign. -/
def opensWithSign (cs : List Char) : Bool := cs.head?.any fun c => c = '+' || c = '-'

/-- Digits after a zero that is not a digit of the number; such a text is no
integer. -/
def hasLeadingZero (cs : List Char) : Bool := 1 < cs.length && cs.head? = some '0' && cs.all isDigit

/-- A number in a given base that is small enough for 64 bits. -/
def naturalInBase? (base : Nat) (digits : List Char) : Option Nat :=
  if digits.isEmpty then none
  else (natOfDigits? base digits).filter (· < UInt64.size)

/-- The natural number that a text spells: decimal, or hexadecimal, octal or binary
after `0x`, `0o` or `0b`. -/
def naturalOf? (text : List Char) : Option Nat :=
  let cs := unplussed text
  match cs with
  | '0' :: 'x' :: digits => naturalInBase? 16 digits
  | '0' :: 'o' :: digits => naturalInBase? 8 digits
  | '0' :: 'b' :: digits => naturalInBase? 2 digits
  | _ => if opensWithSign cs || hasLeadingZero cs then none else naturalInBase? 10 cs

/-- The NaN that stands for all of them. -/
def nan : Binary64 := ⟨0x7ff8000000000000⟩

/-- The double that a text spells; a decimal must not exceed the range of doubles. -/
def numberOf? (text : List Char) : Option Binary64 :=
  let cs := unplussed text
  if text.head? = some '+' && opensWithSign cs then none
  else if [".inf", ".Inf", ".INF"].contains (String.ofList cs) then some (.infinity false)
  else if ["-.inf", "-.Inf", "-.INF"].contains (String.ofList text) then some (.infinity true)
  else if [".nan", ".NaN", ".NAN"].contains (String.ofList text) then some nan
  else ((Decimal.ofChars? cs).map Decimal.toBinary64).filter (·.isFinite)

end ChipTiming.Yaml
