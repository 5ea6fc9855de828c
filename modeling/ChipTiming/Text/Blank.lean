/-
White space.

The class is the Unicode property `White_Space`: twenty-five code points, of which
ASCII has six.  It decides what may surround the parts of a date and whether a
document holds anything at all.
-/
namespace ChipTiming.Text

/-- The ranges of the property, first and last code point of each. -/
def blankRanges : List (Nat × Nat) :=
  [(0x09, 0x0D), (0x20, 0x20), (0x85, 0x85), (0xA0, 0xA0), (0x1680, 0x1680), (0x2000, 0x200A),
    (0x2028, 0x2029), (0x202F, 0x202F), (0x205F, 0x205F), (0x3000, 0x3000)]

/-- Whether a character is white space. -/
def isBlank (c : Char) : Bool :=
  blankRanges.any fun (first, last) => first ≤ c.toNat && c.toNat ≤ last

/-- A text without the white space it opens with. -/
def skipBlanks (cs : List Char) : List Char := cs.dropWhile isBlank

/-- The text is empty or white space throughout. -/
def isBlankText (cs : List Char) : Bool := cs.all isBlank

example : isBlank ' ' ∧ isBlank '\t' ∧ ¬ isBlank 'a' ∧ ¬ isBlank '\u200b' := by decide

end ChipTiming.Text
