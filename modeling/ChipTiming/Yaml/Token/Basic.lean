/-
Tokens: what a YAML text consists of once blanks, comments and line structure are
gone.

The tokens that open and close block collections have no text of their own; they
stand for changes of indentation.  The end of the text is the end of the list of
tokens.
-/
namespace ChipTiming.Yaml

/-- How a scalar is written. -/
inductive Style where
  | plain | singleQuoted | doubleQuoted | literal | folded
  deriving DecidableEq, Repr

/-- A tag or a part of one, in UTF-8.  It is kept as bytes because escapes in it need
not form characters. -/
abbrev TagText := List UInt8

/-- The bytes of a text. -/
def TagText.ofChars (cs : List Char) : TagText := cs.flatMap String.utf8EncodeChar

/-- The bytes of a text. -/
def TagText.ofString (s : String) : TagText := TagText.ofChars s.toList

/-- A token. -/
inductive Token where
  | versionDirective (major minor : Nat)
  | tagDirective (handle stem : TagText)
  | documentStart
  | documentEnd
  | blockSequenceStart
  | blockMappingStart
  | blockEnd
  | flowSequenceStart
  | flowSequenceEnd
  | flowMappingStart
  | flowMappingEnd
  | blockEntry
  | flowEntry
  | key
  | value
  | alias (name : List Char)
  | anchor (name : List Char)
  | tag (handle suffix : TagText)
  | scalar (style : Style) (text : List Char)
  deriving DecidableEq, Repr

end ChipTiming.Yaml
