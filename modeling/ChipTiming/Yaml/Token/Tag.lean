/-
Directives, anchors and tags.

A tag is a handle and a suffix: `!handle!suffix`, `!suffix` with the handle `!`,
or, between angle brackets, a suffix with an empty handle.  A lone `!` is a suffix
with an empty handle too.  Escapes of the form `%41` stand for bytes; together
they must have the shape of UTF-8, and nothing more is asked of them here.  A zero
byte ends what counts of a suffix.
-/
import ChipTiming.Decimal
import ChipTiming.Yaml.Cursor
import ChipTiming.Yaml.Token.Basic

namespace ChipTiming.Yaml

/-! ### Anchors and aliases -/

/-- Whether the text after a name may follow it. -/
def endsName (cs : List Char) : Bool :=
  atGap cs || cs.head?.any fun c => "?:,]\x7d%@\x60".contains c

/-- The name after `&` or `*`. -/
def anchorName? (c : Cursor) : Option (List Char × Cursor) :=
  let (name, after) := (c.skip 1).span isNameChar
  if name.isEmpty || !endsName after.rest then none else some (name, after)

/-! ### The text of tags -/

/-- The characters that a tag may hold as they are, besides those of names. -/
def isTagChar (c : Char) : Bool := isNameChar c || ";/?:@&=+$.!~*\x27()".contains c

/-- The byte that an escape stands for. -/
def escapedByte? : List Char → Option (Nat × List Char)
  | '%' :: a :: b :: cs => (natOfDigits? 16 [a, b]).map (·, cs)
  | _ => none

/-- How many bytes a character takes that begins with this one. -/
def encodedWidth? (first : Nat) : Option Nat :=
  if first < 0x80 then some 1
  else if 0xC0 ≤ first && first < 0xE0 then some 2
  else if 0xE0 ≤ first && first < 0xF0 then some 3
  else if 0xF0 ≤ first && first < 0xF8 then some 4
  else none

/-- So many escaped bytes, none of which begins a character. -/
def trailingBytes? : Nat → List Char → Option (List Nat × List Char)
  | 0, cs => some ([], cs)
  | n + 1, cs => do
    let (byte, cs) ← escapedByte? cs
    guard (0x80 ≤ byte && byte < 0xC0)
    let (bytes, cs) ← trailingBytes? n cs
    return (byte :: bytes, cs)

/-- The escapes of one character. -/
def escapedChar? (cs : List Char) : Option (List Nat × List Char) := do
  let (first, cs) ← escapedByte? cs
  let width ← encodedWidth? first
  let (bytes, cs) ← trailingBytes? (width - 1) cs
  return (first :: bytes, cs)

/-- The text of a tag from here on.  Between angle brackets it may also hold flow
indicators. -/
def tagText? (bracketed : Bool) (c : Cursor) : Option (TagText × Cursor) :=
  repeatStep (fun (text, c) =>
    match c.rest with
    | '%' :: _ => (escapedChar? c.rest).map fun (bytes, rest) =>
        .inl (text ++ bytes.map UInt8.ofNat, c.skip (c.rest.length - rest.length))
    | ch :: _ =>
      if isTagChar ch || (bracketed && ",[]".contains ch) then
        some (.inl (text ++ TagText.ofChars [ch], c.skip 1))
      else some (.inr (text, c))
    | [] => some (.inr (text, c))) (c.rest.length + 1) ([], c)

/-- A handle: `!`, a name, and a closing `!` if there is one. -/
def handle? (c : Cursor) : Option (List Char × Cursor) :=
  if c.head? != some '!' then none
  else
    let (name, c) := (c.skip 1).span isNameChar
    if c.head? = some '!' then some ('!' :: name ++ ['!'], c.skip 1) else some ('!' :: name, c)

/-- What counts of the text of a tag: all of it up to the first zero byte. -/
def significant (text : TagText) : TagText := text.takeWhile (· ≠ 0)

/-- The tag at `!<`, without the angle brackets. -/
def bracketedTag? (c : Cursor) : Option (Token × Cursor) := do
  let (suffix, c) ← tagText? true (c.skip 2)
  guard (!suffix.isEmpty && c.head? = some '>')
  return (.tag [] (significant suffix), c.skip 1)

/-- The tag at `!` that is not in angle brackets. -/
def shorthandTag? (c : Cursor) : Option (Token × Cursor) := do
  let (handle, after) ← handle? c
  let (text, c) ← tagText? false after
  if 1 < handle.length && handle.getLast? = some '!' then
    guard (!text.isEmpty)
    return (.tag (TagText.ofChars handle) (significant text), c)
  else
    let suffix := significant (TagText.ofChars (handle.drop 1) ++ text)
    return (if suffix.isEmpty then .tag [] (TagText.ofString "!")
      else .tag (TagText.ofString "!") suffix, c)

/-- The tag here, which a blank or the end of a line must follow, or a comma inside a
flow collection. -/
def tagToken? (inFlow : Bool) (c : Cursor) : Option (Token × Cursor) := do
  let (token, c) ← if c.rest[1]? = some '<' then bracketedTag? c else shorthandTag? c
  guard (atGap c.rest || (inFlow && c.head? = some ','))
  return (token, c)

/-! ### Directives -/

/-- A version number of at most nine digits. -/
def versionNumber? (c : Cursor) : Option (Nat × Cursor) :=
  let (digits, c) := c.span isDigit
  if digits.isEmpty || 9 < digits.length then none else some (Decimal.valueOf digits, c)

/-- The value of a version directive. -/
def versionDirective? (c : Cursor) : Option (Token × Cursor) := do
  let (major, c) ← versionNumber? (c.skipWhile isBlank)
  guard (c.head? = some '.')
  let (minor, c) ← versionNumber? (c.skip 1)
  return (.versionDirective major minor, c)

/-- The value of a tag directive. -/
def tagDirective? (c : Cursor) : Option (Token × Cursor) := do
  let (handle, c) ← handle? (c.skipWhile isBlank)
  guard (handle = ['!'] || handle.getLast? = some '!')
  guard (atBlank c.rest)
  let (stem, c) ← tagText? true (c.skipWhile isBlank)
  guard (!stem.isEmpty && atGap c.rest)
  return (.tagDirective (TagText.ofChars handle) (significant stem), c)

/-- The directive here, with the end of its line. -/
def directive? (c : Cursor) : Option (Token × Cursor) := do
  let (name, c) := (c.skip 1).span isNameChar
  guard (!name.isEmpty && atGap c.rest)
  let (token, c) ←
    if name = "YAML".toList then versionDirective? c
    else if name = "TAG".toList then tagDirective? c
    else none
  let c := c.skipComment
  guard (atLineEnd c.rest)
  return (token, c.takeBreak.2)

end ChipTiming.Yaml
