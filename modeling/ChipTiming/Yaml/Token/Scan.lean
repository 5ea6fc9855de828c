/-
From a YAML text to its tokens.

Two things make this more than cutting a text into words.  Block collections are
opened and closed by indentation, so a token that begins in another column than
the collection around it brings tokens of its own.  And a key need not be marked
as one: only the colon after it shows that it was, so the place where a key could
have begun is remembered, as a `KeyCandidate`, and the mark is put there later.

A candidate is given up when its line ends, or after 1024 bytes.  One that had to
be a key, because it begins in the column of the mapping around it, is then an
error.
-/
import ChipTiming.Yaml.Token.Scalar
import ChipTiming.Yaml.Token.Tag

namespace ChipTiming.Yaml

/-- A place where a key without a mark may have begun. -/
structure KeyCandidate where
  /-- How many tokens came before it. -/
  place : Nat
  index : Nat
  line : Nat
  column : Nat
  /-- Whether nothing but a key can be here. -/
  isRequired : Bool
  deriving DecidableEq, Repr

/-- The state of a scan. -/
structure Scan where
  cursor : Cursor
  tokens : Array Token
  /-- The column of the innermost block collection, `-1` outside of all. -/
  indent : Int
  /-- The columns of the collections around it. -/
  outerIndents : List Int
  /-- Whether a key without a mark may begin here. -/
  keyAllowed : Bool
  /-- The candidate of the innermost flow collection. -/
  candidate : Option KeyCandidate
  /-- The candidates of the collections around it: one for each flow collection that
  is open. -/
  outerCandidates : List (Option KeyCandidate)

namespace Scan

/-- Before the first character. -/
def start (cs : List Char) : Scan := ⟨.start cs, #[], -1, [], true, none, []⟩

/-- Whether the scan stands inside a flow collection, where indentation has no
meaning. -/
def inFlow (s : Scan) : Bool := !s.outerCandidates.isEmpty

/-- With one more token. -/
def push (s : Scan) (t : Token) : Scan := { s with tokens := s.tokens.push t }

/-- Past the next `n` characters. -/
def skip (s : Scan) (n : Nat) : Scan := { s with cursor := s.cursor.skip n }

/-! ### Indentation -/

/-- Opens a block collection in a column to the right of the one around it, with its
token at a given place. -/
def openBlock (s : Scan) (column : Nat) (place : Nat) (t : Token) : Scan :=
  if s.inFlow || !(s.indent < column) then s
  else { s with
    indent := column
    outerIndents := s.indent :: s.outerIndents
    tokens := s.tokens.insertIdxIfInBounds place t }

/-- Closes the block collections to the right of a column, given the columns of those
around. -/
def closeBlocksFrom (column indent : Int) (tokens : Array Token) :
    List Int → Int × List Int × Array Token
  | [] => (indent, [], tokens)
  | outer :: rest =>
    if column < indent then closeBlocksFrom column outer (tokens.push .blockEnd) rest
    else (indent, outer :: rest, tokens)

/-- Closes the block collections to the right of a column. -/
def closeBlocks (s : Scan) (column : Int) : Scan :=
  if s.inFlow then s
  else
    let (indent, outerIndents, tokens) := closeBlocksFrom column s.indent s.tokens s.outerIndents
    { s with indent, outerIndents, tokens }

/-! ### Keys without a mark -/

/-- Whether a candidate can no longer be a key. -/
def isStale (c : Cursor) (k : KeyCandidate) : Bool := k.line < c.line || k.index + 1024 < c.index

/-- Gives up a candidate that can no longer be a key. -/
def prune? (c : Cursor) : Option KeyCandidate → Option (Option KeyCandidate)
  | none => some none
  | some k => if !isStale c k then some (some k) else if k.isRequired then none else some none

/-- Gives up every candidate that can no longer be a key. -/
def pruneCandidates? (s : Scan) : Option Scan := do
  let candidate ← prune? s.cursor s.candidate
  let outerCandidates ← s.outerCandidates.mapM (prune? s.cursor)
  return { s with candidate, outerCandidates }

/-- Gives up the candidate of the innermost collection. -/
def dropCandidate? (s : Scan) : Option Scan :=
  if s.candidate.any (·.isRequired) then none else some { s with candidate := none }

/-- Remembers that a key may begin here. -/
def markCandidate? (s : Scan) : Option Scan :=
  if !s.keyAllowed then some s
  else do
    let s ← s.dropCandidate?
    let c := s.cursor
    let isRequired := !s.inFlow && s.indent == c.column
    return { s with candidate := some ⟨s.tokens.size, c.index, c.line, c.column, isRequired⟩ }

/-! ### Single tokens -/

/-- A marker at the beginning of a line: a directive, or a line that opens or closes a
document. -/
def atLineStart? (s : Scan) : Option Scan :=
  (s.closeBlocks (-1)).dropCandidate?.map fun s => { s with keyAllowed := false }

/-- The opening of a flow collection. -/
def openFlow? (s : Scan) (t : Token) : Option Scan := do
  let s ← s.markCandidate?
  return { s.skip 1 with
    candidate := none
    outerCandidates := s.candidate :: s.outerCandidates
    keyAllowed := true
    tokens := s.tokens.push t }

/-- The closing of a flow collection. -/
def closeFlow? (s : Scan) (t : Token) : Option Scan := do
  let s ← s.dropCandidate?
  let (candidate, outerCandidates) := match s.outerCandidates with
    | [] => (s.candidate, [])
    | outer :: rest => (outer, rest)
  return { s.skip 1 with
    candidate, outerCandidates
    keyAllowed := false
    tokens := s.tokens.push t }

/-- The comma of a flow collection. -/
def flowEntry? (s : Scan) : Option Scan := do
  let s ← s.dropCandidate?
  return { (s.skip 1).push .flowEntry with keyAllowed := true }

/-- The hyphen of a block sequence. -/
def blockEntry? (s : Scan) : Option Scan := do
  guard (s.inFlow || s.keyAllowed)
  let s ← (s.openBlock s.cursor.column s.tokens.size .blockSequenceStart).dropCandidate?
  return { (s.skip 1).push .blockEntry with keyAllowed := true }

/-- The question mark in front of a key. -/
def key? (s : Scan) : Option Scan := do
  guard (s.inFlow || s.keyAllowed)
  let s ← (s.openBlock s.cursor.column s.tokens.size .blockMappingStart).dropCandidate?
  return { (s.skip 1).push .key with keyAllowed := !s.inFlow }

/-- The colon in front of a value.  If a candidate is there, it was a key. -/
def value? (s : Scan) : Option Scan :=
  match s.candidate with
  | some k =>
    let marked := { s with
      tokens := s.tokens.insertIdxIfInBounds k.place .key
      candidate := none
      keyAllowed := false }
    some ((marked.openBlock k.column k.place .blockMappingStart).skip 1 |>.push .value)
  | none => do
    guard (s.inFlow || s.keyAllowed)
    let s := s.openBlock s.cursor.column s.tokens.size .blockMappingStart
    return { (s.skip 1).push .value with keyAllowed := !s.inFlow }

/-- A token that may be, or begin, a key. -/
def content? (s : Scan) (read : Cursor → Option (Token × Cursor)) : Option Scan := do
  let s ← s.markCandidate?
  let (token, cursor) ← read s.cursor
  return { s.push token with cursor, keyAllowed := false }

/-- A plain scalar; if it ended at the beginning of a line, a key may follow. -/
def plain? (s : Scan) : Option Scan := do
  let s ← s.markCandidate?
  let ((text, atNewLine), cursor) ← plainScalar? s.inFlow (s.indent + 1) s.cursor
  return { s.push (.scalar .plain text) with cursor, keyAllowed := atNewLine }

/-- A block scalar, which is never a key. -/
def block? (s : Scan) (isFolded : Bool) : Option Scan := do
  let s ← s.dropCandidate?
  let (text, cursor) ← blockScalar? isFolded s.indent s.cursor
  let style := if isFolded then Style.folded else .literal
  return { s.push (.scalar style text) with cursor, keyAllowed := true }

/-! ### All tokens -/

/-- Past byte order marks, blanks, comments and line ends.  Outside of flow
collections a tab is not a blank where a key may begin, and a key may begin on every
new line. -/
def skipToToken (s : Scan) : Option Scan :=
  repeatStep (fun s =>
    let c := s.cursor
    let c := if c.column = 0 && c.head? = some byteOrderMark then c.skip 1 else c
    let c := c.skipWhile fun ch => ch = ' ' || (ch = '\t' && (s.inFlow || !s.keyAllowed))
    let c := if c.head? = some '#' then c.skipWhile (!isBreak ·) else c
    if atBreak c.rest then
      some (.inl { s with cursor := c.takeBreak.2, keyAllowed := s.keyAllowed || !s.inFlow })
    else some (.inr { s with cursor := c })) (s.cursor.rest.length + 1) s

/-- Whether a plain scalar may begin with a text. -/
def startsPlain (inFlow : Bool) : List Char → Bool
  | [] => false
  | c :: cs =>
    (isSolid c && !"-?:,[]\x7b\x7d#&*!|>\x27\x22%@\x60".contains c) ||
      (c = '-' && !atBlank cs) || (!inFlow && (c = '?' || c = ':') && !atGap cs)

/-- Takes the next token, at the first character of which the scan stands. -/
def token? (s : Scan) : Option Scan :=
  let c := s.cursor
  match c.rest with
  | [] => none
  | ch :: rest =>
    if c.column = 0 && ch = '%' then do
      let s ← s.atLineStart?
      let (token, cursor) ← directive? s.cursor
      return { s.push token with cursor }
    else if c.atMarker '-' then s.atLineStart?.map fun s => (s.skip 3).push .documentStart
    else if c.atMarker '.' then s.atLineStart?.map fun s => (s.skip 3).push .documentEnd
    else if ch = '[' then s.openFlow? .flowSequenceStart
    else if ch = '\x7b' then s.openFlow? .flowMappingStart
    else if ch = ']' then s.closeFlow? .flowSequenceEnd
    else if ch = '\x7d' then s.closeFlow? .flowMappingEnd
    else if ch = ',' then s.flowEntry?
    else if ch = '-' && atGap rest then s.blockEntry?
    else if ch = '?' && (s.inFlow || atGap rest) then s.key?
    else if ch = ':' && (s.inFlow || atGap rest) then s.value?
    else if ch = '*' then
      s.content? fun c => (anchorName? c).map fun (name, c) => (.alias name, c)
    else if ch = '&' then
      s.content? fun c => (anchorName? c).map fun (name, c) => (.anchor name, c)
    else if ch = '!' then s.content? (tagToken? s.inFlow)
    else if ch = '|' && !s.inFlow then s.block? false
    else if ch = '>' && !s.inFlow then s.block? true
    else if ch = '\x27' then
      s.content? fun c => (quotedScalar? true c).map fun (t, c) => (.scalar .singleQuoted t, c)
    else if ch = '\x22' then
      s.content? fun c => (quotedScalar? false c).map fun (t, c) => (.scalar .doubleQuoted t, c)
    else if startsPlain s.inFlow c.rest then s.plain?
    else none

/-- What is left to do at the end of the text. -/
def finish? (s : Scan) : Option (Array Token) :=
  (s.closeBlocks (-1)).dropCandidate?.map (·.tokens)

/-- Takes the next token, or ends. -/
def next? (s : Scan) : Option (Scan ⊕ Array Token) := do
  let s ← s.skipToToken
  let s ← s.pruneCandidates?
  if s.cursor.rest.isEmpty then return .inr (← s.finish?)
  return .inl (← (s.closeBlocks s.cursor.column).token?)

end Scan

/-- The tokens of a text. -/
def tokens? (cs : List Char) : Option (List Token) :=
  if cs.all isReadable then
    (repeatStep Scan.next? (cs.length + 1) (.start cs)).map Array.toList
  else none

end ChipTiming.Yaml
