/-
Scalars in their five styles.

Between the pieces of a plain or quoted scalar lies a gap: blanks within a line,
or the ends of one or more lines with blanks around them.  Blanks within a line
are kept.  Of line ends the first is folded into a space if it is alone, and left
out if others follow it, which are kept.  Block scalars keep their lines, or fold
them in the same manner where neither of two neighbouring lines opens with a
blank.
-/
import ChipTiming.Decimal
import ChipTiming.Yaml.Cursor
import ChipTiming.Yaml.Token.Basic

namespace ChipTiming.Yaml

/-! ### Gaps -/

/-- What lies between two pieces of a scalar. -/
inductive Gap where
  | blanks (text : List Char)
  /-- The first line end, and those after it. -/
  | lines (first others : List Char)
  deriving DecidableEq, Repr

namespace Gap

/-- Whether the gap goes beyond the end of a line. -/
def isLines : Gap → Bool
  | blanks _ => false
  | lines .. => true

/-- What the gap contributes to the text. -/
def folded : Gap → List Char
  | blanks text => text
  | lines first others =>
    if first.head? = some '\n' then (if others.isEmpty then [' '] else others) else first ++ others

/-- The gap that begins here, as a continuation of `gap`.  After a line end a tab is
refused in front of column `indent`. -/
def scan? (indent : Int) (gap : Gap) (c : Cursor) : Option (Gap × Cursor) :=
  repeatStep (fun (gap, c) =>
    match c.head? with
    | none => some (.inr (gap, c))
    | some ch =>
      if isBlank ch then
        match gap with
        | blanks text => some (.inl (blanks (text ++ [ch]), c.skip 1))
        | lines .. => if ch = '\t' && c.column < indent then none else some (.inl (gap, c.skip 1))
      else if isBreak ch then
        let (text, after) := c.takeBreak
        match gap with
        | blanks _ => some (.inl (lines text [], after))
        | lines first others => some (.inl (lines first (others ++ text), after))
      else some (.inr (gap, c))) (c.rest.length + 1) (gap, c)

end Gap

/-! ### Plain scalars -/

/-- The longest piece of a plain scalar that holds no blank.  It ends in front of a
colon that a gap follows and, inside a flow collection, in front of an indicator; a
colon between the two is refused. -/
def plainPiece? (inFlow : Bool) : List Char → Option (List Char)
  | [] => some []
  | c :: cs =>
    if !isSolid c then some []
    else if inFlow && c = ':' && cs.head?.any (",?[]\x7b\x7d".contains ·) then none
    else if c = ':' && atGap cs then some []
    else if inFlow && ",[]\x7b\x7d".contains c then some []
    else (plainPiece? inFlow cs).map (c :: ·)

/-- A plain scalar, and whether a line has ended since its last piece.  In a block
collection its further lines must be indented to column `indent`. -/
def plainScalar? (inFlow : Bool) (indent : Int) (c : Cursor) :
    Option ((List Char × Bool) × Cursor) :=
  repeatStep (fun (text, gap, c) =>
    if c.atDocumentMarker || c.head? = some '#' then some (.inr ((text, gap.isLines), c))
    else do
      let piece ← plainPiece? inFlow c.rest
      let after := c.skip piece.length
      let (text, gap) :=
        if piece.isEmpty then (text, gap) else (text ++ gap.folded ++ piece, .blanks [])
      if !(atBlank after.rest || atBreak after.rest) then
        return .inr ((text, gap.isLines), after)
      let (gap, after) ← gap.scan? indent after
      if !inFlow && after.column < indent then return .inr ((text, gap.isLines), after)
      return .inl (text, gap, after)) (c.rest.length + 1) ([], Gap.blanks [], c)

/-! ### Quoted scalars -/

/-- What a character after a backslash stands for. -/
def escapedText? : Char → Option Char
  | '0' => some '\x00'
  | 'a' => some '\x07'
  | 'b' => some '\x08'
  | 't' => some '\t'
  | '\t' => some '\t'
  | 'n' => some '\n'
  | 'v' => some '\x0b'
  | 'f' => some '\x0c'
  | 'r' => some '\r'
  | 'e' => some '\x1b'
  | ' ' => some ' '
  | '\x22' => some '\x22'
  | '/' => some '/'
  | '\x5c' => some '\x5c'
  | 'N' => some '\u0085'
  | '_' => some '\u00a0'
  | 'L' => some '\u2028'
  | 'P' => some '\u2029'
  | _ => none

/-- How many hexadecimal digits follow a letter after a backslash. -/
def escapeWidth? : Char → Option Nat
  | 'x' => some 2
  | 'u' => some 4
  | 'U' => some 8
  | _ => none

/-- The character that an escape stands for, and how long the escape is. -/
def escape? (cs : List Char) : Option (Char × Nat) := do
  let letter ← cs[1]?
  match escapeWidth? letter with
  | none => (escapedText? letter).map (·, 2)
  | some width =>
    let digits := (cs.drop 2).take width
    guard (digits.length = width)
    let code ← natOfDigits? 16 digits
    if code.isValidChar then return (Char.ofNat code, 2 + width) else none

/-- A piece of a quoted scalar: up to a blank, a line end, the closing quote, or a
line end that a backslash hides, which is told by the last component. -/
def quotedPiece? (single : Bool) (c : Cursor) : Option (List Char × Cursor × Bool) :=
  let quote := if single then '\x27' else '\x22'
  repeatStep (fun (text, c) =>
    match c.rest with
    | [] => some (.inr (text, c, false))
    | ch :: rest =>
      if !isSolid ch then some (.inr (text, c, false))
      else if single && ch = quote && rest.head? = some quote then
        some (.inl (text ++ [quote], c.skip 2))
      else if ch = quote then some (.inr (text, c, false))
      else if !single && ch = '\x5c' then
        if atBreak rest then some (.inr (text, (c.skip 1).takeBreak.2, true))
        else (escape? c.rest).map fun (decoded, size) => .inl (text ++ [decoded], c.skip size)
      else some (.inl (text ++ [ch], c.skip 1))) (c.rest.length + 1) ([], c)

/-- A quoted scalar, from its opening quote on. -/
def quotedScalar? (single : Bool) (c : Cursor) : Option (List Char × Cursor) :=
  let quote := if single then '\x27' else '\x22'
  repeatStep (fun (text, c) =>
    if c.atDocumentMarker || c.rest.isEmpty then none
    else do
      let (piece, after, hidden) ← quotedPiece? single c
      let text := text ++ piece
      if after.head? = some quote then return .inr (text, after.skip 1)
      let (gap, after) ← (if hidden then Gap.lines [] [] else .blanks []).scan? 0 after
      return .inl (text ++ gap.folded, after)) (c.rest.length + 1) ([], c.skip 1)

/-! ### Block scalars -/

/-- Which of the line ends that close a block scalar are kept. -/
inductive Chomping where
  | strip | clip | keep
  deriving DecidableEq, Repr

/-- The chomping that an indicator asks for. -/
def Chomping.ofChar? : Char → Option Chomping
  | '+' => some .keep
  | '-' => some .strip
  | _ => none

/-- An indentation indicator: a digit other than zero. -/
def indentIndicator? (c : Cursor) : Option (Option Nat × Cursor) :=
  match c.head? with
  | some ch =>
    if !isDigit ch then some (none, c)
    else if ch = '0' then none
    else some (some (Decimal.valueOf [ch]), c.skip 1)
  | none => some (none, c)

/-- A chomping indicator. -/
def chompingIndicator (c : Cursor) : Option Chomping × Cursor :=
  match c.head?.bind Chomping.ofChar? with
  | some chomping => (some chomping, c.skip 1)
  | none => (none, c)

/-- The indicators of a block scalar in either order, up to the beginning of the next
line. -/
def blockHeader? (c : Cursor) : Option ((Chomping × Option Nat) × Cursor) := do
  let (first, c) := chompingIndicator c
  let (increment, c) ← indentIndicator? c
  let (second, c) := if first.isNone && increment.isSome then chompingIndicator c else (none, c)
  let c := c.skipComment
  guard (atLineEnd c.rest)
  return (((first.or second).getD .clip, increment), c.takeBreak.2)

/-- The empty lines here, with the indentation of the line after them skipped.  While
the indentation of the scalar is unknown it is the greatest found so far, and at least
`least`. -/
def blankLines? (indent : Option Int) (least : Int) (c : Cursor) :
    Option ((Int × List Char) × Cursor) :=
  repeatStep (fun (widest, text, c) =>
    let spaces := c.rest.takeWhile (· = ' ')
    let wanted := match indent with
      | some column => min spaces.length (column - c.column).toNat
      | none => spaces.length
    let c := c.skip wanted
    let widest := max widest c.column
    let isShort := indent.all fun column => (c.column : Int) < column
    if isShort && c.head? = some '\t' then none
    else if atBreak c.rest then
      let (line, after) := c.takeBreak
      some (.inl (widest, text ++ line, after))
    else some (.inr ((indent.getD (max (max widest least) 1), text), c)))
    (c.rest.length + 1) ((0 : Int), [], c)

/-- What has been read of a block scalar. -/
structure BlockText where
  text : List Char
  /-- The end of the last line. -/
  lineEnd : List Char
  /-- The ends of the empty lines after it. -/
  emptyLines : List Char
  /-- Whether the last line opened with a blank. -/
  openedBlank : Bool
  deriving DecidableEq, Repr

/-- The text with one more line. -/
def BlockText.addLine (isFolded : Bool) (b : BlockText) (line lineEnd : List Char) : BlockText :=
  let opensBlank := atBlank line
  let joined :=
    if isFolded && b.lineEnd.head? = some '\n' && !b.openedBlank && !opensBlank then
      if b.emptyLines.isEmpty then [' '] else []
    else b.lineEnd
  { text := b.text ++ joined ++ b.emptyLines ++ line
    lineEnd
    emptyLines := []
    openedBlank := opensBlank }

/-- The text with the line ends that its chomping keeps. -/
def BlockText.chomped (b : BlockText) : Chomping → List Char
  | .strip => b.text
  | .clip => b.text ++ b.lineEnd
  | .keep => b.text ++ b.lineEnd ++ b.emptyLines

/-- A block scalar, from its indicator on, inside a collection indented to column
`parent`. -/
def blockScalar? (isFolded : Bool) (parent : Int) (c : Cursor) : Option (List Char × Cursor) := do
  let ((chomping, increment), c) ← blockHeader? (c.skip 1)
  let fixed := increment.map fun n => max parent 0 + (n : Int)
  let ((indent, emptyLines), c) ← blankLines? fixed (parent + 1) c
  repeatStep (fun (b, c) =>
    if (c.column : Int) ≠ indent || c.rest.isEmpty then some (.inr (b.chomped chomping, c))
    else do
      let (line, c) := c.span (!isBreak ·)
      let (lineEnd, c) := c.takeBreak
      let b := b.addLine isFolded line lineEnd
      let ((_, emptyLines), c) ← blankLines? (some indent) 0 c
      return .inl ({ b with emptyLines }, c)) (c.rest.length + 2)
    ({ text := [], lineEnd := [], emptyLines, openedBlank := false : BlockText }, c)

end ChipTiming.Yaml
