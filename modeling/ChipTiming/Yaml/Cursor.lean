/-
Where a scan of a YAML text stands.

A `Cursor` is the text that is left together with the place of its first
character: how many bytes came before it, on which line it is and in which column.
The place matters because the structure of a YAML text hangs on columns, which are
counted in characters, and because a key without a mark of its own must end on the
line it began on and within a fixed distance, which is counted in bytes.

Five characters, or the pair of carriage return and line feed, end a line.
-/
namespace ChipTiming.Yaml

/-! ### Characters -/

/-- Whether a character may occur in a document at all. -/
def isReadable (c : Char) : Bool :=
  let n := c.toNat
  n == 0x09 || n == 0x0A || n == 0x0D || (0x20 ≤ n && n ≤ 0x7E) || n == 0x85 ||
    (0xA0 ≤ n && n ≤ 0xD7FF) || (0xE000 ≤ n && n ≤ 0xFFFD) || 0x10000 ≤ n

/-- Whether a character ends a line. -/
def isBreak (c : Char) : Bool :=
  c = '\n' || c = '\r' || c = '\u0085' || c = '\u2028' || c = '\u2029'

/-- A space or a tab. -/
def isBlank (c : Char) : Bool := c = ' ' || c = '\t'

/-- Neither a space, nor a tab, nor the end of a line. -/
def isSolid (c : Char) : Bool := !isBlank c && !isBreak c

/-- A character of a name: a letter, a digit, an underscore or a hyphen, all of
ASCII. -/
def isNameChar (c : Char) : Bool := c.isAlphanum || c = '_' || c = '-'

/-- The byte order mark, which may open any line. -/
def byteOrderMark : Char := '\ufeff'

/-- The number of bytes that characters take in UTF-8. -/
def byteCount (cs : List Char) : Nat := cs.foldl (fun size c => size + c.utf8Size) 0

/-- Whether a text is at its end, at the end of a line, or at a blank. -/
def atGap : List Char → Bool
  | [] => true
  | c :: _ => !isSolid c

/-- Whether a text opens with a space or a tab. -/
def atBlank : List Char → Bool
  | [] => false
  | c :: _ => isBlank c

/-- Whether a text opens with the end of a line. -/
def atBreak : List Char → Bool
  | [] => false
  | c :: _ => isBreak c

/-- Whether a text is at the end of a line, or at its own end. -/
def atLineEnd : List Char → Bool
  | [] => true
  | c :: _ => isBreak c

/-! ### Cursors -/

/-- The text that is left, and the place where it begins. -/
structure Cursor where
  rest : List Char
  /-- How many bytes came before. -/
  index : Nat
  line : Nat
  column : Nat
  deriving DecidableEq, Repr

namespace Cursor

/-- The beginning of a text. -/
def start (cs : List Char) : Cursor := ⟨cs, 0, 0, 0⟩

/-- The next character. -/
def head? (c : Cursor) : Option Char := c.rest.head?

/-- Past the next `n` characters, none of which ends a line. -/
def skip (c : Cursor) (n : Nat) : Cursor :=
  { c with
    rest := c.rest.drop n
    index := c.index + byteCount (c.rest.take n)
    column := c.column + n }

/-- Past the characters of a class that holds no end of a line, and those
characters. -/
def span (c : Cursor) (p : Char → Bool) : List Char × Cursor :=
  let taken := c.rest.takeWhile p
  (taken, c.skip taken.length)

/-- Past the characters of a class that holds no end of a line. -/
def skipWhile (c : Cursor) (p : Char → Bool) : Cursor := (c.span p).2

/-- Past the end of a line, and what it contributes to a text: one line feed, except
that the two separators of Unicode stand for themselves. -/
def takeBreak (c : Cursor) : List Char × Cursor :=
  let next (taken rest : List Char) : Cursor := ⟨rest, c.index + byteCount taken, c.line + 1, 0⟩
  match c.rest with
  | '\r' :: '\n' :: rest => (['\n'], next ['\r', '\n'] rest)
  | b :: rest =>
    if b = '\u2028' || b = '\u2029' then ([b], next [b] rest)
    else if isBreak b then (['\n'], next [b] rest)
    else ([], c)
  | [] => ([], c)

/-- Past the blanks and the comment that may close a line, up to the end of that
line. -/
def skipComment (c : Cursor) : Cursor :=
  let c := c.skipWhile isBlank
  if c.head? = some '#' then c.skipWhile (!isBreak ·) else c

/-- Whether a line begins here with three given characters and nothing attached to
them. -/
def atMarker (c : Cursor) (mark : Char) : Bool :=
  c.column == 0 && [mark, mark, mark].isPrefixOf c.rest && atGap (c.rest.drop 3)

/-- Whether a line begins here that opens or closes a document. -/
def atDocumentMarker (c : Cursor) : Bool := c.atMarker '-' || c.atMarker '.'

end Cursor

/-! ### Loops over a text -/

/-- Repeats a step that fails, goes on or ends.  The bound on the number of rounds is
for the sake of termination: each round of the loops below that goes on has moved the
cursor, so the length of the text is bound enough. -/
def repeatStep {σ ρ : Type} (step : σ → Option (σ ⊕ ρ)) : Nat → σ → Option ρ
  | 0, _ => none
  | rounds + 1, s =>
    match step s with
    | none => none
    | some (.inl s) => repeatStep step rounds s
    | some (.inr r) => some r

end ChipTiming.Yaml
