/-
YAML as a kind of document.

References are followed wherever a part of the document is looked at, and each one
that is followed is paid for; the whole reading may follow a hundred for each
event of the document.

A record is a mapping.  Its keys are texts; a key that the record knows may occur
once, and what stands under the others is not looked at.  A value that was left
out is a record without members, and a list without items.
-/
import ChipTiming.Exchange.Reading
import ChipTiming.Text.Blank
import ChipTiming.Yaml.Node
import ChipTiming.Yaml.Scalar
import ChipTiming.Yaml.Token.Scan

namespace ChipTiming.Yaml

open Exchange

/-- A node together with the document that its references lead into. -/
structure Part where
  document : Document
  node : Node

namespace Part

/-- The node itself, or the one that it refers to. -/
def follow (p : Part) : Reading Node :=
  match p.node with
  | .alias number => do
    let budget ← get
    if budget = 0 then refuse
    else
      set (budget - 1)
      need (p.document.target? number)
  | node => pure node

/-- Another node of the same document. -/
def sibling (p : Part) (node : Node) : Part := { p with node }

/-- Whether a scalar is one that may be read as a basic type: a plain one, or a
literal block with the tag of the type. -/
def isBasic (type : String) (tag : Option TagText) (style : Style) : Bool :=
  match style with
  | .plain => true
  | .literal => tag == some (basicTag type)
  | _ => false

/-- A scalar of a basic type. -/
def basic {α : Type} (type : String) (value? : List Char → Option α) (p : Part) : Reading α := do
  match ← p.follow with
  | .scalar tag style text => if isBasic type tag style then need (value? text) else refuse
  | _ => refuse

/-- The text of a scalar of any style. -/
def text (p : Part) : Reading String := do
  match ← p.follow with
  | .scalar _ _ text => return String.ofList text
  | _ => refuse

/-- The entries of a mapping whose keys are among the given names. -/
def entries (p : Part) (names : List String) :
    List (Node × Node) → List (String × Part) → Reading (List (String × Part))
  | [], found => pure found
  | (key, value) :: rest, found => do
    let name ← text (p.sibling key)
    if !names.contains name then entries p names rest found
    else if (found.lookup name).isSome then refuse
    else entries p names rest ((name, p.sibling value) :: found)

/-- Whether a scalar stands for a value that was left out. -/
def isAbsent (style : Style) (text : List Char) : Bool := style = .plain && text.isEmpty

/-- Whether a scalar stands for something, where nothing is possible too.  With the
tag of null it must be one of the spellings of null. -/
def isSomething? (tag : Option TagText) (style : Style) (text : List Char) : Option Bool :=
  if style ≠ .plain then some true
  else match tag with
    | some tag =>
      if tag ≠ basicTag "null" then some true
      else if isNull text then some false else none
    | none => some (!text.isEmpty && !isNull text)

/-- The word in a tag of one's own, which is one that opens with an exclamation
mark. -/
def tagWord? : TagText → Option String
  | b :: word => if b = 0x21 then String.fromUTF8? ⟨word.toArray⟩ else none
  | [] => none

/-- The word that a scalar stands for: the word in its tag, if the scalar itself says
nothing; without such a tag its own text. -/
def choiceOf? (tag : Option TagText) (style : Style) (text : List Char) : Option String :=
  match tag.bind tagWord? with
  | some word => if style = .plain && (text.isEmpty || isNull text) then some word else none
  | none => some (String.ofList text)

end Part

instance : Readable Part where
  members names p := do
    match ← p.follow with
    | .mapping entries => return ⟨true, ← p.entries names entries []⟩
    | .nothing => return ⟨true, []⟩
    | .scalar _ style text => if Part.isAbsent style text then return ⟨true, []⟩ else refuse
    | _ => refuse
  items p := do
    match ← p.follow with
    | .sequence items => return items.map p.sibling
    | .nothing => return []
    | .scalar _ style text => if Part.isAbsent style text then return [] else refuse
    | _ => refuse
  text := Part.text
  number := Part.basic "float" numberOf?
  natural := Part.basic "int" naturalOf?
  flag := Part.basic "bool" flagOf?
  optional p := do
    match ← p.follow with
    | .nothing => return none
    | .scalar tag style text =>
      if ← need (Part.isSomething? tag style text) then
        return some (p.sibling (.scalar tag style text))
      else return none
    | node => return some (p.sibling node)
  choice p := do
    match ← p.follow with
    | .scalar tag style text => need (Part.choiceOf? tag style text)
    | _ => refuse

/-! ### Texts -/

/-- Whether a character is a control character other than a tab or an end of line. -/
def isControl (c : Char) : Bool :=
  let n := c.toNat
  n ≤ 0x08 || n == 0x0B || n == 0x0C || (0x0E ≤ n && n ≤ 0x1F) || n == 0x7F

/-- A text without control characters; there is none if nothing but white space is
left. -/
def cleaned? (s : String) : Option (List Char) :=
  let cs := s.toList.filter (!isControl ·)
  if Text.isBlankText cs then none else some cs

/-- The document that a text holds. -/
def document? (cs : List Char) : Option Document := do
  let tokens ← tokens? cs
  let events ← events? tokens
  Document.ofEvents? events

/-- Reads a text as a record. -/
def read? {α : Type} (reading : Part → Reading α) (cs : List Char) : Option α := do
  let document ← document? cs
  let (value, _) ← reading ⟨document, document.root⟩ (100 * document.size)
  return value

end ChipTiming.Yaml
