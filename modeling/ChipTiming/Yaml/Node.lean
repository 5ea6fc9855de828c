/-
From events to a document.

A document is a tree in which an alias keeps only the number of the anchor it
refers to, so that a node may refer to one that contains it.  Anchors are numbered
as they come: each gets the number of distinct names seen before it.  A name that
is used again therefore leaves its old number behind, and that number may be given
once more to another anchor; whoever held it then refers to the newer node.

The tree is built in one pass over the events, with the collections that are open
on a stack.
-/
import ChipTiming.Keyed
import ChipTiming.Yaml.Event

namespace ChipTiming.Yaml

/-- A node of a document. -/
inductive Node where
  /-- The content of an empty document. -/
  | nothing
  | alias (number : Nat)
  | scalar (tag : Option TagText) (style : Style) (text : List Char)
  | sequence (items : List Node)
  | mapping (entries : List (Node × Node))

/-- A document. -/
structure Document where
  root : Node
  /-- Where the node of each anchor number begins, counted in events. -/
  anchors : List (Nat × Nat)
  /-- The nodes that have an anchor, by where they begin. -/
  anchored : List (Nat × Node)
  /-- How many events the document was made from. -/
  size : Nat

namespace Document

/-- The node that an anchor number stands for. -/
def target? (d : Document) (number : Nat) : Option Node :=
  (d.anchors.lookup number).bind fun place => d.anchored.lookup place

end Document

/-- A collection that has begun and not ended. -/
structure OpenCollection where
  isMapping : Bool
  hasAnchor : Bool
  /-- Where it began. -/
  place : Nat
  /-- The nodes in it, the last first. -/
  nodes : List Node

/-- The state of the pass. -/
structure Builder where
  place : Nat
  /-- The current number of each name. -/
  names : List (List Char × Nat)
  anchors : List (Nat × Nat)
  anchored : List (Nat × Node)
  pending : List OpenCollection
  root : Option Node
  isEnded : Bool

namespace Builder

/-- Before the first event. -/
def start : Builder := ⟨0, [], [], [], [], none, false⟩

/-- Gives the next number to an anchor on the event that is being read. -/
def name (b : Builder) : Option (List Char) → Builder
  | none => b
  | some name =>
    let number := b.names.length
    { b with
      names := put Prod.fst (name, number) b.names
      anchors := put Prod.fst (number, b.place) b.anchors }

/-- Adds a finished node to the collection that is open, or makes it the root. -/
def add (b : Builder) (node : Node) : Builder :=
  match b.pending with
  | [] => { b with root := some node }
  | c :: rest => { b with pending := { c with nodes := node :: c.nodes } :: rest }

/-- Records a finished node if it has an anchor. -/
def anchor (b : Builder) (hasAnchor : Bool) (place : Nat) (node : Node) : Builder :=
  if hasAnchor then { b with anchored := (place, node) :: b.anchored } else b

/-- Opens a collection. -/
def openCollection (b : Builder) (isMapping : Bool) (props : Properties) : Builder :=
  let named := b.name props.anchor
  { named with pending := ⟨isMapping, props.anchor.isSome, b.place, []⟩ :: b.pending }

/-- Keys with their values, from a list in which they alternate. -/
def pairs : List Node → List (Node × Node)
  | k :: v :: rest => (k, v) :: pairs rest
  | _ => []

/-- Closes the innermost collection. -/
def closeCollection? (b : Builder) : Option Builder :=
  match b.pending with
  | [] => none
  | c :: rest =>
    let nodes := c.nodes.reverse
    let node := if c.isMapping then Node.mapping (pairs nodes) else .sequence nodes
    some (({ b with pending := rest }.anchor c.hasAnchor c.place node).add node)

/-- Takes in one event of the document. -/
def content? (b : Builder) : Event → Option Builder
  | .alias name => (b.names.lookup name).map fun number => b.add (.alias number)
  | .scalar props style text =>
    let node := Node.scalar props.tag style text
    some (((b.name props.anchor).anchor props.anchor.isSome b.place node).add node)
  | .sequenceStart props => some (b.openCollection false props)
  | .mappingStart props => some (b.openCollection true props)
  | .sequenceEnd | .mappingEnd => b.closeCollection?
  | .documentEnd => some { b with isEnded := true }

/-- Takes in one event.  Nothing may come after the end of the document. -/
def step? (b : Builder) (event : Event) : Option Builder :=
  if b.isEnded then none
  else (b.content? event).map fun b => { b with place := b.place + 1 }

end Builder

/-- The one document that events describe; no events describe an empty document. -/
def Document.ofEvents? (events : List Event) : Option Document :=
  if events.isEmpty then some ⟨.nothing, [], [], 1⟩
  else do
    let b ← events.foldlM Builder.step? Builder.start
    let root ← b.root
    return ⟨root, b.anchors, b.anchored, b.place - 1⟩

end ChipTiming.Yaml
