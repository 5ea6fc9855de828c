/-
From tokens to events.

Events are the document with its structure made explicit: every collection has a
beginning and an end, whichever way it was written, and a node that was left out
is an empty plain scalar.  A tag's handle is replaced by what it stands for.

The grammar is run by a machine with a stack.  A `Frame` says what may come next
and is left on the stack for what comes after a node inside it; each step looks at
the next token and produces one event.
-/
import ChipTiming.Yaml.Cursor
import ChipTiming.Yaml.Token.Basic

namespace ChipTiming.Yaml

/-- What may be attached to a node: an anchor and a tag. -/
structure Properties where
  anchor : Option (List Char)
  tag : Option TagText
  deriving DecidableEq, Repr

/-- A part of a document. -/
inductive Event where
  | alias (name : List Char)
  | scalar (properties : Properties) (style : Style) (text : List Char)
  | sequenceStart (properties : Properties)
  | sequenceEnd
  | mappingStart (properties : Properties)
  | mappingEnd
  | documentEnd
  deriving DecidableEq, Repr

/-- What is expected next. -/
inductive Frame where
  | documentStart (isFirst : Bool)
  | documentContent
  | documentEnd
  | blockNode
  | blockSequence (isFirst : Bool)
  /-- A sequence in a mapping, indented no further than its key. -/
  | indentlessSequence
  | blockMappingKey (isFirst : Bool)
  | blockMappingValue
  | flowSequence (isFirst : Bool)
  /-- The parts of a single pair in a flow sequence, which is a mapping of its own. -/
  | flowPairKey
  | flowPairValue
  | flowPairEnd
  | flowMappingKey (isFirst : Bool)
  | flowMappingValue
  /-- The value of a key after which no colon can come. -/
  | flowMappingNoValue
  deriving DecidableEq, Repr

/-- The state of the machine. -/
structure Machine where
  tokens : List Token
  frame : Frame
  stack : List Frame
  /-- What the handles of tags stand for. -/
  handles : List (TagText × TagText)
  /-- Whether the stream of documents has ended. -/
  isDone : Bool

namespace Machine

/-! ### Small moves -/

/-- An empty plain scalar. -/
def emptyScalar : Event := .scalar ⟨none, none⟩ .plain []

/-- Past the next token. -/
def advance (m : Machine) : Machine := { m with tokens := m.tokens.drop 1 }

/-- Continues with what is on top of the stack. -/
def pop? (m : Machine) : Option Machine :=
  match m.stack with
  | frame :: stack => some { m with frame, stack }
  | [] => none

/-- Continues with a frame. -/
def goTo (m : Machine) (frame : Frame) : Machine := { m with frame }

/-- Leaves a frame for later. -/
def push (m : Machine) (frame : Frame) : Machine := { m with stack := frame :: m.stack }

/-- Whether the next token is this one. -/
def sees (m : Machine) (t : Token) : Bool := m.tokens.head? == some t

/-- Whether the next token is one of these. -/
def seesAny (m : Machine) (ts : List Token) : Bool := ts.any m.sees

/-! ### Nodes -/

/-- The tag that a handle and a suffix stand for. -/
def resolveTag? (m : Machine) (handle suffix : TagText) : Option TagText :=
  if handle.isEmpty then some suffix else (m.handles.lookup handle).map (· ++ suffix)

/-- The anchor and tag in front of a node, in either order. -/
def properties? (m : Machine) : Option (Properties × Machine) :=
  match m.tokens with
  | .anchor name :: .tag handle suffix :: rest =>
    (m.resolveTag? handle suffix).map fun tag => (⟨some name, some tag⟩, { m with tokens := rest })
  | .anchor name :: rest => some (⟨some name, none⟩, { m with tokens := rest })
  | .tag handle suffix :: .anchor name :: rest =>
    (m.resolveTag? handle suffix).map fun tag => (⟨some name, some tag⟩, { m with tokens := rest })
  | .tag handle suffix :: rest =>
    (m.resolveTag? handle suffix).map fun tag => (⟨none, some tag⟩, { m with tokens := rest })
  | _ => some (⟨none, none⟩, m)

/-- The beginning of a node. -/
def node? (m : Machine) (inBlock indentless : Bool) : Option (Event × Machine) :=
  match m.tokens with
  | .alias name :: _ => m.advance.pop?.map (.alias name, ·)
  | _ => do
    let (props, m) ← m.properties?
    match m.tokens.head? with
    | some (.scalar style text) =>
      let m ← m.advance.pop?
      return (.scalar props style text, m)
    | some .flowSequenceStart => return (.sequenceStart props, m.goTo (.flowSequence true))
    | some .flowMappingStart => return (.mappingStart props, m.goTo (.flowMappingKey true))
    | next =>
      if indentless && next = some .blockEntry then
        return (.sequenceStart props, m.goTo .indentlessSequence)
      else if inBlock && next = some .blockSequenceStart then
        return (.sequenceStart props, m.goTo (.blockSequence true))
      else if inBlock && next = some .blockMappingStart then
        return (.mappingStart props, m.goTo (.blockMappingKey true))
      else if props.anchor.isSome || props.tag.isSome then
        let m ← m.pop?
        return (.scalar props .plain [], m)
      else none

/-- A node after which `later` is expected, or an empty scalar if one of the tokens
`absent` shows that it was left out. -/
def nodeUnless? (m : Machine) (absent : List Token) (inBlock indentless : Bool) (later : Frame) :
    Option (Event × Machine) :=
  if m.seesAny absent then some (emptyScalar, m.goTo later)
  else (m.push later).node? inBlock indentless

/-! ### Documents -/

/-- The handles that need no directive. -/
def defaultHandles : List (TagText × TagText) :=
  [(TagText.ofString "!", TagText.ofString "!"),
    (TagText.ofString "!!", TagText.ofString "tag:yaml.org,2002:")]

/-- The directives of a document: at most one version, which must be 1.1 or 1.2, and
at most one for each handle. -/
def directives? (seenVersion : Bool) (handles : List (TagText × TagText)) :
    List Token → Option (List (TagText × TagText) × List Token)
  | .versionDirective major minor :: rest =>
    if seenVersion || major ≠ 1 || !(minor = 1 || minor = 2) then none
    else directives? true handles rest
  | .tagDirective handle stem :: rest =>
    if (handles.lookup handle).isSome then none
    else directives? seenVersion (handles ++ [(handle, stem)]) rest
  | rest => some (handles ++ defaultHandles, rest)

/-- Whether a token can only stand at the beginning or the end of a document. -/
def isBoundary : Token → Bool
  | .versionDirective .. | .tagDirective .. | .documentStart | .documentEnd => true
  | _ => false

/-- A document without a marker in front of it, which only the first one can be. -/
def bareDocument (m : Machine) : Machine :=
  { m with frame := .blockNode, stack := .documentEnd :: m.stack, handles := defaultHandles }

/-- The beginning of a document, or the end of the stream; neither is an event of its
own. -/
def document? (m : Machine) (isFirst : Bool) : Option Machine := do
  let tokens := if isFirst then m.tokens else m.tokens.dropWhile (· = .documentEnd)
  match tokens with
  | [] => return { m with tokens, isDone := true }
  | t :: _ =>
    if isFirst && !(isBoundary t && t != .documentEnd) then return bareDocument m
    let (handles, rest) ← directives? false [] tokens
    match rest with
    | .documentStart :: rest =>
      return { m with
        tokens := rest, frame := .documentContent, stack := .documentEnd :: m.stack, handles }
    | _ => none

/-! ### Steps -/

/-- One event, according to what is expected. -/
def step? (m : Machine) : Option (Option Event × Machine) :=
  let emit (result : Option (Event × Machine)) : Option (Option Event × Machine) :=
    result.map fun (event, m) => (some event, m)
  match m.frame with
  | .documentStart isFirst => (m.document? isFirst).map (none, ·)
  | .documentContent =>
    if m.tokens.isEmpty || m.tokens.head?.any isBoundary then
      m.pop?.map (some emptyScalar, ·)
    else emit (m.node? true false)
  | .documentEnd =>
    let m := if m.sees .documentEnd then m.advance else m
    some (some .documentEnd, m.goTo (.documentStart false))
  | .blockNode => emit (m.node? true false)
  | .blockSequence isFirst =>
    let m := if isFirst then m.advance else m
    if m.sees .blockEntry then
      emit (m.advance.nodeUnless? [.blockEntry, .blockEnd] true false (.blockSequence false))
    else if m.sees .blockEnd then m.advance.pop?.map (some .sequenceEnd, ·)
    else none
  | .indentlessSequence =>
    if m.sees .blockEntry then
      emit (m.advance.nodeUnless? [.blockEntry, .key, .value, .blockEnd] true false
        .indentlessSequence)
    else m.pop?.map (some .sequenceEnd, ·)
  | .blockMappingKey isFirst =>
    let m := if isFirst then m.advance else m
    if m.sees .key then
      emit (m.advance.nodeUnless? [.key, .value, .blockEnd] true true .blockMappingValue)
    else if m.sees .blockEnd then m.advance.pop?.map (some .mappingEnd, ·)
    else none
  | .blockMappingValue =>
    if m.sees .value then
      emit (m.advance.nodeUnless? [.key, .value, .blockEnd] true true (.blockMappingKey false))
    else some (some emptyScalar, m.goTo (.blockMappingKey false))
  | .flowSequence isFirst => do
    let m := if isFirst then m.advance else m
    if m.sees .flowSequenceEnd then return (some .sequenceEnd, ← m.advance.pop?)
    let m ← if isFirst then some m else if m.sees .flowEntry then some m.advance else none
    if m.sees .key then return (some (.mappingStart ⟨none, none⟩), m.advance.goTo .flowPairKey)
    else if m.sees .flowSequenceEnd then return (some .sequenceEnd, ← m.advance.pop?)
    else emit ((m.push (.flowSequence false)).node? false false)
  | .flowPairKey =>
    if m.seesAny [.value, .flowEntry, .flowSequenceEnd] then
      some (some emptyScalar, m.advance.goTo .flowPairValue)
    else emit ((m.push .flowPairValue).node? false false)
  | .flowPairValue =>
    if m.sees .value then
      emit (m.advance.nodeUnless? [.flowEntry, .flowSequenceEnd] false false .flowPairEnd)
    else some (some emptyScalar, m.goTo .flowPairEnd)
  | .flowPairEnd => some (some .mappingEnd, m.goTo (.flowSequence false))
  | .flowMappingKey isFirst => do
    let m := if isFirst then m.advance else m
    if m.sees .flowMappingEnd then return (some .mappingEnd, ← m.advance.pop?)
    let m ← if isFirst then some m else if m.sees .flowEntry then some m.advance else none
    if m.sees .key then
      emit (m.advance.nodeUnless? [.value, .flowEntry, .flowMappingEnd] false false
        .flowMappingValue)
    else if m.sees .flowMappingEnd then return (some .mappingEnd, ← m.advance.pop?)
    else emit ((m.push .flowMappingNoValue).node? false false)
  | .flowMappingValue =>
    if m.sees .value then
      emit (m.advance.nodeUnless? [.flowEntry, .flowMappingEnd] false false (.flowMappingKey false))
    else some (some emptyScalar, m.goTo (.flowMappingKey false))
  | .flowMappingNoValue => some (some emptyScalar, m.goTo (.flowMappingKey false))

end Machine

/-- The events of a stream of tokens.  Every event but the empty scalars and the ends
of collections uses up a token, and each token allows for a bounded number of
those. -/
def events? (tokens : List Token) : Option (List Event) :=
  repeatStep (fun ((m : Machine), (events : Array Event)) =>
    if m.isDone then some (.inr events.toList)
    else m.step?.map fun (event, m) => .inl (m, match event with
      | some event => events.push event
      | none => events)) (8 * tokens.length + 16)
    (⟨tokens, .documentStart true, [], [], false⟩, #[])

end ChipTiming.Yaml
