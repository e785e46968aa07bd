import LakeSchema.Yaml.Token

/-!
# YAML nodes

The tree of a document, made from its tokens. Aliases stand for nodes by number, so that a node may
occur in several places without being copied.
-/

namespace LakeSchema.Yaml

inductive Node where
  | scalar (text : String) ( isPlain : Bool) (tag : Option Tag)
  | aliasOf (number : Nat)
  | sequence (items : List Node) (tag : Option Tag)
  | mapping (entries : List (Node × Node)) (tag : Option Tag)

namespace Node

/-- What stands where a node is left out. -/
def empty : Node :=
  .scalar "" true none

mutual

/-- The size of a node in scalars, aliases, and beginnings and ends of collections. -/
def size : Node → Nat
  | scalar .. | aliasOf _ => 1
  | sequence items _ => sizeOfItems items + 2
  | mapping entries _ => sizeOfEntries entries + 2

def sizeOfItems : List Node → Nat
  | [] => 0
  | item :: rest => size item + sizeOfItems rest

def sizeOfEntries : List (Node × Node) → Nat
  | [] => 0
  | (key, value) :: rest => size key + size value + sizeOfEntries rest

end
end Node

/-- The anchors met so far. An anchor gets as its number how many names were in use when it was set;
of several nodes with one number the one that begins last counts. -/
structure Anchors where
  numbers : List (String × Nat)
  /-- For each number the node that counts, by its place among the anchored ones. -/
  places : List (Nat × Nat)
  /-- The anchored nodes by their places. -/
  nodes : List (Nat × Node)
  count : Nat

namespace Anchors

def none : Anchors :=
  ⟨[], [], [], 0⟩

/-- Sets an anchor where its node begins. -/
def set (a : Anchors) (name : String) : Anchors :=
  let number := a.numbers.length
  { a with
    numbers := (name, number) :: a.numbers.filter (·.1 != name)
    places := (number, a.count) :: a.places
    count := a.count + 1 }

def node? (a : Anchors) (number : Nat) : Option Node :=
  (a.places.lookup number).bind fun place => a.nodes.lookup place

end Anchors

/-- What reading a tree works on: the tokens left, the anchors, and the meanings of tag handles. -/
structure Parse where
  tokens : List Token
  anchors : Anchors
  handles : List (String × Tag)

abbrev Parser (α : Type) := StateT Parse Option α

namespace Parser

def peek : Parser Token := do
  match (← get).tokens with
  | token :: _ => pure token
  | [] => failure

def drop : Parser Unit :=
  modify fun p => { p with tokens := p.tokens.drop 1 }

def expect (token : Token) : Parser Unit := do
  if (← peek) == token then drop else failure

/-! ### Directives -/

/-- The handles that need no directive. -/
def standardHandles : List (String × Tag) :=
  [("!", Tag.ofText "!"), ("!!", Tag.standardLead)]

/-- Reads the directives in front of a document, at most one of them a version. -/
def directives : (rounds : Nat) → (version : Bool) → Parser Unit
  | 0, _ => failure
  | rounds + 1, version => do
    match ← peek with
    | .version major minor =>
      if version || major != 1 || (minor != 1 && minor != 2) then failure
      drop
      directives rounds true
    | .tagDirective handle lead =>
      if ((← get).handles.lookup handle).isSome then failure
      modify fun p => { p with handles := (handle, lead) :: p.handles }
      drop
      directives rounds version
    | _ =>
      modify fun p =>
        { p with
          handles := p.handles ++
            standardHandles.filter fun handle => (p.handles.lookup handle.1).isNone }

/-! ### Properties of nodes -/

/-- The anchor and the tag of a node, in either order. -/
structure Properties where
  anchor : Option String
  tag : Option Tag

def resolve (handle : String) (suffix : Tag) : Parser Tag := do
  if handle == "" then pure suffix
  else
    match (← get).handles.lookup handle with
    | some lead => pure (lead ++ suffix)
    | none => failure

def anchor? : Parser (Option String) := do
  match ← peek with
  | .anchor name => do drop; pure (some name)
  | _ => pure none

def tag? : Parser (Option Tag) := do
  match ← peek with
  | .tag handle suffix => do drop; some <$> resolve handle suffix
  | _ => pure none

def properties : Parser Properties := do
  match ← anchor? with
  | some name => do pure ⟨some name, ← tag?⟩
  | none =>
    match ← tag? with
    | some tag => do pure ⟨← anchor?, some tag⟩
    | none => pure ⟨none, none⟩

/-- Reads the content of a node with an anchor, which is set before the content is read. -/
def anchored (name : Option String) (content : Parser Node) : Parser Node := do
  match name with
  | none => content
  | some name => do
    let place := (← get).anchors.count
    modify fun p => { p with anchors := p.anchors.set name }
    let node ← content
    modify fun p =>
      { p with anchors := { p.anchors with nodes := (place, node) :: p.anchors.nodes } }
    pure node

/-! ### Nodes -/

/-- Where a node stands: in a flow collection, in a block, or as an entry of a block mapping, whose
sequences need no indentation. -/
inductive Context where
  | flow
  | block
  | entry
deriving DecidableEq

mutual

def node : (fuel : Nat) → Context → Parser Node
  | 0, _ => failure
  | fuel + 1, context => do
    match ← peek with
    | .aliasOf name =>
      drop
      match (← get).anchors.numbers.lookup name with
      | some number => pure (.aliasOf number)
      | none => failure
    | _ =>
      let properties ← properties
      anchored properties.anchor (content fuel context properties)

/-- The content of a node after its properties. With properties it may be left out. -/
def content : (fuel : Nat) → Context → Properties → Parser Node
  | 0, _, _ => failure
  | fuel + 1, context, properties => do
    let tag := properties.tag
    match ← peek, context with
    | .blockEntry, .entry => do pure (.sequence (← plainEntries fuel) tag)
    | .scalar text isPlain, _ => do drop; pure (.scalar text isPlain tag)
    | .flowSequence, _ => do drop; pure (.sequence (← flowItems fuel true) tag)
    | .flowMapping, _ => do drop; pure (.mapping (← flowEntries fuel true) tag)
    | .blockSequence, .block | .blockSequence, .entry => do
      drop
      pure (.sequence (← blockEntries fuel) tag)
    | .blockMapping, .block | .blockMapping, .entry => do
      drop
      pure (.mapping (← blockPairs fuel) tag)
    | _, _ =>
      if properties.anchor.isSome || tag.isSome then pure (.scalar "" true tag) else failure

/-- A node, or an empty one when one of the given tokens comes next. -/
def nodeUnless : (fuel : Nat) → Context → List Token → Parser Node
  | 0, _, _ => failure
  | fuel + 1, context, ends => do
    if ends.contains (← peek) then pure .empty else node fuel context

def blockEntries : (fuel : Nat) → Parser (List Node)
  | 0 => failure
  | fuel + 1 => do
    match ← peek with
    | .blockEntry =>
      drop
      let item ← nodeUnless fuel .block [.blockEntry, .blockEnd]
      pure (item :: (← blockEntries fuel))
    | .blockEnd => do drop; pure []
    | _ => failure

/-- The entries of a sequence that is not indented further than the mapping around it. -/
def plainEntries : (fuel : Nat) → Parser (List Node)
  | 0 => failure
  | fuel + 1 => do
    match ← peek with
    | .blockEntry =>
      drop
      let item ← nodeUnless fuel .block [.blockEntry, .key, .value, .blockEnd]
      pure (item :: (← plainEntries fuel))
    | _ => pure []

def blockValue : (fuel : Nat) → Parser Node
  | 0 => failure
  | fuel + 1 => do
    if (← peek) == .value then
      drop
      nodeUnless fuel .entry [.key, .value, .blockEnd]
    else pure .empty

def blockPairs : (fuel : Nat) → Parser (List (Node × Node))
  | 0 => failure
  | fuel + 1 => do
    match ← peek with
    | .key =>
      drop
      let key ← nodeUnless fuel .entry [.key, .value, .blockEnd]
      let value ← blockValue fuel
      pure ((key, value) :: (← blockPairs fuel))
    | .blockEnd => do drop; pure []
    | _ => failure

def flowValue : (fuel : Nat) → (ending : Token) → Parser Node
  | 0, _ => failure
  | fuel + 1, ending => do
    if (← peek) == .value then
      drop
      nodeUnless fuel .flow [.flowEntry, ending]
    else pure .empty

/-- A mapping of one entry inside a flow sequence. A key that is left out takes the next token with
it. -/
def flowPair : (fuel : Nat) → Parser Node
  | 0 => failure
  | fuel + 1 => do
    let next ← peek
    let key ←
      if next == .value || next == .flowEntry || next == .flowSequenceEnd then do
        drop
        pure .empty
      else node fuel .flow
    let value ← flowValue fuel .flowSequenceEnd
    pure (.mapping [(key, value)] none)

def flowItems : (fuel : Nat) → (first : Bool) → Parser (List Node)
  | 0, _ => failure
  | fuel + 1, first => do
    if (← peek) == .flowSequenceEnd then do drop; pure []
    else
      if !first then expect .flowEntry
      match ← peek with
      | .flowSequenceEnd => do drop; pure []
      | .key => do
        drop
        let item ← flowPair fuel
        pure (item :: (← flowItems fuel false))
      | _ =>
        let item ← node fuel .flow
        pure (item :: (← flowItems fuel false))

def flowEntries : (fuel : Nat) → (first : Bool) → Parser (List (Node × Node))
  | 0, _ => failure
  | fuel + 1, first => do
    if (← peek) == .flowMappingEnd then do drop; pure []
    else
      if !first then expect .flowEntry
      match ← peek with
      | .flowMappingEnd => do drop; pure []
      | .key => do
        drop
        let key ← nodeUnless fuel .flow [.value, .flowEntry, .flowMappingEnd]
        let value ← flowValue fuel .flowMappingEnd
        pure ((key, value) :: (← flowEntries fuel false))
      | _ =>
        let key ← node fuel .flow
        pure ((key, .empty) :: (← flowEntries fuel false))

end

/-! ### Documents -/

/-- Nothing but marks that end documents may follow. -/
def finished (rest : List Token) : Bool :=
  rest.dropWhile (· == .documentEnd) == [.streamEnd]

/-- The one document of a text, which begins with a mark if it has directives. -/
def document (fuel : Nat) : Parser Node := do
  match ← peek with
  | .version .. | .tagDirective .. | .documentStart =>
    directives fuel false
    expect .documentStart
    nodeUnless fuel .block [.documentEnd, .streamEnd]
  | _ =>
    directives fuel false
    node fuel .block

end Parser

/-- The tree of a text of one document, with the anchors in it. -/
def node? (text : String) : Option (Node × Anchors) := do
  let tokens ← tokens? text
  if tokens == [.streamEnd] then some (.empty, .none)
  else
    let (node, parse) ←
      (Parser.document (4 * tokens.length + 4)).run ⟨tokens, .none, []⟩
    if Parser.finished parse.tokens then some (node, parse.anchors) else none

end LakeSchema.Yaml
