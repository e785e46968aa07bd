import LakeSchema.Yaml.Node

/-!
# Reading YAML

`Yaml.read?` gives the JSON value of a document. Keys are texts as they are written. Plain scalars
denote what `Yaml.meaning` says; a standard tag can ask for a certain kind of value, and a local one
that is a text is refused.
-/

namespace LakeSchema.Yaml

/-! ### Scalars -/

/-- A local tag that is a text names a variant, and no value is one. A local tag that is no text
says nothing. -/
def namesVariant (tag : Option Tag) : Bool :=
  tag.any fun tag => tag.isLocal && tag.isText

def Meaning.json? : Meaning → String → Option Json
  | .text, s => some (.string s)
  | .value v, _ => some v
  | .tooLarge, _ => none

/-- The value of a scalar that a tag declares to be of a kind. -/
def tagged? (tag : Tag) (text : String) : Option Json :=
  if tag == Tag.standard "bool" then
    if trueWords.contains text then some (.bool true)
    else if falseWords.contains text then some (.bool false)
    else none
  else if tag == Tag.standard "int" then
    match (whole? text.toList).bind wholeMeaning with
    | some meaning => meaning.json? text
    | none => none
  else if tag == Tag.standard "float" then
    if isUnbounded text then some .null
    else (real? text.toList).map fun x => .number (.real x)
  else if tag == Tag.standard "null" then
    if text != "" && nullWords.contains text then some .null else none
  else some (.string text)

def scalar? (text : String) ( isPlain : Bool) (tag : Option Tag) : Option Json :=
  match tag.filter fun tag => !tag.isLocal with
  | some tag => tagged? tag text
  | none =>
    if namesVariant tag then none
    else if isPlain then (meaning text).json? text
    else some (.string text)

/-! ### Values -/

def maxDepth : Nat :=
  128

/-- Reading a value may follow only so many more aliases. -/
abbrev Limited (α : Type) := StateT Nat Option α

/-- The node itself, or the one that it stands for. -/
def follow (anchors : Anchors) : Node → Limited Node
  | .aliasOf number => fun left =>
    match left, anchors.node? number with
    | left + 1, some node => some (node, left)
    | _, _ => none
  | node => pure node

def keyName (anchors : Anchors) (key : Node) : Limited String := do
  match ← follow anchors key with
  | .scalar text _ _ => pure text
  | _ => failure

/-- The members of the entries of a mapping; of two with one key the later stays. -/
def members (anchors : Anchors) (value : Node → Limited Json) :
    Json.Members → List (Node × Node) → Limited Json.Members
  | found, [] => pure found
  | found, (key, entry) :: rest => do
    let name ← keyName anchors key
    let v ← value entry
    members anchors value (found.put name v) rest

/-- The value of a node with collections nested in it at most `depth` deep. -/
def valueWithin (anchors : Anchors) : (depth : Nat) → Node → Limited Json
  | depth, node => do
    match ← follow anchors node, depth with
    | .scalar text isPlain tag, _ =>
      match scalar? text isPlain tag with
      | some v => pure v
      | none => failure
    | .sequence items tag, depth + 1 =>
      if namesVariant tag then failure else .array <$> items.mapM (valueWithin anchors depth)
    | .mapping entries tag, depth + 1 =>
      if namesVariant tag then failure
      else .object <$> members anchors (valueWithin anchors depth) [] entries
    | _, _ => failure

def read? (text : String) : Option Json := do
  let (node, anchors) ← node? text
  let (value, _) ← (valueWithin anchors maxDepth node).run (100 * node.size)
  some value

end LakeSchema.Yaml
