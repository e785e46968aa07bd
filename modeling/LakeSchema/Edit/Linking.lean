import LakeSchema.Compile.Graph
import LakeSchema.Edit.TableEdit

/-!
# Linking fields

Adding a relationship makes its dependent field a foreign key. A key can also be connected to a
table as a whole, which makes a field of the key's name there or finds one.
-/

namespace LakeSchema

/-- A request to connect a key to a table, with identifiers for what may have to be made. -/
structure Connection where
  key : Location
  table : String
  newField : String
  newRelationship : String
deriving DecidableEq

namespace Project

def requireRelationship (p : Project) (id : String) : Except SchemaError Relationship :=
  match p.relationship? id with
  | some r => .ok r
  | none => .error (.notFound .relationship id)

/-- The origin of a new foreign key: as requested, or as the names imply. -/
def newOrigin (p : Project) (spec : RelationshipSpec) (f : Field) : KeyOrigin :=
  spec.origin.getD (f.originByName ((p.field? spec.source).map (·.name)))

/-- Adds a relationship and makes its dependent field refer to its source. A relationship that
closes a cycle between tables is accepted here; only compilation needs an order. -/
def link (p : Project) (spec : RelationshipSpec) (now : Timestamp) :
    Except SchemaError (Relationship × Project) := do
  if (p.relationship? spec.id).isSome then
    .error (.duplicateEntity spec.id "relationship id already exists")
  p.checkEndpoints spec.id spec.source spec.dependent
  if spec.source = spec.dependent then
    .error (.validation spec.id "a field cannot reference itself")
  let attached := p.updateTable spec.dependent.table fun t =>
    { t with
      fields := updateFirst (·.id == spec.dependent.field)
        (fun f => f.attach spec.reference (p.newOrigin spec f)) t.fields
      updatedAt := now }
  pure (spec.relationship now,
    { attached with relationships := attached.relationships ++ [spec.relationship now] })

/-- Changes a relationship, and the constraint of its dependent field while that refers to its
source. -/
def updateRelationship (p : Project) (id : String) (patch : RelationshipPatch) (now : Timestamp) :
    Except SchemaError (Relationship × Project) := do
  let r ← p.requireRelationship id
  let next := { patch.apply r with updatedAt := now }
  let p := { p with relationships := updateFirst (·.id == id) (fun _ => next) p.relationships }
  let refers := (p.field? next.dependent).any (·.refersTo next.source)
  if refers then
    pure (next, p.updateTable next.dependent.table fun t =>
      { t with
        fields := updateFirst (·.id == next.dependent.field)
          (fun f => { f with reference := f.reference.map patch.applyToReference }) t.fields
        updatedAt := now })
  else pure (next, p)

/-- Removes a relationship and nothing else. -/
def removeLine (p : Project) (id : String) : Except SchemaError (Relationship × Project) := do
  let r ← p.requireRelationship id
  pure (r, { p with relationships := p.relationships.eraseP (·.id == id) })

/-! ### Connecting a key -/

def keyTwin (id : String) (key : Field) : Field :=
  (Field.plain id key.name key.dataType).adopt key

/-- The field that a connection uses: the first of the key's name with the key's shape, or a new one
at the end. -/
def connectable (t : Table) (connection : Connection) (key : Field) : String × Table :=
  match t.fieldNamed? key.name with
  | some f =>
    (f.id, { t with fields := updateFirst (·.id == f.id) (·.adopt key) t.fields })
  | none =>
    (connection.newField, { t with fields := t.fields ++ [keyTwin connection.newField key] })

def connect (p : Project) (connection : Connection) (now : Timestamp) :
    Except SchemaError (Relationship × Project) := do
  let keyTable ← p.requireTable connection.key.table
  let key ← requireField keyTable connection.key.field
  if connection.key.table = connection.table then
    .error (.validation key.id "a key cannot be connected to its own table by name")
  let t ← p.requireTable connection.table
  let (field, t) := connectable t connection key
  (p.updateTable connection.table fun _ => t).link
    { id := connection.newRelationship
      source := connection.key
      dependent := ⟨connection.table, field⟩
      cardinality := .oneToMany
      constraintName := none
      onDelete := .noAction
      onUpdate := .noAction
      origin := some .linked } now

end Project
end LakeSchema
