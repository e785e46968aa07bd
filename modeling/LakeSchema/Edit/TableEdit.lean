import LakeSchema.Check.Table
import LakeSchema.Edit.Change
import LakeSchema.Edit.Removal
import LakeSchema.ForeignKey.Propagation

/-!
# Editing tables and fields

Every edit of a field list goes through `Project.patchTable`: fields that leave the list take along
what pointed at them, and keys that changed shape bring their foreign keys in line.
-/

namespace LakeSchema

namespace Name

/-- Reports a bad name as an error of the entity that would have it. -/
def accept (entity : String) : Option NameError → Except SchemaError Unit
  | none => .ok ()
  | some problem => .error (.validation entity problem.message)

end Name

namespace Project

def requireTable (p : Project) (id : String) : Except SchemaError Table :=
  match p.table? id with
  | some t => .ok t
  | none => .error (.notFound .table id)

def requireField (t : Table) (id : String) : Except SchemaError Field :=
  match t.field? id with
  | some f => .ok f
  | none => .error (.notFound .field id)

/-! ### Tables -/

def addTable (p : Project) (spec : TableSpec) (now : Timestamp) :
    Except SchemaError (Table × Project) := do
  Name.accept spec.id (Name.tableProblem? spec.name)
  spec.fields.forM fun f => Name.accept f.id (Name.fieldProblem? f.name)
  if (p.table? spec.id).isSome then .error (.duplicateEntity spec.id "table id already exists")
  else .ok (spec.table now, { p with tables := p.tables ++ [spec.table now] })

/-- The fields of a table that are not in a new field list. -/
def leavingFields (prior : Table) (fields : List Field) : List Field :=
  prior.fields.filter fun f => !fields.any (·.id == f.id)

/-- The primary keys of a new field list whose shape differs from before. -/
def changedKeys (prior : Table) (fields : List Field) : List KeyChange :=
  (fields.filter (·.isPrimaryKey)).filterMap fun f =>
    ((prior.field? f.id).filter (·.shapeChanged f)).map fun before => ⟨prior.id, before, f⟩

/-- Whether a field that was renamed now has the name of another field of its table. -/
def nameClash? (p : Project) (synced : SyncedField) : Option SchemaError := do
  let t ← p.table? synced.table
  let f ← t.field? synced.field
  if t.fields.any fun other => other.id != f.id && Text.sameIgnoringCase other.name f.name then
    some (.validation f.id ("renaming foreign key to '" ++ f.name ++
      "' collides with another field of table '" ++ t.name ++ "'"))
  else none

/-- Brings foreign keys in line with one key after the other. A rename onto a taken name fails. -/
def propagateAll (policy : OriginPolicy) (now : Timestamp) :
    List KeyChange → Project → Except SchemaError Project
  | [], p => .ok p
  | change :: rest, p =>
    let (synced, p) := p.propagate policy change now
    match (synced.filter (·.renamed)).findSome? p.nameClash? with
    | some error => .error error
    | none => propagateAll policy now rest p

def releaseAll (p : Project) (table : String) (fields : List Field) (now : Timestamp) : Project :=
  fields.foldl (fun p f => p.releaseField ⟨table, f.id⟩ now) p

def patchEffects (prior : Table) : Change (List Field) → List Field × List KeyChange
  | .keep => ([], [])
  | .set fields => (leavingFields prior fields, changedKeys prior fields)

def patchTable (p : Project) (policy : OriginPolicy) (id : String) (patch : TablePatch)
    (now : Timestamp) : Except SchemaError (Table × Project) := do
  let prior ← p.requireTable id
  let next := (patch.apply prior).touch now
  if patch.name.isSet then Name.accept id (Name.tableProblem? next.name)
  let (leaving, changed) := patchEffects prior patch.fields
  let released := (p.updateTable id fun _ => next).releaseAll id leaving now
  let synced ← propagateAll policy now changed released
  let result ← synced.requireTable id
  pure (result, synced)

/-! ### Fields -/

def addField (p : Project) (policy : OriginPolicy) (table : String) (f : Field) (now : Timestamp) :
    Except SchemaError (Field × Project) := do
  let t ← p.requireTable table
  Name.accept f.id (Name.fieldProblem? f.name)
  if (t.field? f.id).isSome then
    .error (.duplicateEntity f.id ("field id already exists in table '" ++ t.name ++ "'"))
  else
    let (_, p) ← p.patchTable policy table (.ofFields (t.fields ++ [f])) now
    pure (f, p)

def updateField (p : Project) (policy : OriginPolicy) (table id : String) (patch : FieldPatch)
    (now : Timestamp) : Except SchemaError (Field × Project) := do
  let t ← p.requireTable table
  let f ← requireField t id
  Name.accept id (Name.fieldProblem? (patch.apply f).name)
  let fields := updateFirst (·.id == id) patch.apply t.fields
  let (t, p) ← p.patchTable policy table (.ofFields fields) now
  let f ← requireField t id
  pure (f, p)

def deleteField (p : Project) (policy : OriginPolicy) (table id : String) (now : Timestamp) :
    Except SchemaError (Field × Project) := do
  let t ← p.requireTable table
  let f ← requireField t id
  let (_, p) ← p.patchTable policy table (.ofFields (t.fields.filter (·.id != id))) now
  pure (f, p)

end Project
end LakeSchema
