import LakeSchema.ForeignKey.Origin
import LakeSchema.Schema.Error

/-!
# Removing fields, relationships and tables

What is removed takes along whatever pointed at it. Deleting a relationship also settles its
dependent field: a linked one is removed, an independent one stays as a plain field. Deleting a
table settles all relationships that touch it in the same way.
-/

namespace LakeSchema

namespace Table

def detachWhere (t : Table) (condition : Field → Bool) (now : Timestamp) : Table :=
  if t.fields.any condition then
    { t with
      fields := t.fields.map fun f => if condition f then f.detach else f
      updatedAt := now }
  else t

end Table

inductive Reconciliation where
  /-- A linked field went with its relationship. -/
  | removed
  /-- An independent field stays as a plain field. -/
  | detached
  /-- The field refers to another key by now. -/
  | untouched
  /-- The field was gone before. -/
  | missing
  /-- The field is in the table that is deleted. -/
  | skipped
deriving DecidableEq

def Reconciliation.name : Reconciliation → String
  | removed => "removed"
  | detached => "detached"
  | untouched => "untouched"
  | missing => "missing"
  | skipped => "skipped"

structure TableDeletion where
  table : Table
  relationships : List String
  reconciled : List (String × Reconciliation)
deriving DecidableEq

namespace Project

/-! ### Fields -/

/-- Drops the relationships that touch a field and detaches the references to it. -/
def releaseField (p : Project) (location : Location) (now : Timestamp) : Project :=
  { p with
    relationships := p.relationships.filter fun r => !r.touchesField location
    tables := p.tables.map fun t => t.detachWhere (·.refersTo location) now }

/-- Removes a field with everything that pointed at it. -/
def purgeField (p : Project) (location : Location) (now : Timestamp) : Project :=
  (p.updateTable location.table fun t =>
    { t with
      fields := t.fields.filter (·.id != location.field)
      updatedAt := now }).releaseField location now

def detachField (p : Project) (location : Location) (now : Timestamp) : Project :=
  p.updateTable location.table fun t =>
    { t with
      fields := updateFirst (·.id == location.field) Field.detach t.fields
      updatedAt := now }

/-! ### Relationships -/

/-- What has to become of the dependent field of a relationship. -/
def verdict (p : Project) (policy : OriginPolicy) (r : Relationship) : Reconciliation :=
  match p.field? r.dependent with
  | none => .missing
  | some f =>
    if f.reference.any fun reference => reference.target != r.source then .untouched
    else
      match f.originUnder policy ((p.field? r.source).map (·.name)) with
      | .linked => .removed
      | .independent => .detached

def reconcile (p : Project) (policy : OriginPolicy) (r : Relationship) (now : Timestamp) :
    Reconciliation × Project :=
  let verdict := p.verdict policy r
  match verdict with
  | .removed => (verdict, p.purgeField r.dependent now)
  | .detached => (verdict, p.detachField r.dependent now)
  | .untouched | .missing | .skipped => (verdict, p)

/-- Deletes a relationship, which fails when its dependent field does not exist. -/
def deleteRelationship (p : Project) (policy : OriginPolicy) (id : String) (now : Timestamp) :
    Except SchemaError ((Relationship × Reconciliation) × Project) :=
  match p.relationship? id with
  | none => .error (.notFound .relationship id)
  | some r =>
    match p.reconcile policy r now with
    | (.missing, _) =>
      .error (.referentialIntegrity r.id ("dependent field " ++ r.dependent.table ++ "." ++
        r.dependent.field ++ " does not exist"))
    | (outcome, p) =>
      .ok ((r, outcome), { p with relationships := p.relationships.filter (·.id != r.id) })

/-! ### Tables -/

/-- Settles the dependent fields of relationships one after the other, apart from those in a table
that is deleted anyway. -/
def reconcileAll (policy : OriginPolicy) (table : String) (now : Timestamp) :
    List Relationship → Project → List (String × Reconciliation) × Project
  | [], p => ([], p)
  | r :: rest, p =>
    let (outcome, p) :=
      if r.dependent.table == table then (.skipped, p) else p.reconcile policy r now
    let (others, p) := reconcileAll policy table now rest p
    ((r.id, outcome) :: others, p)

/-- Takes a table out, with everything that pointed into it. `gone` are the identifiers of
relationships that go with it in any case. -/
def dropTable (p : Project) (table : String) (gone : List String) (now : Timestamp) : Project :=
  { p with
    tables := (p.tables.eraseP (·.id == table)).map fun t =>
      t.detachWhere (·.refersInto table) now
    relationships := p.relationships.filter fun r =>
      !gone.contains r.id && !r.touchesTable table
    metricRelationships := p.metricRelationships.filter (·.sourceTable != table) }

def deleteTable (p : Project) (policy : OriginPolicy) (id : String) (now : Timestamp) :
    Except SchemaError (TableDeletion × Project) :=
  match p.table? id with
  | none => .error (.notFound .table id)
  | some _ =>
    let touching := p.relationships.filter (·.touchesTable id)
    let gone := touching.map (·.id)
    let (reconciled, settled) := reconcileAll policy id now touching p
    match settled.table? id with
    | none => .error (.notFound .table id)
    | some table => .ok (⟨table, gone, reconciled⟩, settled.dropTable id gone now)

end Project
end LakeSchema
