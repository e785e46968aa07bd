import LakeSchema.Edit.TableEdit

/-!
# Importing tables

Tables and relationships join a project all together or not at all. An imported relationship makes
its dependent field a foreign key unless that is one already.
-/

namespace LakeSchema

structure Import where
  tables : List Table
  relationships : List Relationship
deriving DecidableEq

def Import.decode : Json → Decode Import :=
  Fields.decode "CatalogImport" <|
    (Fields.of Import.mk)
      |>.apply (Fields.orElse "tables" (Decode.list Table.decode) [])
      |>.apply (Fields.orElse "relationships" (Decode.list Relationship.decode) [])

structure ImportSummary where
  tables : List String
  relationships : List String
deriving DecidableEq

namespace Project

/-- The first identifier that a list of relationships repeats, known ones included. -/
def repeatedRelationship? (known : List String) : List Relationship → Option String
  | [] => none
  | r :: rest =>
    if known.contains r.id then some r.id else repeatedRelationship? (r.id :: known) rest

/-- Makes the dependent field of a relationship a foreign key, unless it is one. -/
def attachDependent (p : Project) (r : Relationship) : Project :=
  p.updateFieldAt r.dependent fun f =>
    match f.reference with
    | some _ => f
    | none =>
      f.attach { Reference.ofTarget r.source with constraintName := r.constraintName }
        (f.originByName ((p.field? r.source).map (·.name)))

def joinRelationship (p : Project) (r : Relationship) : Project :=
  let p := p.attachDependent r
  { p with relationships := p.relationships ++ [r] }

def merge (p : Project) (incoming : Import) (now : Timestamp) :
    Except SchemaError (ImportSummary × Project) :=
  match NamingConflict.all p.tables incoming.tables with
  | conflict :: _ => .error conflict.error
  | [] =>
    match repeatedRelationship? (p.relationships.map (·.id)) incoming.relationships with
    | some id => .error (.duplicateEntity id "relationship id already exists")
    | none =>
      let joined := { p with tables := p.tables ++ incoming.tables.map (·.touch now) }
      .ok (⟨incoming.tables.map (·.id), incoming.relationships.map (·.id)⟩,
        incoming.relationships.foldl joinRelationship joined)

end Project
end LakeSchema
