import LakeSchema.Check.Table

/-!
# Consistent projects

A project is consistent when its identifiers are unique, its references and relationships lead to
fields that exist, and its metric relationships to a table and a metric view.
`Project.inconsistencies` lists every violation.
-/

namespace LakeSchema

namespace Project

/-- Whether a field exists; of tables with one identifier the last counts. -/
def holds (p : Project) (location : Location) : Bool :=
  match p.tables.reverse.find? (·.id == location.table) with
  | some t => t.fields.any (·.id == location.field)
  | none => false

def repeatedField (t : Table) (earlier : List Field) (f : Field) : List SchemaError :=
  if earlier.any (·.id == f.id) then
    [.duplicateEntity f.id ("field id appears twice in table '" ++ t.name ++ "'")]
  else []

def repeatedIds (earlier : List Table) (t : Table) : List SchemaError :=
  (if earlier.any (·.id == t.id) then [.duplicateEntity t.id "table id appears twice"] else []) ++
    withEarlier (repeatedField t) t.fields

def referenceProblems (p : Project) (t : Table) (f : Field) : List SchemaError :=
  match f.reference with
  | none => []
  | some r =>
    (if f.isForeignKey then []
      else [.validation f.id ("field '" ++ t.name ++ "." ++ f.name ++
        "' has a foreign key reference but is not flagged as a foreign key")]) ++
    (if p.holds r.target then []
      else [.referentialIntegrity f.id ("field '" ++ t.name ++ "." ++ f.name ++
        "' references missing field " ++ r.table ++ "." ++ r.field)])

/-- The ends of a relationship that have to exist, with their names in messages. -/
def endpoints (r : Relationship) : List (String × Location) :=
  [("source", r.source), ("target", r.fallback)] ++
    (if r.fkTable.isSome || r.fkField.isSome then [("foreign key", r.dependent)] else [])

def endpointProblem (p : Project) (r : Relationship) (ending : String × Location) :
    List SchemaError :=
  if p.holds ending.2 then []
  else
    [.referentialIntegrity r.id
      (ending.1 ++ " endpoint " ++ ending.2.table ++ "." ++ ending.2.field ++ " does not exist")]

def relationshipProblems (p : Project) (earlier : List Relationship) (r : Relationship) :
    List SchemaError :=
  (if earlier.any (·.id == r.id) then [.duplicateEntity r.id "relationship id appears twice"]
    else []) ++
    (endpoints r).flatMap (p.endpointProblem r)

def metricProblems (p : Project) (r : MetricRelationship) : List SchemaError :=
  (if p.tables.any (·.id == r.sourceTable) then []
    else [.referentialIntegrity r.id ("source table " ++ r.sourceTable ++ " does not exist")]) ++
  (if p.metricViews.any (·.id == r.metricView) then []
    else [.referentialIntegrity r.id ("metric view " ++ r.metricView ++ " does not exist")])

def inconsistencies (p : Project) : List SchemaError :=
  withEarlier repeatedIds p.tables ++
    p.tables.flatMap (fun t => t.fields.flatMap (p.referenceProblems t)) ++
    withEarlier p.relationshipProblems p.relationships ++
    p.metricRelationships.flatMap p.metricProblems

/-! ### Sources of views -/

/-- A view as these checks see it: what messages call it, and the tables that it reads. -/
structure Reader where
  title : String
  id : String
  name : String
  tables : List String

def readers (p : Project) : List Reader :=
  p.metricViews.map (fun v => ⟨"metric view", v.id, v.name, v.tables⟩) ++
    p.traditionalViews.map (fun v => ⟨"view", v.id, v.name, v.referencedTables⟩)

def readerProblems (p : Project) (earlier : List Reader) (v : Reader) : List SchemaError :=
  (if earlier.any (·.id == v.id) then [.duplicateEntity v.id "view id appears twice"] else []) ++
    v.tables.flatMap fun table =>
      if p.tables.any (·.id == table) then []
      else
        [.referentialIntegrity v.id
          (v.title ++ " '" ++ v.name ++ "' reads missing table " ++ table)]

/-- Views with repeated identifiers, and the missing tables that views read. Views may outlive
their tables while a project is edited, so this is no part of consistency. -/
def viewSourceProblems (p : Project) : List SchemaError :=
  withEarlier p.readerProblems p.readers

end Project
end LakeSchema
