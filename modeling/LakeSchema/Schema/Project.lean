import LakeSchema.Schema.Relationship
import LakeSchema.Schema.View

/-!
# Projects

A project holds the tables, relationships and views of one schema in one catalog. Entities are
found by their identifier, the first of several counting.
-/

namespace LakeSchema

structure Project where
  id : String
  name : String
  catalogName : String
  schemaName : String
  version : String
  description : Option String
  createdBy : Option String
  /-- State of the canvas, of no meaning here. -/
  canvasSettings : Option Json
  createdAt : Timestamp
  updatedAt : Timestamp
  tables : List Table
  relationships : List Relationship
  metricViews : List MetricView
  traditionalViews : List TraditionalView
  metricRelationships : List MetricRelationship
deriving DecidableEq

namespace Project

def firstVersion : String :=
  "1.0"

def empty (id name catalog schema : String) (now : Timestamp) : Project :=
  { id, name
    catalogName := catalog
    schemaName := schema
    version := firstVersion
    description := none
    createdBy := none
    canvasSettings := none
    createdAt := now
    updatedAt := now
    tables := []
    relationships := []
    metricViews := []
    traditionalViews := []
    metricRelationships := [] }

def table? (p : Project) (id : String) : Option Table :=
  p.tables.find? (·.id == id)

/-- The first table of a name, ignoring the case of ASCII letters. -/
def tableNamed? (p : Project) (name : String) : Option Table :=
  p.tables.find? fun t => Text.sameIgnoringCase t.name name

def field? (p : Project) (location : Location) : Option Field :=
  (p.table? location.table).bind (·.field? location.field)

def relationship? (p : Project) (id : String) : Option Relationship :=
  p.relationships.find? (·.id == id)

def metricView? (p : Project) (id : String) : Option MetricView :=
  p.metricViews.find? (·.id == id)

def traditionalView? (p : Project) (id : String) : Option TraditionalView :=
  p.traditionalViews.find? (·.id == id)

/-- The name of a table with the catalog and schema of the project in front, unquoted. -/
def qualifiedName (p : Project) (table : String) : String :=
  p.catalogName ++ "." ++ p.schemaName ++ "." ++ table

/-- Changes the first entity that has an identifier. -/
def updateFirst {α : Type} (has : α → Bool) (change : α → α) : List α → List α
  | [] => []
  | x :: rest => if has x then change x :: rest else x :: updateFirst has change rest

def updateTable (p : Project) (id : String) (change : Table → Table) : Project :=
  { p with tables := updateFirst (·.id == id) change p.tables }

/-- Changes the first field of a table that has an identifier. -/
def updateFieldAt (p : Project) (location : Location) (change : Field → Field) : Project :=
  p.updateTable location.table fun t =>
    { t with fields := updateFirst (·.id == location.field) change t.fields }

end Project
end LakeSchema
