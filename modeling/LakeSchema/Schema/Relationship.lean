import LakeSchema.Schema.Table

/-!
# Relationships

A relationship connects a key field, its source, with the field that depends on it. Metric
relationships connect a table with a metric view drawn from it.
-/

namespace LakeSchema

/-- A corner of a connector on the canvas. -/
structure Waypoint where
  x : Binary64
  y : Binary64
deriving DecidableEq

structure Relationship where
  id : String
  sourceTable : String
  sourceField : String
  targetTable : String
  targetField : String
  cardinality : Cardinality
  constraintName : Option String
  fkTable : Option String
  fkField : Option String
  line : List Waypoint
  createdAt : Timestamp
  updatedAt : Timestamp
deriving DecidableEq

namespace Relationship

/-- A relationship whose dependent field is also its fallback target. -/
def between (id : String) (source dependent : Location) (now : Timestamp) : Relationship :=
  { id
    sourceTable := source.table
    sourceField := source.field
    targetTable := dependent.table
    targetField := dependent.field
    cardinality := .oneToMany
    constraintName := none
    fkTable := some dependent.table
    fkField := some dependent.field
    line := []
    createdAt := now
    updatedAt := now }

def source (r : Relationship) : Location :=
  ⟨r.sourceTable, r.sourceField⟩

/-- The target that older documents give in place of the dependent field. -/
def fallback (r : Relationship) : Location :=
  ⟨r.targetTable, r.targetField⟩

/-- The dependent field: the foreign key location when both its parts are given, else the fallback
target. -/
def dependent (r : Relationship) : Location :=
  match r.fkTable, r.fkField with
  | some table, some field => if table != "" && field != "" then ⟨table, field⟩ else r.fallback
  | _, _ => r.fallback

def touchesTable (r : Relationship) (table : String) : Bool :=
  r.sourceTable == table || r.targetTable == table || r.dependent.table == table

def touchesField (r : Relationship) (location : Location) : Bool :=
  r.source == location || r.fallback == location || r.dependent == location

end Relationship

structure MetricRelationship where
  id : String
  sourceTable : String
  metricView : String
  kind : String
  fieldMappings : List Json
  line : List Waypoint
  createdAt : Timestamp
deriving DecidableEq

/-- What documents call the link from a table to a metric view. -/
def MetricRelationship.sourceToMetric : String :=
  "source_to_metric"

def MetricRelationship.between (id table view : String) (now : Timestamp) : MetricRelationship :=
  { id
    sourceTable := table
    metricView := view
    kind := sourceToMetric
    fieldMappings := []
    line := []
    createdAt := now }

end LakeSchema
