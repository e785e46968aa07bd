/-!
# Schema errors

The ways in which a project can be inconsistent or an operation can fail, each with the
identifiers of the entities concerned.
-/

namespace LakeSchema

inductive EntityKind where
  | project
  | table
  | field
  | relationship
  | metricView
  | traditionalView
  | metricRelationship
deriving DecidableEq

namespace EntityKind

def name : EntityKind → String
  | project => "project"
  | table => "table"
  | field => "field"
  | relationship => "relationship"
  | metricView => "metric_view"
  | traditionalView => "traditional_view"
  | metricRelationship => "metric_relationship"

def title : EntityKind → String
  | project => "Project"
  | table => "Table"
  | field => "Field"
  | relationship => "Relationship"
  | metricView => "Metric view"
  | traditionalView => "View"
  | metricRelationship => "Metric relationship"

def spellings : List (EntityKind × List String) :=
  [ (project, ["project"]), (table, ["table"]), (field, ["field"]),
    (relationship, ["relationship"]), (metricView, ["metric_view"]),
    (traditionalView, ["traditional_view"]), (metricRelationship, ["metric_relationship"]) ]

end EntityKind

inductive SchemaError where
  | validation (entity problem : String)
  | referentialIntegrity (entity problem : String)
  | cyclicDependency (tables : List String)
  | duplicateEntity (entity problem : String)
  | notFound (kind : EntityKind) (id : String)
deriving DecidableEq

namespace SchemaError

def kindName : SchemaError → String
  | validation .. => "validation"
  | referentialIntegrity .. => "referential_integrity"
  | cyclicDependency _ => "cyclic_dependency"
  | duplicateEntity .. => "duplicate_entity"
  | notFound .. => "not_found"

def message : SchemaError → String
  | validation entity problem => "Validation error on " ++ entity ++ ": " ++ problem
  | referentialIntegrity entity problem =>
    "Referential integrity error on " ++ entity ++ ": " ++ problem
  | cyclicDependency tables =>
    "Cyclic dependency between tables: " ++ ", ".intercalate tables
  | duplicateEntity entity problem => "Duplicate entity " ++ entity ++ ": " ++ problem
  | notFound kind id => kind.title ++ " not found: " ++ id

/-- The report on a compilation that failed, one line for each error. -/
def report (errors : List SchemaError) : String :=
  "Compilation failed with " ++ toString errors.length ++ " error(s)" ++
    String.join (errors.map fun error => "\n  - " ++ error.message)

def cycles (errors : List SchemaError) : List (List String) :=
  errors.filterMap fun
    | cyclicDependency tables => some tables
    | _ => none

end SchemaError
end LakeSchema
