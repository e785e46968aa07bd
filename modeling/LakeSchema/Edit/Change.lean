import LakeSchema.Json.Decode
import LakeSchema.Document.Decode

/-!
# Requested entities and changes

What an edit of a project asks for: a new table or relationship, or new values for some attributes
of an entity. An attribute that may be cleared has the change `set none`.
-/

namespace LakeSchema

inductive Change (α : Type) where
  | keep
  | set (value : α)
deriving DecidableEq

namespace Change

variable {α : Type}

def on (old : α) : Change α → α
  | keep => old
  | set value => value

def isSet : Change α → Bool
  | keep => false
  | set _ => true

end Change

namespace Fields

variable {α : Type}

/-- A member that sets an attribute, or keeps it when it is null or not written. -/
def change (name : String) (value : Json → Decode α) : Fields (Change α) :=
  orElse name (fun
    | .null => pure .keep
    | found => Change.set <$> value found) .keep

/-- A member that sets an attribute, or clears it when it is null. -/
def clearable (name : String) (value : Json → Decode α) : Fields (Change (Option α)) :=
  orElse name (fun found => Change.set <$> Decode.option value found) .keep

/-- An identifier that is made up when it is null or not written. -/
def newId (name : String) : Fields String :=
  member name (fun
    | .null => Decode.freshId
    | found => Decode.string found) (some Decode.freshId)

/-- A member that takes a value of its own when it is null or not written. -/
def nullOrElse (name : String) (value : Json → Decode α) (absent : α) : Fields α :=
  orElse name (fun
    | .null => pure absent
    | found => value found) absent

end Fields

/-! ### New entities -/

structure TableSpec where
  id : String
  name : String
  logicalName : Option String
  comment : Option String
  kind : TableKind
  storageFormat : StorageFormat
  storageLocation : Option String
  tags : TagMap
  position : Position
  fields : List Field

def TableSpec.table (spec : TableSpec) (now : Timestamp) : Table :=
  { Table.plain spec.id spec.name now with
    logicalName := spec.logicalName
    comment := spec.comment
    kind := spec.kind
    storageFormat := spec.storageFormat
    storageLocation := spec.storageLocation
    tags := spec.tags
    position := spec.position
    fields := spec.fields }

/-- A relationship to be added; without an origin the names of its fields decide. -/
structure RelationshipSpec where
  id : String
  source : Location
  dependent : Location
  cardinality : Cardinality
  constraintName : Option String
  onDelete : ReferentialAction
  onUpdate : ReferentialAction
  origin : Option KeyOrigin

def RelationshipSpec.reference (spec : RelationshipSpec) : Reference :=
  { table := spec.source.table
    field := spec.source.field
    constraintName := spec.constraintName
    onDelete := spec.onDelete
    onUpdate := spec.onUpdate }

def RelationshipSpec.relationship (spec : RelationshipSpec) (now : Timestamp) : Relationship :=
  { Relationship.between spec.id spec.source spec.dependent now with
    cardinality := spec.cardinality
    constraintName := spec.constraintName }

/-! ### Changes -/

/-- Changes of a table; a new field list replaces the old one. -/
structure TablePatch where
  name : Change String
  logicalName : Change (Option String)
  comment : Change (Option String)
  kind : Change TableKind
  storageFormat : Change StorageFormat
  storageLocation : Change (Option String)
  tags : Change TagMap
  position : Change Position
  size : Change Size
  fields : Change (List Field)

namespace TablePatch

def ofFields (fields : List Field) : TablePatch :=
  { name := .keep
    logicalName := .keep
    comment := .keep
    kind := .keep
    storageFormat := .keep
    storageLocation := .keep
    tags := .keep
    position := .keep
    size := .keep
    fields := .set fields }

def apply (patch : TablePatch) (t : Table) : Table :=
  { t with
    name := patch.name.on t.name
    logicalName := patch.logicalName.on t.logicalName
    comment := patch.comment.on t.comment
    kind := patch.kind.on t.kind
    storageFormat := patch.storageFormat.on t.storageFormat
    storageLocation := patch.storageLocation.on t.storageLocation
    tags := patch.tags.on t.tags
    position := patch.position.on t.position
    size := patch.size.on t.size
    fields := patch.fields.on t.fields }

end TablePatch

/-- Changes of a field. References belong to relationships and are not changed here. -/
structure FieldPatch where
  name : Change String
  dataType : Change DataType
  typeParameters : Change (Option TypeParameters)
  nullable : Change Bool
  defaultValue : Change (Option String)
  comment : Change (Option String)
  logicalName : Change (Option String)
  tags : Change TagMap
  isPrimaryKey : Change Bool

def FieldPatch.apply (patch : FieldPatch) (f : Field) : Field :=
  { f with
    name := patch.name.on f.name
    dataType := patch.dataType.on f.dataType
    typeParameters := patch.typeParameters.on f.typeParameters
    nullable := patch.nullable.on f.nullable
    defaultValue := patch.defaultValue.on f.defaultValue
    comment := patch.comment.on f.comment
    logicalName := patch.logicalName.on f.logicalName
    tags := patch.tags.on f.tags
    isPrimaryKey := patch.isPrimaryKey.on f.isPrimaryKey }

structure RelationshipPatch where
  cardinality : Change Cardinality
  constraintName : Change (Option String)
  onDelete : Change ReferentialAction
  onUpdate : Change ReferentialAction
  line : Change (List Waypoint)

namespace RelationshipPatch

def apply (patch : RelationshipPatch) (r : Relationship) : Relationship :=
  { r with
    cardinality := patch.cardinality.on r.cardinality
    constraintName := patch.constraintName.on r.constraintName
    line := patch.line.on r.line }

def applyToReference (patch : RelationshipPatch) (r : Reference) : Reference :=
  { r with
    constraintName := patch.constraintName.on r.constraintName
    onDelete := patch.onDelete.on r.onDelete
    onUpdate := patch.onUpdate.on r.onUpdate }

end RelationshipPatch

structure MetricViewPatch where
  name : Change String
  description : Change (Option String)
  sourceTable : Change (Option String)
  sourceSql : Change (Option String)
  filter : Change (Option String)
  dimensions : Change (List Dimension)
  measures : Change (List Measure)
  joins : Change (List ViewJoin)
  tags : Change TagMap
  position : Change Position

def MetricViewPatch.apply (patch : MetricViewPatch) (v : MetricView) : MetricView :=
  { v with
    name := patch.name.on v.name
    description := patch.description.on v.description
    sourceTable := patch.sourceTable.on v.sourceTable
    sourceSql := patch.sourceSql.on v.sourceSql
    filter := patch.filter.on v.filter
    dimensions := patch.dimensions.on v.dimensions
    measures := patch.measures.on v.measures
    joins := patch.joins.on v.joins
    tags := patch.tags.on v.tags
    position := patch.position.on v.position }

structure TraditionalViewPatch where
  name : Change String
  query : Change String
  description : Change (Option String)
  logicalName : Change (Option String)
  referencedTables : Change (List String)
  tags : Change TagMap
  position : Change Position

def TraditionalViewPatch.apply (patch : TraditionalViewPatch) (v : TraditionalView) :
    TraditionalView :=
  { v with
    name := patch.name.on v.name
    query := patch.query.on v.query
    description := patch.description.on v.description
    logicalName := patch.logicalName.on v.logicalName
    referencedTables := patch.referencedTables.on v.referencedTables
    tags := patch.tags.on v.tags
    position := patch.position.on v.position }

/-! ### Reading -/

open Decode Fields

def TableSpec.decode : Json → Decode TableSpec :=
  Fields.decode "TableSpec" <|
    (Fields.of TableSpec.mk)
      |>.apply (newId "id")
      |>.apply (required "name" string)
      |>.apply (optional "logical_name" string)
      |>.apply (optional "comment" string)
      |>.apply (nullOrElse "table_kind" (choice TableKind.spellings) .managed)
      |>.apply (nullOrElse "storage_format" (choice StorageFormat.spellings) .delta)
      |>.apply (optional "storage_location" string)
      |>.apply (nullOrElse "tags" tagMap .empty)
      |>.apply (nullOrElse "position" Position.decode .initial)
      |>.apply (nullOrElse "fields" (list Field.decode) [])

def RelationshipSpec.ofMembers (id sourceTable sourceField fkTable fkField : String)
    (cardinality : Cardinality) (constraintName : Option String)
    (onDelete onUpdate : ReferentialAction) (origin : Option KeyOrigin) : RelationshipSpec :=
  { id
    source := ⟨sourceTable, sourceField⟩
    dependent := ⟨fkTable, fkField⟩
    cardinality, constraintName, onDelete, onUpdate, origin }

def RelationshipSpec.decode : Json → Decode RelationshipSpec :=
  Fields.decode "RelationshipSpec" <|
    (Fields.of RelationshipSpec.ofMembers)
      |>.apply (newId "id")
      |>.apply (required "source_table_id" string)
      |>.apply (required "source_field_id" string)
      |>.apply (required "fk_table_id" string)
      |>.apply (required "fk_field_id" string)
      |>.apply (nullOrElse "relationship_type" (choice Cardinality.spellings) .oneToMany)
      |>.apply (optional "constraint_name" string)
      |>.apply (nullOrElse "on_delete" (choice ReferentialAction.spellings) .noAction)
      |>.apply (nullOrElse "on_update" (choice ReferentialAction.spellings) .noAction)
      |>.apply (optional "origin" (choice KeyOrigin.spellings))

def TablePatch.decode : Json → Decode TablePatch :=
  Fields.decode "TablePatch" <|
    (Fields.of TablePatch.mk)
      |>.apply (change "name" string)
      |>.apply (clearable "logical_name" string)
      |>.apply (clearable "comment" string)
      |>.apply (change "table_kind" (choice TableKind.spellings))
      |>.apply (change "storage_format" (choice StorageFormat.spellings))
      |>.apply (clearable "storage_location" string)
      |>.apply (change "tags" tagMap)
      |>.apply (change "position" Position.decode)
      |>.apply (change "size" Size.decode)
      |>.apply (change "fields" (list Field.decode))

def FieldPatch.decode : Json → Decode FieldPatch :=
  Fields.decode "FieldPatch" <|
    (Fields.of FieldPatch.mk)
      |>.apply (change "name" string)
      |>.apply (change "data_type" (choice DataType.spellings))
      |>.apply (clearable "type_parameters" TypeParameters.decode)
      |>.apply (change "nullable" bool)
      |>.apply (clearable "default_value" string)
      |>.apply (clearable "comment" string)
      |>.apply (clearable "logical_name" string)
      |>.apply (change "tags" tagMap)
      |>.apply (change "is_primary_key" bool)

def RelationshipPatch.decode : Json → Decode RelationshipPatch :=
  Fields.decode "RelationshipPatch" <|
    (Fields.of RelationshipPatch.mk)
      |>.apply (change "relationship_type" (choice Cardinality.spellings))
      |>.apply (clearable "constraint_name" string)
      |>.apply (change "on_delete" (choice ReferentialAction.spellings))
      |>.apply (change "on_update" (choice ReferentialAction.spellings))
      |>.apply (change "line_points" (list Waypoint.decode))

def MetricViewPatch.decode : Json → Decode MetricViewPatch :=
  Fields.decode "MetricViewPatch" <|
    (Fields.of MetricViewPatch.mk)
      |>.apply (change "name" string)
      |>.apply (clearable "description" string)
      |>.apply (clearable "source_table_id" string)
      |>.apply (clearable "source_sql" string)
      |>.apply (clearable "filter" string)
      |>.apply (change "dimensions" (list Dimension.decode))
      |>.apply (change "measures" (list Measure.decode))
      |>.apply (change "joins" (list ViewJoin.decode))
      |>.apply (change "tags" tagMap)
      |>.apply (change "position" Position.decode)

def TraditionalViewPatch.decode : Json → Decode TraditionalViewPatch :=
  Fields.decode "TraditionalViewPatch" <|
    (Fields.of TraditionalViewPatch.mk)
      |>.apply (change "name" string)
      |>.apply (change "sql_query" string)
      |>.apply (clearable "description" string)
      |>.apply (clearable "logical_name" string)
      |>.apply (change "referenced_table_ids" (list string))
      |>.apply (change "tags" tagMap)
      |>.apply (change "position" Position.decode)

end LakeSchema
