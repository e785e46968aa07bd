import LakeSchema.Json.Decode
import LakeSchema.Schema.Project
import LakeSchema.Time.Reader

/-!
# Documents: reading

Reads the canonical JSON form of a project and of everything in it. Members of unknown names are
ignored; `TypeParameters.ofMembers` alone looks at all members, because they pick its shape.
-/

namespace LakeSchema

namespace Decode

def time : Json → Decode Timestamp
  | .string text =>
    match Time.relaxed? text.toList with
    | some t => pure t
    | none => fail .unreadableTimestamp
  | found => fail (.invalidType found "an RFC 3339 formatted date and time string")

def tagEntries : Json.Members → Decode (List (String × String))
  | [] => pure []
  | (key, value) :: rest => do
    let text ← string value
    let others ← tagEntries rest
    pure ((key, text) :: others)

def tagMap (value : Json) : Decode TagMap := do
  let entries ← tagEntries (← members value)
  pure (TagMap.ofList entries)

end Decode

open Decode Fields

/-! ### Places on the canvas -/

def Position.decode : Json → Decode Position :=
  Fields.decode "Position" <|
    (Fields.of Position.mk)
      |>.apply (required "x" binary64)
      |>.apply (required "y" binary64)

def Size.decode : Json → Decode Size :=
  Fields.decode "Size" <|
    (Fields.of Size.mk)
      |>.apply (required "width" binary64)
      |>.apply (required "height" binary64)

def Waypoint.decode : Json → Decode Waypoint :=
  Fields.decode "ConnectionPoint" <|
    (Fields.of Waypoint.mk)
      |>.apply (required "x" binary64)
      |>.apply (required "y" binary64)

/-! ### Fields -/

def StructMember.decode : Json → Decode StructMember :=
  Fields.decode "StructMember" <|
    (Fields.of StructMember.mk)
      |>.apply (required "name" string)
      |>.apply (required "data_type" string)

namespace TypeParameters

/-- Reads an object that has no other members than those described. -/
def exactly? {α : Type} (names : List String) (fields : Fields α) (members : Json.Members) :
    Option α :=
  if members.all fun member => names.contains member.1 then
    match fields.ofObject members ⟨0⟩ with
    | .read (value, _) => some value
    | _ => none
  else none

/-- The shape whose members an object has; objects of no shape are kept as they are. -/
def ofMembers (members : Json.Members) : TypeParameters :=
  let shape :=
    (exactly? ["precision", "scale"]
      (((Fields.of decimal).apply (required "precision" word32)).apply
        (orElse "scale" word32 0)) members).or <|
    (exactly? ["length"] ((Fields.of length).apply (required "length" word32)) members).or <|
    (exactly? ["element_type"]
      ((Fields.of element).apply (required "element_type" string)) members).or <|
    (exactly? ["key_type", "value_type"]
      (((Fields.of keyValue).apply (required "key_type" string)).apply
        (required "value_type" string)) members).or <|
    (exactly? ["fields"]
      ((Fields.of struct).apply (required "fields" (list StructMember.decode))) members).or <|
    (exactly? ["qualifier"]
      ((Fields.of qualifier).apply (required "qualifier" string)) members).or <|
    (exactly? ["srid"] ((Fields.of srid).apply (required "srid" word32)) members)
  shape.getD (other members)

def decode (value : Json) : Decode TypeParameters :=
  ofMembers <$> members value

end TypeParameters

def Reference.decode : Json → Decode Reference :=
  Fields.decode "ForeignKeyReference" <|
    (Fields.of Reference.mk)
      |>.apply (required "referenced_table_id" string)
      |>.apply (required "referenced_field_id" string)
      |>.apply (optional "constraint_name" string)
      |>.apply (orElse "on_delete" (choice ReferentialAction.spellings) .noAction)
      |>.apply (orElse "on_update" (choice ReferentialAction.spellings) .noAction)

def Field.decode : Json → Decode Field :=
  Fields.decode "Field" <|
    (Fields.of Field.mk)
      |>.apply (required "id" string)
      |>.apply (required "name" string)
      |>.apply (required "data_type" (choice DataType.spellings))
      |>.apply (optional "type_parameters" TypeParameters.decode)
      |>.apply (orElse "nullable" bool true)
      |>.apply (optional "default_value" string)
      |>.apply (optional "comment" string)
      |>.apply (optional "logical_name" string)
      |>.apply (orElse "tags" tagMap .empty)
      |>.apply (orElse "is_primary_key" bool false)
      |>.apply (orElse "is_foreign_key" bool false)
      |>.apply (optional "foreign_key_reference" Reference.decode)
      |>.apply (optional "foreign_key_origin" (choice KeyOrigin.spellings))

/-! ### Tables and relationships -/

def Table.decode : Json → Decode Table :=
  Fields.decode "Table" <|
    (Fields.of Table.mk)
      |>.apply (required "id" string)
      |>.apply (required "name" string)
      |>.apply (optional "logical_name" string)
      |>.apply (optional "comment" string)
      |>.apply (orElse "table_kind" (choice TableKind.spellings) .managed)
      |>.apply (orElse "storage_format" (choice StorageFormat.spellings) .delta)
      |>.apply (optional "storage_location" string)
      |>.apply (orElse "tags" tagMap .empty)
      |>.apply (orElse "position" Position.decode .initial)
      |>.apply (orElse "size" Size.decode .initial)
      |>.apply (orElse "fields" (list Field.decode) [])
      |>.apply (required "created_at" time)
      |>.apply (required "updated_at" time)

def Relationship.decode : Json → Decode Relationship :=
  Fields.decode "Relationship" <|
    (Fields.of Relationship.mk)
      |>.apply (required "id" string)
      |>.apply (required "source_table_id" string)
      |>.apply (required "source_field_id" string)
      |>.apply (required "target_table_id" string)
      |>.apply (required "target_field_id" string)
      |>.apply (orElse "relationship_type" (choice Cardinality.spellings) .oneToMany)
      |>.apply (optional "constraint_name" string)
      |>.apply (optional "fk_table_id" string)
      |>.apply (optional "fk_field_id" string)
      |>.apply (orElse "line_points" (list Waypoint.decode) [])
      |>.apply (required "created_at" time)
      |>.apply (required "updated_at" time)

def MetricRelationship.decode : Json → Decode MetricRelationship :=
  Fields.decode "MetricRelationship" <|
    (Fields.of MetricRelationship.mk)
      |>.apply (required "id" string)
      |>.apply (required "source_table_id" string)
      |>.apply (required "metric_view_id" string)
      |>.apply (orElse "relationship_type" string MetricRelationship.sourceToMetric)
      |>.apply (orElse "field_mappings" (list opaqueValue) [])
      |>.apply (orElse "line_points" (list Waypoint.decode) [])
      |>.apply (required "created_at" time)

/-! ### Views -/

def Dimension.decode : Json → Decode Dimension :=
  Fields.decode "Dimension" <|
    (Fields.of Dimension.mk)
      |>.apply (idOrFresh "id")
      |>.apply (required "name" string)
      |>.apply (required "expr" string)
      |>.apply (optional "description" string)
      |>.apply (optional "data_type" string)

def Measure.decode : Json → Decode Measure :=
  Fields.decode "Measure" <|
    (Fields.of Measure.mk)
      |>.apply (idOrFresh "id")
      |>.apply (required "name" string)
      |>.apply (required "expr" string)
      |>.apply (optional "description" string)
      |>.apply (optional "aggregation_type" string)
      |>.apply (orElse "is_window_measure" bool false)
      |>.apply (optional "window_type" (choice WindowKind.spellings))
      |>.apply (optional "window_size" word32)
      |>.apply (orElse "partition_by" (list string) [])
      |>.apply (optional "order_by" string)
      |>.apply (optional "offset_periods" word32)
      |>.apply (optional "window_frame" string)

namespace ViewJoin

/-- Reads a join with joins nested in it less than `depth` deep. -/
def decodeWithin : (depth : Nat) → Json → Decode ViewJoin
  | 0, found => fail (.invalidType found "struct MetricViewJoin")
  | depth + 1, value =>
    Fields.decode "MetricViewJoin" ((Fields.of ViewJoin.mk)
      |>.apply (idOrFresh "id")
      |>.apply (required "name" string)
      |>.apply (optional "joined_table_id" string)
      |>.apply (optional "joined_table_name" string)
      |>.apply (optional "sql_on" string)
      |>.apply (orElse "using" (list string) [])
      |>.apply (orElse "join_type" (choice JoinKind.spellings) .left)
      |>.apply (orElse "joins" (list (decodeWithin depth)) [])) value

/-- Reads a join; the nesting of the value bounds that of the joins. -/
def decode (value : Json) : Decode ViewJoin :=
  decodeWithin value.depth value

end ViewJoin

def MetricView.decode : Json → Decode MetricView :=
  Fields.decode "MetricView" <|
    (Fields.of MetricView.mk)
      |>.apply (required "id" string)
      |>.apply (required "name" string)
      |>.apply (optional "description" string)
      |>.apply (orElse "version" string MetricView.firstVersion)
      |>.apply (optional "source_table_id" string)
      |>.apply (optional "source_sql" string)
      |>.apply (optional "filter" string)
      |>.apply (orElse "dimensions" (list Dimension.decode) [])
      |>.apply (orElse "measures" (list Measure.decode) [])
      |>.apply (orElse "joins" (list ViewJoin.decode) [])
      |>.apply (orElse "tags" tagMap .empty)
      |>.apply (orElse "position" Position.decode .initial)
      |>.apply (orElse "size" Size.decode .initial)
      |>.apply (required "created_at" time)
      |>.apply (required "updated_at" time)

def TraditionalView.decode : Json → Decode TraditionalView :=
  Fields.decode "TraditionalView" <|
    (Fields.of TraditionalView.mk)
      |>.apply (required "id" string)
      |>.apply (required "name" string)
      |>.apply (required "sql_query" string)
      |>.apply (optional "description" string)
      |>.apply (optional "logical_name" string)
      |>.apply (orElse "referenced_table_ids" (list string) [])
      |>.apply (orElse "tags" tagMap .empty)
      |>.apply (orElse "position" Position.decode .initial)
      |>.apply (orElse "size" Size.decode .initial)
      |>.apply (required "created_at" time)
      |>.apply (required "updated_at" time)

/-! ### Projects -/

def Project.decode : Json → Decode Project :=
  Fields.decode "Project" <|
    (Fields.of Project.mk)
      |>.apply (required "id" string)
      |>.apply (required "name" string)
      |>.apply (required "catalog_name" string)
      |>.apply (required "schema_name" string)
      |>.apply (orElse "version" string Project.firstVersion)
      |>.apply (optional "description" string)
      |>.apply (optional "created_by" string)
      |>.apply (optional "canvas_settings" opaqueValue)
      |>.apply (required "created_at" time)
      |>.apply (required "updated_at" time)
      |>.apply (orElse "tables" (list Table.decode) [])
      |>.apply (orElse "relationships" (list Relationship.decode) [])
      |>.apply (orElse "metric_views" (list MetricView.decode) [])
      |>.apply (orElse "traditional_views" (list TraditionalView.decode) [])
      |>.apply (orElse "metric_relationships" (list MetricRelationship.decode) [])

end LakeSchema
