import LakeSchema.Schema.Project

/-!
# Documents: writing

The canonical JSON form of a project and of everything in it. Members stand in the order in which
documents list them; what is not given, and most empty lists, are left out.
-/

namespace LakeSchema

namespace Json

def optionalMember (name : String) (value : Option Json) : Members :=
  value.toList.map fun value => (name, value)

def optionalString (name : String) (value : Option String) : Members :=
  optionalMember name (value.map .string)

def listMember (name : String) (items : List Json) : Members :=
  if items.isEmpty then [] else [(name, .array items)]

def word (n : UInt32) : Json :=
  ofNat n.toNat

/-- JSON has no text for what is not finite. -/
def real (x : Binary64) : Json :=
  if x.isFinite then .number (.real x) else .null

def time (t : Timestamp) : Json :=
  .string t.text

end Json

def TagMap.toJson (tags : TagMap) : Json :=
  .object (tags.entries.map fun entry => (entry.1, .string entry.2))

def Position.toJson (p : Position) : Json :=
  .object [("x", .real p.x), ("y", .real p.y)]

def Size.toJson (s : Size) : Json :=
  .object [("width", .real s.width), ("height", .real s.height)]

def Waypoint.toJson (p : Waypoint) : Json :=
  .object [("x", .real p.x), ("y", .real p.y)]

def StructMember.toJson (m : StructMember) : Json :=
  .object [("name", .string m.name), ("data_type", .string m.dataType)]

def TypeParameters.toJson : TypeParameters → Json
  | decimal precision scale => .object [("precision", .word precision), ("scale", .word scale)]
  | length n => .object [("length", .word n)]
  | element type => .object [("element_type", .string type)]
  | keyValue key value => .object [("key_type", .string key), ("value_type", .string value)]
  | struct members => .object [("fields", .array (members.map StructMember.toJson))]
  | qualifier text => .object [("qualifier", .string text)]
  | srid id => .object [("srid", .word id)]
  | other members => .object members

def Reference.toJson (r : Reference) : Json :=
  .object <|
    [("referenced_table_id", .string r.table), ("referenced_field_id", .string r.field)] ++
    Json.optionalString "constraint_name" r.constraintName ++
    [("on_delete", .string r.onDelete.name), ("on_update", .string r.onUpdate.name)]

def Field.toJson (f : Field) : Json :=
  .object <|
    [("id", .string f.id), ("name", .string f.name), ("data_type", .string f.dataType.keyword)] ++
    Json.optionalMember "type_parameters" (f.typeParameters.map TypeParameters.toJson) ++
    [("nullable", .bool f.nullable)] ++
    Json.optionalString "default_value" f.defaultValue ++
    Json.optionalString "comment" f.comment ++
    Json.optionalString "logical_name" f.logicalName ++
    [("tags", f.tags.toJson), ("is_primary_key", .bool f.isPrimaryKey),
      ("is_foreign_key", .bool f.isForeignKey)] ++
    Json.optionalMember "foreign_key_reference" (f.reference.map Reference.toJson) ++
    Json.optionalString "foreign_key_origin" (f.origin.map KeyOrigin.name)

def Table.toJson (t : Table) : Json :=
  .object <|
    [("id", .string t.id), ("name", .string t.name)] ++
    Json.optionalString "logical_name" t.logicalName ++
    Json.optionalString "comment" t.comment ++
    [("table_kind", .string t.kind.name), ("storage_format", .string t.storageFormat.name)] ++
    Json.optionalString "storage_location" t.storageLocation ++
    [("tags", t.tags.toJson), ("position", t.position.toJson), ("size", t.size.toJson),
      ("fields", .array (t.fields.map Field.toJson)), ("created_at", .time t.createdAt),
      ("updated_at", .time t.updatedAt)]

def Relationship.toJson (r : Relationship) : Json :=
  .object <|
    [("id", .string r.id), ("source_table_id", .string r.sourceTable),
      ("source_field_id", .string r.sourceField), ("target_table_id", .string r.targetTable),
      ("target_field_id", .string r.targetField),
      ("relationship_type", .string r.cardinality.name)] ++
    Json.optionalString "constraint_name" r.constraintName ++
    Json.optionalString "fk_table_id" r.fkTable ++
    Json.optionalString "fk_field_id" r.fkField ++
    Json.listMember "line_points" (r.line.map Waypoint.toJson) ++
    [("created_at", .time r.createdAt), ("updated_at", .time r.updatedAt)]

def MetricRelationship.members (r : MetricRelationship) : Json.Members :=
  [("id", .string r.id), ("source_table_id", .string r.sourceTable),
    ("metric_view_id", .string r.metricView), ("relationship_type", .string r.kind)] ++
  Json.listMember "field_mappings" r.fieldMappings ++
  Json.listMember "line_points" (r.line.map Waypoint.toJson) ++
  [("created_at", .time r.createdAt)]

def MetricRelationship.toJson (r : MetricRelationship) : Json :=
  .object r.members

def Dimension.toJson (d : Dimension) : Json :=
  .object <|
    [("id", .string d.id), ("name", .string d.name), ("expr", .string d.expr)] ++
    Json.optionalString "description" d.description ++
    Json.optionalString "data_type" d.dataType

def Measure.toJson (m : Measure) : Json :=
  .object <|
    [("id", .string m.id), ("name", .string m.name), ("expr", .string m.expr)] ++
    Json.optionalString "description" m.description ++
    Json.optionalString "aggregation_type" m.aggregation ++
    [("is_window_measure", .bool m.isWindow)] ++
    Json.optionalString "window_type" (m.window.map WindowKind.name) ++
    Json.optionalMember "window_size" (m.windowSize.map .word) ++
    Json.listMember "partition_by" (m.partitionBy.map .string) ++
    Json.optionalString "order_by" m.orderBy ++
    Json.optionalMember "offset_periods" (m.offsetPeriods.map .word) ++
    Json.optionalString "window_frame" m.windowFrame

mutual

def ViewJoin.toJson : ViewJoin → Json
  | ⟨id, name, tableId, tableName, condition, columns, kind, joins⟩ =>
    .object <|
      [("id", .string id), ("name", .string name)] ++
      Json.optionalString "joined_table_id" tableId ++
      Json.optionalString "joined_table_name" tableName ++
      Json.optionalString "sql_on" condition ++
      Json.listMember "using" (columns.map .string) ++
      [("join_type", .string kind.name)] ++
      Json.listMember "joins" (ViewJoin.listToJson joins)

def ViewJoin.listToJson : List ViewJoin → List Json
  | [] => []
  | join :: rest => ViewJoin.toJson join :: ViewJoin.listToJson rest

end

def MetricView.toJson (v : MetricView) : Json :=
  .object <|
    [("id", .string v.id), ("name", .string v.name)] ++
    Json.optionalString "description" v.description ++
    [("version", .string v.version)] ++
    Json.optionalString "source_table_id" v.sourceTable ++
    Json.optionalString "source_sql" v.sourceSql ++
    Json.optionalString "filter" v.filter ++
    [("dimensions", .array (v.dimensions.map Dimension.toJson)),
      ("measures", .array (v.measures.map Measure.toJson)),
      ("joins", .array (ViewJoin.listToJson v.joins)), ("tags", v.tags.toJson),
      ("position", v.position.toJson), ("size", v.size.toJson), ("created_at", .time v.createdAt),
      ("updated_at", .time v.updatedAt)]

def TraditionalView.toJson (v : TraditionalView) : Json :=
  .object <|
    [("id", .string v.id), ("name", .string v.name), ("sql_query", .string v.query)] ++
    Json.optionalString "description" v.description ++
    Json.optionalString "logical_name" v.logicalName ++
    [("referenced_table_ids", .strings v.referencedTables), ("tags", v.tags.toJson),
      ("position", v.position.toJson), ("size", v.size.toJson), ("created_at", .time v.createdAt),
      ("updated_at", .time v.updatedAt)]

def Project.members (p : Project) : Json.Members :=
  [("id", .string p.id), ("name", .string p.name), ("catalog_name", .string p.catalogName),
    ("schema_name", .string p.schemaName), ("version", .string p.version)] ++
  Json.optionalString "description" p.description ++
  Json.optionalString "created_by" p.createdBy ++
  Json.optionalMember "canvas_settings" p.canvasSettings ++
  [("created_at", .time p.createdAt), ("updated_at", .time p.updatedAt),
    ("tables", .array (p.tables.map Table.toJson)),
    ("relationships", .array (p.relationships.map Relationship.toJson)),
    ("metric_views", .array (p.metricViews.map MetricView.toJson)),
    ("traditional_views", .array (p.traditionalViews.map TraditionalView.toJson)),
    ("metric_relationships", .array (p.metricRelationships.map MetricRelationship.toJson))]

def Project.toJson (p : Project) : Json :=
  .object p.members

end LakeSchema
