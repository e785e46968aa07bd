import LakeSchema.Document.Normalise
import LakeSchema.Proofs.Document.Decode

/-!
# Canonical documents are normal

Normalising finds nothing to change in the document of a project: its timestamps are canonical texts,
tags are maps, identifiers are there, types are keywords and references are objects. The one addition
is a second timestamp of metric relationships, which have only one (`normalise_toJson`).
-/

namespace LakeSchema.Document

open Json Json.Members

variable {listed members : Json.Members} {name label : String} {now : Timestamp}
  {change : Json.Members → Json.Members × List Warning}

/-! ### Items and objects -/

theorem inObject_eq {changed : Json.Members}
    (result : change (canonical listed) = (changed, [])) :
    inObject change (Json.object listed).sorted = (.object changed, []) := by
  rw [sorted_object, inObject, result]

theorem inObject_inert (inert : change (canonical listed) = (canonical listed, [])) :
    inObject change (Json.object listed).sorted = ((Json.object listed).sorted, []) :=
  inObject_eq inert

theorem inItems_eq {α : Type} (write write' : α → Json) (xs : List α)
    {change : Json → Json × List Warning}
    (found : latest? name listed = some (.array (xs.map write)))
    (each : ∀ x ∈ xs, change (write x).sorted = ((write' x).sorted, [])) :
    inItems name change (canonical listed) =
      (canonical (listed ++ [(name, .array (xs.map write'))]), []) := by
  have present : (canonical listed).get? name = some (.array ((xs.map write).map Json.sorted)) := by
    rw [get?_canonical, found, Option.map_some, Json.sorted, sortedItems_eq_map]
  have changed : ((xs.map write).map Json.sorted).map change =
      xs.map fun x => ((write' x).sorted, []) := by
    rw [List.map_map, List.map_map]
    exact List.map_congr_left fun x inside => each x inside
  have silent : (xs.map fun x => ((write' x).sorted, ([] : List Warning))).flatMap Prod.snd = [] := by
    simp
  simp only [inItems, present]
  rw [changed, silent, List.map_map, canonical_concat, Json.sorted, sortedItems_eq_map, List.map_map]
  rfl

theorem inItems_inert {α : Type} (write : α → Json) (xs : List α)
    {change : Json → Json × List Warning}
    (found : latest? name listed = some (.array (xs.map write)))
    (each : ∀ x ∈ xs, change (write x).sorted = ((write x).sorted, [])) :
    inItems name change (canonical listed) = (canonical listed, []) := by
  have present : (canonical listed).get? name = some (Json.array (xs.map write)).sorted := by
    rw [get?_canonical, found, Option.map_some]
  rw [inItems_eq write write xs found each, canonical_concat,
    (ascending_canonical listed).put_eq_self present]

/-! ### Timestamps -/

theorem timestamp_inert {t : Timestamp} (found : latest? name listed = some (.time t))
    (plain : t.Plain) : timestamp now label name (canonical listed) = (canonical listed, []) := by
  have present : (canonical listed).get? name = some (.string t.text) := by
    rw [get?_canonical, found]
    rfl
  simp only [timestamp, present, Timestamp.read?_text plain]
  rw [show Json.time t = .string t.text from rfl, (ascending_canonical listed).put_eq_self present]

theorem timestamps_inert {created updated : Timestamp}
    (first : latest? "created_at" listed = some (.time created)) (plain : created.Plain)
    (second : latest? "updated_at" listed = some (.time updated)) (plain' : updated.Plain) :
    timestamps now label (canonical listed) = (canonical listed, []) := by
  simp only [timestamps, timestamp_inert first plain, timestamp_inert second plain', List.append_nil]

theorem timestamp_missing (missing : latest? name listed = none) :
    timestamp now label name (canonical listed) = (canonical (listed ++ [(name, .time now)]), []) := by
  have absent : (canonical listed).get? name = none := by
    rw [get?_canonical, missing]
    rfl
  simp only [timestamp, absent, canonical_concat]
  rfl

/-- A missing timestamp is put in. -/
theorem timestamps_missing {created : Timestamp}
    (first : latest? "created_at" listed = some (.time created)) (plain : created.Plain)
    (missing : latest? "updated_at" listed = none) :
    timestamps now label (canonical listed) =
      (canonical (listed ++ [("updated_at", .time now)]), []) := by
  simp only [timestamps, timestamp_inert first plain, timestamp_missing missing, List.append_nil]

/-! ### Tags and identifiers -/

theorem tags_inert (map : TagMap) (found : latest? "tags" listed = some map.toJson) :
    tags (canonical listed) = canonical listed := by
  have present : (canonical listed).get? "tags" = some map.toJson := by
    rw [get?_canonical, found, Option.map_some, TagMap.sorted_toJson]
  rw [tags, present]
  rfl

theorem assignId_inert (id : String) (found : latest? "id" listed = some (.string id))
    (supply : IdSupply) : assignId (canonical listed) supply = (canonical listed, supply) := by
  have present : (canonical listed).get? "id" = some (.string id) := by
    rw [get?_canonical, found]
    rfl
  rw [assignId, present]

theorem assignFieldIds_inert (fields : List Field) (supply : IdSupply) :
    assignFieldIds (sortedItems (fields.map Field.toJson)) supply =
      (sortedItems (fields.map Field.toJson), supply) := by
  induction fields with
  | nil => rfl
  | cons f rest ih =>
    rw [List.map_cons, sortedItems, Field.toJson, sorted_object, assignFieldIds,
      assignId_inert f.id (by simp) supply]
    simp only [ih]

theorem assignTableIds_inert (id : String) (fields : List Field)
    (identified : latest? "id" listed = some (.string id))
    (found : latest? "fields" listed = some (.array (fields.map Field.toJson))) (supply : IdSupply) :
    assignTableIds (canonical listed) supply = (canonical listed, supply) := by
  have present : (canonical listed).get? "fields" =
      some (.array (sortedItems (fields.map Field.toJson))) := by
    rw [get?_canonical, found, Option.map_some, Json.sorted]
  simp only [assignTableIds, assignId_inert id identified, present, assignFieldIds_inert]
  rw [(ascending_canonical listed).put_eq_self present]

theorem assignIds_inert (tables : List Table) (supply : IdSupply) :
    assignIds (sortedItems (tables.map Table.toJson)) supply =
      (sortedItems (tables.map Table.toJson), supply) := by
  induction tables with
  | nil => rfl
  | cons t rest ih =>
    rw [List.map_cons, sortedItems, Table.toJson, sorted_object, assignIds,
      assignTableIds_inert t.id t.fields (by simp) (by simp) supply]
    simp only [ih]

/-! ### Fields and tables -/

theorem ofText_keyword (type : DataType) : TypeText.ofText type.keyword = ⟨type.keyword, none⟩ := by
  cases type <;> decide

theorem dataType_inert (type : DataType) (parameters : Option TypeParameters)
    (found : latest? "data_type" listed = some (.string type.keyword))
    (given : latest? "type_parameters" listed = parameters.map TypeParameters.toJson) :
    dataType (canonical listed) = (canonical listed, none) := by
  have present : (canonical listed).get? "data_type" = some (.string type.keyword) := by
    rw [get?_canonical, found]
    rfl
  have structured : parameterText? (canonical listed) = none := by
    rw [parameterText?, get?_canonical, given]
    rcases parameters with _ | parameters
    · rfl
    · cases parameters <;> rfl
  simp only [dataType, present, ofText_keyword, structured]
  rw [(ascending_canonical listed).put_eq_self present]
  rfl

theorem foreignKey_inert (reference : Option Reference) (index : List TableNames)
    (table field : String)
    (found : latest? "foreign_key_reference" listed = reference.map Reference.toJson) :
    foreignKey index table field (canonical listed) = (canonical listed, []) := by
  have present : (canonical listed).get? "foreign_key_reference" =
      reference.map fun r => r.toJson.sorted := by
    rw [get?_canonical, found, Option.map_map]
    rfl
  rw [foreignKey, present]
  cases reference <;> rfl

theorem field_inert (index : List TableNames) (table : String) (f : Field) :
    inObject (field index table) f.toJson.sorted = (f.toJson.sorted, []) := by
  refine inObject_inert ?_
  simp only [field]
  rw [tags_inert f.tags (by simp), dataType_inert f.dataType f.typeParameters (by simp) (by simp)]
  simp only [typeParameters]
  rw [foreignKey_inert f.reference index table _ (by simp), List.append_nil]

theorem table_inert (index : List TableNames) (t : Table) :
    inObject (table index) t.toJson.sorted = (t.toJson.sorted, []) := by
  refine inObject_inert ?_
  simp only [table]
  rw [tags_inert t.tags (by simp)]
  exact inItems_inert Field.toJson t.fields (by simp) fun f _ => field_inert index _ f

/-! ### Documents -/

theorem tables_inert {items : List Table}
    (found : latest? "tables" listed = some (.array (items.map Table.toJson))) (supply : IdSupply) :
    tables (canonical listed) supply = (canonical listed, [], supply) := by
  have present : (canonical listed).get? "tables" =
      some (.array (sortedItems (items.map Table.toJson))) := by
    rw [get?_canonical, found, Option.map_some, Json.sorted]
  simp only [tables, present, assignIds_inert]
  rw [(ascending_canonical listed).put_eq_self present,
    inItems_inert Table.toJson items found fun t _ => table_inert _ t]

theorem viewTags_inert {metric : List MetricView} {traditional : List TraditionalView}
    (metricFound : latest? "metric_views" listed = some (.array (metric.map MetricView.toJson)))
    (traditionalFound : latest? "traditional_views" listed =
      some (.array (traditional.map TraditionalView.toJson))) :
    viewTags (canonical listed) = canonical listed := by
  have metricTags : inItems "metric_views" (inObject fun entry => (tags entry, []))
      (canonical listed) = (canonical listed, []) :=
    inItems_inert MetricView.toJson metric metricFound fun v _ =>
      inObject_inert (by rw [tags_inert v.tags (by simp)])
  have traditionalTags : inItems "traditional_views" (inObject fun entry => (tags entry, []))
      (canonical listed) = (canonical listed, []) :=
    inItems_inert TraditionalView.toJson traditional traditionalFound fun v _ =>
      inObject_inert (by rw [tags_inert v.tags (by simp)])
  simp only [viewTags, List.foldl_cons, List.foldl_nil, metricTags, traditionalTags]

/-- Of the document of a project only metric relationships are changed. -/
theorem normalise_toJson {p : Project} (storable : p.Storable) (now : Timestamp) (supply : IdSupply) :
    normalise now p.toJson.sorted supply = ((p.dated now).sorted, [], supply) := by
  have inTables : inItems "tables" (inObject (entryTimestamps now)) (canonical p.members) =
      (canonical p.members, []) :=
    inItems_inert Table.toJson p.tables (by simp [Project.members]) fun t inside =>
      inObject_inert (timestamps_inert (by simp) (storable.tables t inside).created (by simp)
        (storable.tables t inside).updated)
  have inRelationships : inItems "relationships" (inObject (entryTimestamps now))
      (canonical p.members) = (canonical p.members, []) :=
    inItems_inert Relationship.toJson p.relationships (by simp [Project.members]) fun r inside =>
      inObject_inert (timestamps_inert (by simp) (storable.relationships r inside).created (by simp)
        (storable.relationships r inside).updated)
  have inMetricViews : inItems "metric_views" (inObject (entryTimestamps now))
      (canonical p.members) = (canonical p.members, []) :=
    inItems_inert MetricView.toJson p.metricViews (by simp [Project.members]) fun v inside =>
      inObject_inert (timestamps_inert (by simp) (storable.metricViews v inside).created (by simp)
        (storable.metricViews v inside).updated)
  have inTraditionalViews : inItems "traditional_views" (inObject (entryTimestamps now))
      (canonical p.members) = (canonical p.members, []) :=
    inItems_inert TraditionalView.toJson p.traditionalViews (by simp [Project.members]) fun v inside =>
      inObject_inert (timestamps_inert (by simp) (storable.traditionalViews v inside).created
        (by simp) (storable.traditionalViews v inside).updated)
  have inMetricRelationships : inItems "metric_relationships" (inObject (entryTimestamps now))
      (canonical p.members) = (canonical (p.members ++
        [("metric_relationships", .array (p.metricRelationships.map (·.dated now)))]), []) :=
    inItems_eq MetricRelationship.toJson (·.dated now) p.metricRelationships
      (by simp [Project.members]) fun r inside => inObject_eq (timestamps_missing (by simp [MetricRelationship.members])
        (storable.metricRelationships r inside).created (by simp [MetricRelationship.members]))
  have root : timestamps now "project" (canonical p.members) = (canonical p.members, []) :=
    timestamps_inert (by simp [Project.members]) storable.created (by simp [Project.members])
      storable.updated
  rw [Project.toJson, sorted_object]
  simp only [normalise, root]
  rw [tables_inert (by simp [Project.members]; rfl)]
  simp only
  rw [viewTags_inert (by simp [Project.members]; rfl) (by simp [Project.members]; rfl)]
  simp only [timestamped, listTimestamps, inTables, inRelationships, inMetricViews,
    inTraditionalViews, inMetricRelationships, List.append_nil]
  rfl

end LakeSchema.Document
