import LakeSchema.Document.Decode
import LakeSchema.Document.Encode
import LakeSchema.Proofs.Json.Reading
import LakeSchema.Proofs.Time.Text

/-!
# Reading what a project was written as

Everything in a project is read back from its canonical form, as long as this form holds it: years
have four digits, coordinates are finite, and an object of type parameters does not pass for one of
the known shapes.
-/

namespace LakeSchema

open Json Json.Members Decode Fields

/-! ### What the canonical form holds -/

/-- The members of all objects in the value ascend, as those of a document do. -/
def Json.Canonical (value : Json) : Prop :=
  value.sorted = value

/-- The year has four digits and no sign. -/
def Timestamp.Plain (t : Timestamp) : Prop :=
  0 ≤ t.date.year ∧ t.date.year ≤ 9999

def Position.Finite (p : Position) : Prop :=
  p.x.isFinite = true ∧ p.y.isFinite = true

def Size.Finite (s : Size) : Prop :=
  s.width.isFinite = true ∧ s.height.isFinite = true

def Waypoint.Finite (w : Waypoint) : Prop :=
  w.x.isFinite = true ∧ w.y.isFinite = true

/-- An object of unknown shape is read as such. -/
def TypeParameters.Faithful : TypeParameters → Prop
  | other members => (Json.object members).Canonical ∧ ofMembers members = other members
  | _ => True

structure Table.Storable (t : Table) : Prop where
  position : t.position.Finite
  size : t.size.Finite
  parameters : ∀ f ∈ t.fields, ∀ parameters, f.typeParameters = some parameters → parameters.Faithful
  created : t.createdAt.Plain
  updated : t.updatedAt.Plain

structure Relationship.Storable (r : Relationship) : Prop where
  line : ∀ w ∈ r.line, w.Finite
  created : r.createdAt.Plain
  updated : r.updatedAt.Plain

structure MetricRelationship.Storable (r : MetricRelationship) : Prop where
  mappings : ∀ mapping ∈ r.fieldMappings, mapping.Canonical
  line : ∀ w ∈ r.line, w.Finite
  created : r.createdAt.Plain

structure MetricView.Storable (v : MetricView) : Prop where
  position : v.position.Finite
  size : v.size.Finite
  created : v.createdAt.Plain
  updated : v.updatedAt.Plain

structure TraditionalView.Storable (v : TraditionalView) : Prop where
  position : v.position.Finite
  size : v.size.Finite
  created : v.createdAt.Plain
  updated : v.updatedAt.Plain

/-- The canonical form holds all of the project. -/
structure Project.Storable (p : Project) : Prop where
  canvas : ∀ settings, p.canvasSettings = some settings → settings ≠ .null ∧ settings.Canonical
  created : p.createdAt.Plain
  updated : p.updatedAt.Plain
  tables : ∀ t ∈ p.tables, t.Storable
  relationships : ∀ r ∈ p.relationships, r.Storable
  metricViews : ∀ v ∈ p.metricViews, v.Storable
  traditionalViews : ∀ v ∈ p.traditionalViews, v.Storable
  metricRelationships : ∀ r ∈ p.metricRelationships, r.Storable

/-! ### Plain values -/

theorem Decode.reads_time {t : Timestamp} (plain : t.Plain) :
    Reads Decode.time (Json.time t).sorted t := by
  intro supply
  show Decode.time (.string t.text) supply = _
  rw [Decode.time, Time.relaxed?_text plain]
  rfl

theorem TagMap.insertEntry_of_greater {key value : String} {entries : List (String × String)}
    (greater : ∀ entry ∈ entries, entry.1 < key) :
    insertEntry key value entries = entries ++ [(key, value)] := by
  induction entries with
  | nil => rfl
  | cons first rest ih =>
    have before : first.1 < key := greater first List.mem_cons_self
    have differ : key ≠ first.1 := by
      rintro rfl
      exact String.lt_irrefl _ before
    rw [insertEntry, if_neg (String.lt_asymm before), if_neg differ,
      ih fun entry later => greater entry (List.mem_cons_of_mem first later)]
    rfl

theorem TagMap.eq_of_entries {a b : TagMap} (same : a.entries = b.entries) : a = b := by
  cases a
  cases b
  simp_all

theorem TagMap.ofList_entries (tags : TagMap) : TagMap.ofList tags.entries = tags := by
  have whole : ∀ (entries : List (String × String)) (base : TagMap),
      (base.entries ++ entries).Pairwise (fun a b => a.1 < b.1) →
        (base.insertAll entries).entries = base.entries ++ entries := by
    intro entries
    induction entries with
    | nil => exact fun base _ => (List.append_nil _).symm
    | cons first rest ih =>
      intro base ascending
      have greater : ∀ entry ∈ base.entries, entry.1 < first.1 := fun entry known =>
        (List.pairwise_append.mp ascending).2.2 entry known first List.mem_cons_self
      have next : (base.insert first.1 first.2).entries = base.entries ++ [first] :=
        insertEntry_of_greater greater
      have again : ((base.insert first.1 first.2).entries ++ rest).Pairwise
          fun a b => a.1 < b.1 := by
        rwa [next, List.append_assoc]
      rw [insertAll, List.foldl_cons]
      refine (ih _ again).trans ?_
      rw [next, List.append_assoc]
      rfl
  exact TagMap.eq_of_entries (whole tags.entries .empty tags.ascending)

theorem TagMap.sorted_toJson (tags : TagMap) : tags.toJson.sorted = tags.toJson := by
  have plain : sortedMembers (tags.entries.map fun entry => (entry.1, Json.string entry.2)) =
      tags.entries.map fun entry => (entry.1, Json.string entry.2) := by
    rw [sortedMembers_eq_map, List.map_map]
    rfl
  have ascending : Ascending (tags.entries.map fun entry => (entry.1, Json.string entry.2)) :=
    List.pairwise_map.mpr tags.ascending
  rw [toJson, sorted_object, canonical, plain, sorted_eq_self ascending]

theorem Decode.reads_tagMap (tags : TagMap) : Reads tagMap tags.toJson.sorted tags := by
  have texts : ∀ (entries : List (String × String)) (supply : IdSupply),
      tagEntries (entries.map fun entry => (entry.1, Json.string entry.2)) supply =
        .ok (entries, supply) := by
    intro entries supply
    induction entries with
    | nil => rfl
    | cons first rest ih =>
      have text : Decode.string (.string first.2) supply = .ok (first.2, supply) := rfl
      rw [List.map_cons, tagEntries, bind_eq text, bind_eq ih]
      rfl
  intro supply
  have members : Decode.members tags.toJson supply =
      .ok (tags.entries.map fun entry => (entry.1, Json.string entry.2), supply) := rfl
  rw [TagMap.sorted_toJson, tagMap, bind_eq members, bind_eq (texts tags.entries supply),
    TagMap.ofList_entries]
  rfl

theorem Position.reads {p : Position} (finite : p.Finite) :
    Reads Position.decode p.toJson.sorted p :=
  reads_decode <| (Fields.Reads.of Position.mk)
    |>.apply (reads_required (by simp) (reads_binary64 finite.1))
    |>.apply (reads_required (by simp) (reads_binary64 finite.2))

theorem Size.reads {s : Size} (finite : s.Finite) : Reads Size.decode s.toJson.sorted s :=
  reads_decode <| (Fields.Reads.of Size.mk)
    |>.apply (reads_required (by simp) (reads_binary64 finite.1))
    |>.apply (reads_required (by simp) (reads_binary64 finite.2))

theorem Waypoint.reads {w : Waypoint} (finite : w.Finite) :
    Reads Waypoint.decode w.toJson.sorted w :=
  reads_decode <| (Fields.Reads.of Waypoint.mk)
    |>.apply (reads_required (by simp) (reads_binary64 finite.1))
    |>.apply (reads_required (by simp) (reads_binary64 finite.2))

theorem StructMember.reads (m : StructMember) : Reads StructMember.decode m.toJson.sorted m :=
  reads_decode <| (Fields.Reads.of StructMember.mk)
    |>.apply (reads_required (by simp) (reads_string m.name))
    |>.apply (reads_required (by simp) (reads_string m.dataType))

/-! ### Type parameters -/

namespace TypeParameters

variable {α : Type} {x : α} {names : List String} {fields : Fields α} {listed : Json.Members}

theorem exactly?_of_reads (known : ∀ name ∈ listed.map Prod.fst, name ∈ names)
    (reads : fields.Reads (canonical listed) x) : exactly? names fields (canonical listed) = some x := by
  have all : ((canonical listed).all fun member => names.contains member.1) = true :=
    List.all_eq_true.mpr fun member inside =>
      List.contains_iff_mem.mpr (known member.1 (name_of_mem_canonical inside))
  rw [exactly?, if_pos all, reads]

theorem exactly?_of_unknown {name : String} {value : Json} (unknown : name ∉ names) :
    exactly? names fields (canonical ((name, value) :: listed)) = none := by
  obtain ⟨found, present⟩ : ∃ found, (canonical ((name, value) :: listed)).get? name = some found := by
    rw [get?_canonical, latest?_cons, if_pos rfl]
    cases latest? name listed <;> exact ⟨_, rfl⟩
  rw [exactly?, if_neg]
  intro all
  have known := List.all_eq_true.mp all _ (mem_of_get? present)
  exact unknown (List.contains_iff_mem.mp known)

/-- The members of a known shape are read as that shape, as no other shape has them. -/
theorem ofMembers_canonical (listed : Json.Members) (parameters : TypeParameters)
    (written : parameters.toJson = .object listed) (faithful : parameters.Faithful) :
    ofMembers (canonical listed) = parameters := by
  cases parameters with
  | decimal precision scale =>
    obtain rfl := Json.object.inj written
    have read : exactly? ["precision", "scale"]
        (((Fields.of decimal).apply (required "precision" word32)).apply (orElse "scale" word32 0))
        (canonical [("precision", .word precision), ("scale", .word scale)]) =
          some (decimal precision scale) :=
      exactly?_of_reads (by simp) <| (Fields.Reads.of decimal)
        |>.apply (reads_required (by simp) (reads_word32 precision))
        |>.apply (reads_orElse (by simp) (reads_word32 scale))
    rw [ofMembers, read]
    rfl
  | length n =>
    obtain rfl := Json.object.inj written
    have read : exactly? ["length"] ((Fields.of length).apply (required "length" word32))
        (canonical [("length", .word n)]) = some (length n) :=
      exactly?_of_reads (by simp) <| (Fields.Reads.of length)
        |>.apply (reads_required (by simp) (reads_word32 n))
    simp [ofMembers, exactly?_of_unknown, read]
  | element type =>
    obtain rfl := Json.object.inj written
    have read : exactly? ["element_type"]
        ((Fields.of element).apply (required "element_type" Decode.string))
        (canonical [("element_type", .string type)]) = some (element type) :=
      exactly?_of_reads (by simp) <| (Fields.Reads.of element)
        |>.apply (reads_required (by simp) (reads_string type))
    simp [ofMembers, exactly?_of_unknown, read]
  | keyValue key value =>
    obtain rfl := Json.object.inj written
    have read : exactly? ["key_type", "value_type"]
        (((Fields.of keyValue).apply (required "key_type" Decode.string)).apply
          (required "value_type" Decode.string))
        (canonical [("key_type", .string key), ("value_type", .string value)]) =
          some (keyValue key value) :=
      exactly?_of_reads (by simp) <| (Fields.Reads.of keyValue)
        |>.apply (reads_required (by simp) (reads_string key))
        |>.apply (reads_required (by simp) (reads_string value))
    simp [ofMembers, exactly?_of_unknown, read]
  | struct members =>
    obtain rfl := Json.object.inj written
    have read : exactly? ["fields"]
        ((Fields.of struct).apply (required "fields" (list StructMember.decode)))
        (canonical [("fields", .array (members.map StructMember.toJson))]) =
          some (struct members) :=
      exactly?_of_reads (by simp) <| (Fields.Reads.of struct)
        |>.apply (reads_required (by simp) (reads_list fun m _ => m.reads))
    simp [ofMembers, exactly?_of_unknown, read]
  | qualifier text =>
    obtain rfl := Json.object.inj written
    have read : exactly? ["qualifier"]
        ((Fields.of qualifier).apply (required "qualifier" Decode.string))
        (canonical [("qualifier", .string text)]) = some (qualifier text) :=
      exactly?_of_reads (by simp) <| (Fields.Reads.of qualifier)
        |>.apply (reads_required (by simp) (reads_string text))
    simp [ofMembers, exactly?_of_unknown, read]
  | srid id =>
    obtain rfl := Json.object.inj written
    have read : exactly? ["srid"] ((Fields.of srid).apply (required "srid" word32))
        (canonical [("srid", .word id)]) = some (srid id) :=
      exactly?_of_reads (by simp) <| (Fields.Reads.of srid)
        |>.apply (reads_required (by simp) (reads_word32 id))
    simp [ofMembers, exactly?_of_unknown, read]
  | other members =>
    obtain rfl := Json.object.inj written
    obtain ⟨same, read⟩ := faithful
    have kept : canonical members = members := Json.object.inj same
    rw [kept, read]

theorem reads (parameters : TypeParameters) (faithful : parameters.Faithful) :
    Decode.Reads TypeParameters.decode parameters.toJson.sorted parameters := by
  obtain ⟨listed, written⟩ : ∃ listed, parameters.toJson = .object listed := by
    cases parameters <;> exact ⟨_, rfl⟩
  intro supply
  have read := ofMembers_canonical listed parameters written faithful
  have members : Decode.members (.object (canonical listed)) supply =
      .ok (canonical listed, supply) := rfl
  rw [written, sorted_object, decode, map_eq members, read]

end TypeParameters

/-! ### Choices -/

theorem DataType.reads (type : DataType) :
    Reads (choice spellings) (Json.string type.keyword).sorted type :=
  reads_choice (by cases type <;> rfl)

theorem ReferentialAction.reads (action : ReferentialAction) :
    Reads (choice spellings) (Json.string action.name).sorted action :=
  reads_choice (by cases action <;> rfl)

theorem KeyOrigin.reads (origin : KeyOrigin) :
    Reads (choice spellings) (Json.string origin.name).sorted origin :=
  reads_choice (by cases origin <;> rfl)

theorem TableKind.reads (kind : TableKind) :
    Reads (choice spellings) (Json.string kind.name).sorted kind :=
  reads_choice (by cases kind <;> rfl)

theorem StorageFormat.reads (format : StorageFormat) :
    Reads (choice spellings) (Json.string format.name).sorted format :=
  reads_choice (by cases format <;> rfl)

theorem Cardinality.reads (cardinality : Cardinality) :
    Reads (choice spellings) (Json.string cardinality.name).sorted cardinality :=
  reads_choice (by cases cardinality <;> rfl)

theorem JoinKind.reads (kind : JoinKind) :
    Reads (choice spellings) (Json.string kind.name).sorted kind :=
  reads_choice (by cases kind <;> rfl)

theorem WindowKind.reads (kind : WindowKind) :
    Reads (choice spellings) (Json.string kind.name).sorted kind :=
  reads_choice (by cases kind <;> rfl)

/-! ### Fields and tables -/

theorem Reference.reads (r : Reference) : Reads Reference.decode r.toJson.sorted r :=
  reads_decode <| (Fields.Reads.of Reference.mk)
    |>.apply (reads_required (by simp) (reads_string r.table))
    |>.apply (reads_required (by simp) (reads_string r.field))
    |>.apply (reads_optionalString (by simp))
    |>.apply (reads_orElse (by simp) r.onDelete.reads)
    |>.apply (reads_orElse (by simp) r.onUpdate.reads)

theorem TypeParameters.toJson_ne_null (parameters : TypeParameters) : parameters.toJson ≠ .null := by
  cases parameters <;> exact Json.noConfusion

theorem Field.reads {f : Field}
    (faithful : ∀ parameters, f.typeParameters = some parameters → parameters.Faithful) :
    Reads Field.decode f.toJson.sorted f :=
  reads_decode <| (Fields.Reads.of Field.mk)
    |>.apply (reads_required (by simp) (reads_string f.id))
    |>.apply (reads_required (by simp) (reads_string f.name))
    |>.apply (reads_required (by simp) f.dataType.reads)
    |>.apply (reads_optional TypeParameters.toJson (by simp)
      (fun parameters _ => parameters.toJson_ne_null)
      fun parameters given => parameters.reads (faithful parameters given))
    |>.apply (reads_orElse (by simp) (reads_bool f.nullable))
    |>.apply (reads_optionalString (by simp))
    |>.apply (reads_optionalString (by simp))
    |>.apply (reads_optionalString (by simp))
    |>.apply (reads_orElse (by simp) (reads_tagMap f.tags))
    |>.apply (reads_orElse (by simp) (reads_bool f.isPrimaryKey))
    |>.apply (reads_orElse (by simp) (reads_bool f.isForeignKey))
    |>.apply (reads_optional Reference.toJson (by simp) (fun _ _ => Json.noConfusion) fun r _ => r.reads)
    |>.apply (reads_optional (Json.string ∘ KeyOrigin.name) (by simp) (fun _ _ => Json.noConfusion)
      fun origin _ => origin.reads)

theorem Table.reads {t : Table} (storable : t.Storable) : Reads Table.decode t.toJson.sorted t :=
  reads_decode <| (Fields.Reads.of Table.mk)
    |>.apply (reads_required (by simp) (reads_string t.id))
    |>.apply (reads_required (by simp) (reads_string t.name))
    |>.apply (reads_optionalString (by simp))
    |>.apply (reads_optionalString (by simp))
    |>.apply (reads_orElse (by simp) t.kind.reads)
    |>.apply (reads_orElse (by simp) t.storageFormat.reads)
    |>.apply (reads_optionalString (by simp))
    |>.apply (reads_orElse (by simp) (reads_tagMap t.tags))
    |>.apply (reads_orElse (by simp) (Position.reads storable.position))
    |>.apply (reads_orElse (by simp) (Size.reads storable.size))
    |>.apply (reads_orElse (by simp)
      (reads_list fun f inside => Field.reads (storable.parameters f inside)))
    |>.apply (reads_required (by simp) (reads_time storable.created))
    |>.apply (reads_required (by simp) (reads_time storable.updated))

theorem Relationship.reads {r : Relationship} (storable : r.Storable) :
    Reads Relationship.decode r.toJson.sorted r :=
  reads_decode <| (Fields.Reads.of Relationship.mk)
    |>.apply (reads_required (by simp) (reads_string r.id))
    |>.apply (reads_required (by simp) (reads_string r.sourceTable))
    |>.apply (reads_required (by simp) (reads_string r.sourceField))
    |>.apply (reads_required (by simp) (reads_string r.targetTable))
    |>.apply (reads_required (by simp) (reads_string r.targetField))
    |>.apply (reads_orElse (by simp) r.cardinality.reads)
    |>.apply (reads_optionalString (by simp))
    |>.apply (reads_optionalString (by simp))
    |>.apply (reads_optionalString (by simp))
    |>.apply (reads_listMember (by simp) fun w inside => Waypoint.reads (storable.line w inside))
    |>.apply (reads_required (by simp) (reads_time storable.created))
    |>.apply (reads_required (by simp) (reads_time storable.updated))

/-! ### Views -/

theorem Dimension.reads (d : Dimension) : Reads Dimension.decode d.toJson.sorted d :=
  reads_decode <| (Fields.Reads.of Dimension.mk)
    |>.apply (reads_idOrFresh (by simp))
    |>.apply (reads_required (by simp) (reads_string d.name))
    |>.apply (reads_required (by simp) (reads_string d.expr))
    |>.apply (reads_optionalString (by simp))
    |>.apply (reads_optionalString (by simp))

theorem Measure.reads (m : Measure) : Reads Measure.decode m.toJson.sorted m :=
  reads_decode <| (Fields.Reads.of Measure.mk)
    |>.apply (reads_idOrFresh (by simp))
    |>.apply (reads_required (by simp) (reads_string m.name))
    |>.apply (reads_required (by simp) (reads_string m.expr))
    |>.apply (reads_optionalString (by simp))
    |>.apply (reads_optionalString (by simp))
    |>.apply (reads_orElse (by simp) (reads_bool m.isWindow))
    |>.apply (reads_optional (Json.string ∘ WindowKind.name) (by simp) (fun _ _ => Json.noConfusion)
      fun kind _ => kind.reads)
    |>.apply (reads_optional Json.word (by simp) (fun _ _ => Json.noConfusion) fun n _ => reads_word32 n)
    |>.apply (reads_listMember (by simp) fun s _ => reads_string s)
    |>.apply (reads_optionalString (by simp))
    |>.apply (reads_optional Json.word (by simp) (fun _ _ => Json.noConfusion) fun n _ => reads_word32 n)
    |>.apply (reads_optionalString (by simp))

theorem TraditionalView.reads {v : TraditionalView} (storable : v.Storable) :
    Reads TraditionalView.decode v.toJson.sorted v :=
  reads_decode <| (Fields.Reads.of TraditionalView.mk)
    |>.apply (reads_required (by simp) (reads_string v.id))
    |>.apply (reads_required (by simp) (reads_string v.name))
    |>.apply (reads_required (by simp) (reads_string v.query))
    |>.apply (reads_optionalString (by simp))
    |>.apply (reads_optionalString (by simp))
    |>.apply (reads_orElse (by simp) (reads_strings v.referencedTables))
    |>.apply (reads_orElse (by simp) (reads_tagMap v.tags))
    |>.apply (reads_orElse (by simp) (Position.reads storable.position))
    |>.apply (reads_orElse (by simp) (Size.reads storable.size))
    |>.apply (reads_required (by simp) (reads_time storable.created))
    |>.apply (reads_required (by simp) (reads_time storable.updated))

namespace ViewJoin

theorem listToJson_eq_map (joins : List ViewJoin) : listToJson joins = joins.map toJson := by
  induction joins with
  | nil => rfl
  | cons join rest ih => rw [listToJson, ih, List.map_cons]

mutual

/-- A join is read at any depth that the nesting of its value does not exceed. -/
theorem reads_within : (join : ViewJoin) → ∀ depth, join.toJson.sorted.depth ≤ depth →
    Reads (decodeWithin depth) join.toJson.sorted join
  | ⟨id, name, tableId, tableName, condition, columns, kind, joins⟩, depth, within => by
    rw [toJson] at within ⊢
    cases depth with
    | zero => contradiction
    | succ depth =>
      have nested : ∀ join ∈ joins, join.toJson.sorted.depth ≤ depth := by
        intro join inside
        have some : joins ≠ [] := List.ne_nil_of_mem inside
        have below : join.toJson.sorted.depth + 1 < depth + 1 :=
          Nat.lt_of_lt_of_le (depth_lt_of_listed "joins" (by simp [listToJson_eq_map, some])
            (List.mem_map_of_mem inside)) within
        omega
      exact reads_decode <| (Fields.Reads.of ViewJoin.mk)
        |>.apply (reads_idOrFresh (by simp))
        |>.apply (reads_required (by simp) (reads_string name))
        |>.apply (reads_optionalString (by simp))
        |>.apply (reads_optionalString (by simp))
        |>.apply (reads_optionalString (by simp))
        |>.apply (reads_listMember (by simp) fun s _ => reads_string s)
        |>.apply (reads_orElse (by simp) kind.reads)
        |>.apply (reads_listMember (by simp [listToJson_eq_map])
          fun join inside => reads_all_within joins join inside depth (nested join inside))

theorem reads_all_within : (joins : List ViewJoin) → ∀ join ∈ joins, ∀ depth,
    join.toJson.sorted.depth ≤ depth → Reads (decodeWithin depth) join.toJson.sorted join
  | first :: rest, join, inside, depth, within => by
    rcases List.mem_cons.mp inside with same | later
    · rw [same] at within ⊢
      exact reads_within first depth within
    · exact reads_all_within rest join later depth within

end

theorem reads (join : ViewJoin) : Reads decode join.toJson.sorted join :=
  reads_within join _ (Nat.le_refl _)

end ViewJoin

theorem MetricView.reads {v : MetricView} (storable : v.Storable) :
    Reads MetricView.decode v.toJson.sorted v :=
  reads_decode <| (Fields.Reads.of MetricView.mk)
    |>.apply (reads_required (by simp) (reads_string v.id))
    |>.apply (reads_required (by simp) (reads_string v.name))
    |>.apply (reads_optionalString (by simp))
    |>.apply (reads_orElse (by simp) (reads_string v.version))
    |>.apply (reads_optionalString (by simp))
    |>.apply (reads_optionalString (by simp))
    |>.apply (reads_optionalString (by simp))
    |>.apply (reads_orElse (by simp) (reads_list fun d _ => d.reads))
    |>.apply (reads_orElse (by simp) (reads_list fun m _ => m.reads))
    |>.apply (reads_orElse (by simp [ViewJoin.listToJson_eq_map]) (reads_list fun j _ => j.reads))
    |>.apply (reads_orElse (by simp) (reads_tagMap v.tags))
    |>.apply (reads_orElse (by simp) (Position.reads storable.position))
    |>.apply (reads_orElse (by simp) (Size.reads storable.size))
    |>.apply (reads_required (by simp) (reads_time storable.created))
    |>.apply (reads_required (by simp) (reads_time storable.updated))

/-! ### Projects -/

/-- The members of a metric relationship with the second timestamp that normalising gives it. -/
def MetricRelationship.dated (r : MetricRelationship) (now : Timestamp) : Json :=
  .object (r.members ++ [("updated_at", .time now)])

theorem MetricRelationship.reads {r : MetricRelationship} (storable : r.Storable) (now : Timestamp) :
    Reads MetricRelationship.decode (r.dated now).sorted r :=
  reads_decode <| (Fields.Reads.of MetricRelationship.mk)
    |>.apply (reads_required (by simp [members]) (reads_string r.id))
    |>.apply (reads_required (by simp [members]) (reads_string r.sourceTable))
    |>.apply (reads_required (by simp [members]) (reads_string r.metricView))
    |>.apply (reads_orElse (by simp [members]) (reads_string r.kind))
    |>.apply (reads_listMember (by simp [members])
      fun mapping inside => reads_opaqueValue (storable.mappings mapping inside))
    |>.apply (reads_listMember (by simp [members])
      fun w inside => Waypoint.reads (storable.line w inside))
    |>.apply (reads_required (by simp [members]) (reads_time storable.created))

/-- The document of a project as normalising leaves it. -/
def Project.dated (p : Project) (now : Timestamp) : Json :=
  .object (p.members ++
    [("metric_relationships", .array (p.metricRelationships.map (·.dated now)))])

theorem Project.reads {p : Project} (storable : p.Storable) (now : Timestamp) :
    Reads Project.decode (p.dated now).sorted p :=
  reads_decode <| (Fields.Reads.of Project.mk)
    |>.apply (reads_required (by simp [members]) (reads_string p.id))
    |>.apply (reads_required (by simp [members]) (reads_string p.name))
    |>.apply (reads_required (by simp [members]) (reads_string p.catalogName))
    |>.apply (reads_required (by simp [members]) (reads_string p.schemaName))
    |>.apply (reads_orElse (by simp [members]) (reads_string p.version))
    |>.apply (reads_optionalString (by simp [members]))
    |>.apply (reads_optionalString (by simp [members]))
    |>.apply (reads_optional (fun settings => settings) (by simp [members])
      (fun settings given => (storable.canvas settings given).1)
      fun settings given => reads_opaqueValue (storable.canvas settings given).2)
    |>.apply (reads_required (by simp [members]) (reads_time storable.created))
    |>.apply (reads_required (by simp [members]) (reads_time storable.updated))
    |>.apply (reads_orElse (by simp [members])
      (reads_list fun t inside => Table.reads (storable.tables t inside)))
    |>.apply (reads_orElse (by simp [members])
      (reads_list fun r inside => Relationship.reads (storable.relationships r inside)))
    |>.apply (reads_orElse (by simp [members])
      (reads_list fun v inside => MetricView.reads (storable.metricViews v inside)))
    |>.apply (reads_orElse (by simp [members])
      (reads_list fun v inside => TraditionalView.reads (storable.traditionalViews v inside)))
    |>.apply (reads_orElse (by simp [members])
      (reads_list fun r inside => MetricRelationship.reads (storable.metricRelationships r inside) now))

end LakeSchema
