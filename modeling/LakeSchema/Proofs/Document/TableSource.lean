import LakeSchema.Proofs.Document.NameIndex
import LakeSchema.Proofs.Json.Source

/-!
# Where tables and fields were read from

A project that was read from a normalised document has its tables, and these have their fields, in the
order in which the document lists them (`tables_drawn`). Where these have identifiers and names that
tell them apart in the document, they have them in the project (`distinct_of_drawn`,
`called_iff_pointsAt`).
-/

namespace LakeSchema

open Json (Members)

variable {members : Members} {supply next : IdSupply} {i : Nat}

/-! ### Reading -/

/-- What a field was read from. -/
structure Field.ReadFrom (members : Members) (f : Field) : Prop where
  id : members.get? "id" = some (.string f.id)
  name : members.get? "name" = some (.string f.name)
  reference : members.get? "foreign_key_reference" = none ∧ f.reference = none ∨
    ∃ value, members.get? "foreign_key_reference" = some value ∧
      Decode.Yields (Decode.option Reference.decode) value f.reference
  flag : members.get? "is_foreign_key" = none ∧ f.isForeignKey = false ∨
    ∃ value, members.get? "is_foreign_key" = some value ∧ Decode.Yields Decode.bool value f.isForeignKey

theorem Field.readFrom_of_decode {f : Field}
    (done : Field.decode (.object members) supply = .ok (f, next)) : f.ReadFrom members := by
  obtain ⟨_, _, whole⟩ := Fields.From.of_decode done
  refine Fields.Tells.told ?_ whole
  repeat' apply Fields.Tells.apply
  refine .of fun members id identified name named _ _ _ _ _ _ _ _ _ _ _ _ _ _ _ _ flag flagged
    reference refers _ _ => ?_
  obtain ⟨_, idGiven, idText⟩ := identified.required
  obtain ⟨_, nameGiven, nameText⟩ := named.required
  exact ⟨idText.string ▸ idGiven, nameText.string ▸ nameGiven, refers.orElse, flagged.orElse⟩

theorem Document.forall₂_of_taken {α : Type} {read : Json → Decode α} {name : String} {xs : List α}
    (taken : Fields.Taken name (Decode.list read) (some (pure [])) members xs) :
    List.Forall₂ (Decode.Yields read) (items name members) xs := by
  have found : Fields.part? name 0 (.object members) = none ∧ xs = [] ∨
      ∃ value, Fields.part? name 0 (.object members) = some value ∧
        Decode.Yields (Decode.list read) value xs := taken.orElse
  exact forall₂_of_part found

/-- What a table was read from. -/
structure Table.ReadFrom (members : Members) (t : Table) : Prop where
  id : members.get? "id" = some (.string t.id)
  name : members.get? "name" = some (.string t.name)
  fields : List.Forall₂ (Decode.Yields Field.decode) (Document.items "fields" members) t.fields

theorem Table.readFrom_of_decode {t : Table}
    (done : Table.decode (.object members) supply = .ok (t, next)) : t.ReadFrom members := by
  obtain ⟨_, _, whole⟩ := Fields.From.of_decode done
  refine Fields.Tells.told ?_ whole
  repeat' apply Fields.Tells.apply
  refine .of fun members id identified name named _ _ _ _ _ _ _ _ _ _ _ _ _ _ _ _ fields listed
    _ _ _ _ => ?_
  obtain ⟨_, idGiven, idText⟩ := identified.required
  obtain ⟨_, nameGiven, nameText⟩ := named.required
  exact ⟨idText.string ▸ idGiven, nameText.string ▸ nameGiven, Document.forall₂_of_taken listed⟩

/-- The tables that a document lists. -/
def Document.tableItems (document : Json) : List Json :=
  ((Fields.part? "tables" 10 document).bind Json.asArray?).getD []

/-- The project that is completed by its lists has the tables as given. -/
def Document.TakingTables (build : List Table → List Relationship → List MetricView →
    List TraditionalView → List MetricRelationship → Project) : Prop :=
  ∀ ts rs vs ws ms, (build ts rs vs ws ms).tables = ts

/-- A project has the tables that its document lists. -/
theorem Document.decode_tables {document : Json} {p : Project}
    (done : Project.decode document supply = .ok (p, next)) :
    List.Forall₂ (Decode.Yields Table.decode) (tableItems document) p.tables := by
  have whole := Fields.From.of_decode done
  obtain ⟨g₁, metricRelationships, front₁, made₁, _⟩ := whole.last (by
    repeat' apply Fields.Builds.apply
    exact .of (by intros; trivial))
  obtain ⟨g₂, traditionalViews, front₂, made₂, _⟩ := front₁.last (by
    repeat' apply Fields.Builds.apply
    exact .of (by intros; trivial))
  obtain ⟨g₃, metricViews, front₃, made₃, _⟩ := front₂.last (by
    repeat' apply Fields.Builds.apply
    exact .of (by intros; trivial))
  obtain ⟨g₄, relationships, front₄, made₄, _⟩ := front₃.last (by
    repeat' apply Fields.Builds.apply
    exact .of (by intros; trivial))
  obtain ⟨build, tables, front₅, made₅, listed⟩ := front₄.last (by
    repeat' apply Fields.Builds.apply
    exact .of (by intros; trivial))
  have taking : TakingTables build := by
    refine front₅.property ?_
    repeat' apply Fields.Builds.apply
    exact .of fun _ _ _ _ _ _ _ _ _ _ _ _ _ _ _ => rfl
  rw [made₁, made₂, made₃, made₄, made₅, taking]
  exact forall₂_of_part listed

/-! ### Names in a project -/

namespace Project

/-- The tables have names that differ in lower case, and so have the fields of each. -/
structure NamesDistinct (p : Project) : Prop where
  tables : (p.tables.map fun t => Text.lowered t.name).Nodup
  fields : ∀ t ∈ p.tables, (t.fields.map fun f => Text.lowered f.name).Nodup

/-- The field at a location, and its table, have these names in some case. -/
def Called (p : Project) (names : String × String) (l : Location) : Prop :=
  ∃ t ∈ p.tables, t.id = l.table ∧ Text.lowered t.name = Text.lowered names.1 ∧
    ∃ f ∈ t.fields, f.id = l.field ∧ Text.lowered f.name = Text.lowered names.2

end Project

namespace Document

variable {now : Timestamp} {name text : String} {item : Json} {names : String × String}
  {target : Location} {α β γ : Type} {xs : List α} {ys : List β} {x : α}

/-! ### Lists that go together -/

theorem forall₂_trans {R : α → β → Prop} {S : β → γ → Prop} {T : α → γ → Prop} {zs : List γ}
    (both : ∀ x y z, R x y → S y z → T x z) (first : List.Forall₂ R xs ys)
    (second : List.Forall₂ S ys zs) : List.Forall₂ T xs zs := by
  induction first generalizing zs with
  | nil =>
    cases second
    exact .nil
  | cons here _ ih =>
    obtain _ | ⟨there, later⟩ := second
    exact .cons (both _ _ _ here there) (ih later)

theorem exists_of_forall₂ {R : α → β → Prop} (each : List.Forall₂ R xs ys) (place : xs[i]? = some x) :
    ∃ y, ys[i]? = some y ∧ R x y := by
  induction each generalizing i with
  | nil => cases place
  | cons first _ ih =>
    cases i with
    | zero =>
      obtain rfl := Option.some.inj place
      exact ⟨_, rfl, first⟩
    | succ i => exact ih place

theorem map_eq_of_forall₂ {R : α → β → Prop} {f : α → γ} {g : β → γ}
    (same : ∀ x y, R x y → f x = g y) (each : List.Forall₂ R xs ys) : xs.map f = ys.map g := by
  induction each with
  | nil => rfl
  | cons first _ ih => rw [List.map_cons, List.map_cons, same _ _ first, ih]

/-! ### Items with identifiers -/

/-- Items with identifiers, which tell them apart, as their names in lower case do. -/
structure Distinct (items : List Json) : Prop where
  identified : ∀ item ∈ items, (textOf? "id" item).isSome = true
  ids : (items.map (textOf? "id")).Nodup
  names : Apart items

/-- Tables that can be told apart, and so can the fields of each. -/
structure DistinctTables (listed : List Json) : Prop where
  tables : Distinct listed
  fields : ∀ table, .object table ∈ listed → Distinct (items "fields" table)

theorem items_tables_timed (now : Timestamp) (members : Members) :
    items "tables" (timestamps now "project" members).1 = items "tables" members :=
  items_congr (get?_timestamps (by decide) (by decide))

/-- Objects with the same members by name. -/
def Restated (item changed : Json) : Prop :=
  ∃ members other : Members, item = .object members ∧ changed = .object other ∧
    ∀ name, other.get? name = members.get? name

theorem assignId_of_identified (own : (textOf? "id" (.object members)).isSome = true) :
    assignId members supply = (members, supply) := by
  obtain ⟨id, given⟩ := Option.isSome_iff_exists.mp own
  unfold assignId
  rw [textOf?_object.mp given]

theorem assignFieldIds_of_identified {items : List Json}
    (own : ∀ item ∈ items, (textOf? "id" item).isSome = true) :
    assignFieldIds items supply = (items, supply) := by
  induction items with
  | nil => rfl
  | cons item rest ih =>
    obtain ⟨first, others⟩ := List.forall_mem_cons.mp own
    cases item with
    | object members =>
      simp only [assignFieldIds, assignId_of_identified first, ih others]
    | _ => contradiction

theorem get?_assignTableIds_of_identified {table : Members}
    (own : (textOf? "id" (.object table)).isSome = true)
    (fields : ∀ item ∈ items "fields" table, (textOf? "id" item).isSome = true) (name : String) :
    (assignTableIds table supply).1.get? name = table.get? name := by
  unfold assignTableIds
  rw [assignId_of_identified own]
  dsimp only
  split
  · rename_i listed given
    have own : items "fields" table = listed := by
      rw [items, given]
      rfl
    simp only [assignFieldIds_of_identified (own ▸ fields), Members.get?_put]
    split
    · rename_i same
      rw [same, given]
    · rfl
  · rfl

theorem restated_identified (distinct : DistinctTables (items "tables" members))
    (supply : IdSupply) :
    List.Forall₂ Restated (items "tables" members) (items "tables" (identified members supply)) := by
  have both := (List.forall₂_and_left _ _).mpr
    ⟨fun _ inside => inside, forall₂_identified members supply⟩
  refine both.imp fun item changed ⟨inside, middle, same⟩ => ?_
  have own := distinct.tables.identified item inside
  cases item with
  | object table =>
    exact ⟨table, _, rfl, same,
      get?_assignTableIds_of_identified own (distinct.fields table inside).identified⟩
  | _ => contradiction

/-! ### From a document to its project -/

/-- The item is an object whose members go with `x`. -/
def Holding (goes : Members → α → Prop) (item : Json) (x : α) : Prop :=
  ∃ members, item = .object members ∧ goes members x

/-- What a table was drawn from before it was normalised. -/
structure Drawn (index : List TableNames) (members : Members) (t : Table) : Prop where
  id : members.get? "id" = some (.string t.id)
  name : members.get? "name" = some (.string t.name)
  fields : List.Forall₂ (Holding fun members f => f.ReadFrom (field index t.name members).1)
    (items "fields" members) t.fields

theorem items_tables_normalised (now : Timestamp) (members : Members) (supply : IdSupply) :
    items "tables" (normalised now members supply) =
      (items "tables" (identified (timestamps now "project" members).1 supply)).map fun item =>
        dated now (inObject (table (index (timestamps now "project" members).1 supply)) item).1 := by
  have same : (prepared now members supply).get? "tables" =
      (tabled (timestamps now "project" members).1 supply).1.get? "tables" :=
    get?_viewTags (by decide) (by decide)
  have listed : items "tables" (normalised now members supply) =
      (items "tables" (prepared now members supply)).map (dated now) :=
    array_listTimestamps (by decide) (by decide)
  rw [listed, items_congr same, tabled, items_inItems, List.map_map]
  rfl

theorem drawn_of_restated {index : List TableNames} {item changed : Json} {t : Table}
    (distinct : ∀ table, item = .object table → Distinct (items "fields" table))
    (same : Restated item changed)
    (read : Decode.Yields Table.decode (dated now (inObject (table index) changed).1) t) :
    Holding (Drawn index) item t := by
  obtain ⟨members, other, rfl, rfl, same⟩ := same
  obtain ⟨_, _, done⟩ := read
  obtain ⟨id, named, fields⟩ := Table.readFrom_of_decode done
  have kept : ∀ name, name ∉ ["created_at", "updated_at", "tags", "fields"] →
      (entryTimestamps now (table index other).1).1.get? name = members.get? name := by
    intro name apart
    simp only [List.mem_cons, List.not_mem_nil, or_false, not_or] at apart
    obtain ⟨created, updated, tag, field⟩ := apart
    rw [entryTimestamps, get?_timestamps created updated, get?_table tag field, same]
  have word : memberText "name" other = t.name := by
    rw [memberText, same, ← kept "name" (by decide), named]
    rfl
  refine ⟨members, rfl, (kept "id" (by decide)).symm.trans id,
    (kept "name" (by decide)).symm.trans named, ?_⟩
  have listed : items "fields" (entryTimestamps now (table index other).1).1 =
      (items "fields" members).map fun item => (inObject (field index t.name) item).1 := by
    rw [entryTimestamps, items_congr (get?_timestamps (by decide) (by decide)), table_eq, items_inItems,
      items_congr (get?_tags (by decide)), items_congr (same "fields"), word]
  rw [listed, List.forall₂_map_left_iff] at fields
  refine ((List.forall₂_and_left _ _).mpr ⟨fun _ inside => inside, fields⟩).imp
    fun item f both => ?_
  obtain ⟨inside, read⟩ := both
  have own := (distinct members rfl).identified item inside
  cases item with
  | object entry =>
    obtain ⟨_, _, done⟩ := read
    exact ⟨entry, rfl, Field.readFrom_of_decode done⟩
  | _ => contradiction

/-- The tables of a project, each with what it was drawn from. -/
theorem tables_drawn {p : Project} {rest : IdSupply} (distinct : DistinctTables (items "tables" members))
    (done : Project.decode (.object (normalised now members supply)) next = .ok (p, rest)) :
    List.Forall₂ (Holding (Drawn (index (timestamps now "project" members).1 supply)))
      (items "tables" members) p.tables := by
  rw [← items_tables_timed now] at distinct ⊢
  have restated := (List.forall₂_and_left _ _).mpr
    ⟨fun _ inside => inside, restated_identified distinct supply⟩
  have read : List.Forall₂ _ (items "tables" _) _ := decode_tables done
  rw [items_tables_normalised, List.forall₂_map_left_iff] at read
  refine forall₂_trans (fun item changed t ⟨inside, same⟩ read => ?_) restated read
  exact drawn_of_restated (fun table object => distinct.fields table (object ▸ inside)) same read

/-! ### Identifiers and names in the project -/

variable {index : List TableNames} {p : Project}

theorem nodup_of_holding {goes : Members → α → Prop} {items : List Json} {key : Json → Option String}
    {read : α → String} (told : ∀ members x, goes members x → key (.object members) = some (read x))
    (distinct : (items.map key).Nodup) (each : List.Forall₂ (Holding goes) items xs) :
    (xs.map read).Nodup := by
  have same : items.map key = (xs.map read).map some := by
    rw [List.map_map]
    refine map_eq_of_forall₂ (fun item x ⟨members, object, goes⟩ => ?_) each
    rw [object]
    exact told members x goes
  exact .of_map some (same ▸ distinct)

/-- Items that can be told apart become distinct in the project. -/
theorem Distinct.nodup {goes : Members → α → Prop} {items : List Json} {id own : α → String}
    (distinct : Distinct items) (each : List.Forall₂ (Holding goes) items xs)
    (told : ∀ members x, goes members x →
      members.get? "id" = some (.string (id x)) ∧ members.get? "name" = some (.string (own x))) :
    (xs.map id).Nodup ∧ (xs.map fun x => Text.lowered (own x)).Nodup := by
  refine ⟨nodup_of_holding (fun members x goes => ?_) distinct.ids each,
    nodup_of_holding (fun members x goes => ?_) distinct.names each⟩
  · exact textOf?_object.mpr (told members x goes).1
  · rw [textOf?_object.mpr (told members x goes).2, Option.map_some]

theorem readFrom_field {place : String} {f : Field} (read : f.ReadFrom (field index place members).1) :
    members.get? "id" = some (.string f.id) ∧ members.get? "name" = some (.string f.name) :=
  ⟨(get?_field (by decide) (by decide) (by decide) (by decide) (by decide)).symm.trans read.id,
    (get?_field (by decide) (by decide) (by decide) (by decide) (by decide)).symm.trans read.name⟩

theorem exists_drawn (drawn : List.Forall₂ (Holding (Drawn index)) (items "tables" members) p.tables)
    {t : Table} (member : t ∈ p.tables) :
    ∃ i table, listed? "tables" i members = some table ∧ p.tables[i]? = some t ∧ Drawn index table t := by
  obtain ⟨i, place⟩ := List.getElem?_of_mem member
  obtain ⟨_, given, table, rfl, goes⟩ := exists_of_forall₂ drawn.flip place
  exact ⟨i, table, listed?_eq_some_iff.mpr given, place, goes⟩

theorem exists_readFrom {i j : Nat} {table field : Members}
    (drawn : List.Forall₂ (Holding (Drawn index)) (items "tables" members) p.tables)
    (given : listed? "tables" i members = some table) (inside : listed? "fields" j table = some field) :
    ∃ t f, p.tables[i]? = some t ∧ t.fields[j]? = some f ∧ Drawn index table t ∧
      f.ReadFrom (Document.field index t.name field).1 := by
  obtain ⟨t, here, _, object, goes⟩ := exists_of_forall₂ drawn (listed?_eq_some_iff.mp given)
  obtain rfl := Json.object.inj object
  obtain ⟨f, within, _, object, read⟩ := exists_of_forall₂ goes.fields (listed?_eq_some_iff.mp inside)
  obtain rfl := Json.object.inj object
  exact ⟨t, f, here, within, goes, read⟩

theorem distinct_of_drawn (distinct : DistinctTables (items "tables" members))
    (drawn : List.Forall₂ (Holding (Drawn index)) (items "tables" members) p.tables) :
    p.Keyed ∧ p.NamesDistinct := by
  obtain ⟨ids, names⟩ := distinct.tables.nodup drawn fun _ _ goes => ⟨goes.id, goes.name⟩
  have fields : ∀ t ∈ p.tables, (t.fields.map (·.id)).Nodup ∧
      (t.fields.map fun f => Text.lowered f.name).Nodup := by
    intro t member
    obtain ⟨i, table, given, _, goes⟩ := exists_drawn drawn member
    exact (distinct.fields table (mem_items_of_listed? given)).nodup goes.fields
      fun _ _ read => readFrom_field read
  exact ⟨⟨ids, fun t member => (fields t member).1⟩, names, fun t member => (fields t member).2⟩

theorem called_iff_pointsAt
    (drawn : List.Forall₂ (Holding (Drawn index)) (items "tables" members) p.tables) :
    p.Called names target ↔ PointsAt members names target := by
  constructor
  · rintro ⟨t, member, id, named, f, inside, fieldId, fieldNamed⟩
    obtain ⟨i, table, given, _, goes⟩ := exists_drawn drawn member
    obtain ⟨j, place⟩ := List.getElem?_of_mem inside
    obtain ⟨_, within, entry, rfl, read⟩ := exists_of_forall₂ goes.fields.flip place
    obtain ⟨own, called⟩ := readFrom_field read
    exact ⟨i, j, table, entry, given, ⟨id ▸ goes.id, t.name, goes.name, named⟩,
      listed?_eq_some_iff.mpr within, ⟨fieldId ▸ own, f.name, called, fieldNamed⟩⟩
  · rintro ⟨i, j, table, entry, given, ⟨id, word, named, same⟩, within, ⟨fieldId, own, called, alike⟩⟩
    obtain ⟨t, f, place, inside, goes, read⟩ := exists_readFrom drawn given within
    obtain ⟨fieldIdGiven, fieldNameGiven⟩ := readFrom_field read
    have ids := Json.string.inj (Option.some.inj (goes.id.symm.trans id))
    have words := Json.string.inj (Option.some.inj (goes.name.symm.trans named))
    have fieldIds := Json.string.inj (Option.some.inj (fieldIdGiven.symm.trans fieldId))
    have fieldWords := Json.string.inj (Option.some.inj (fieldNameGiven.symm.trans called))
    exact ⟨t, List.mem_of_getElem? place, ids, words ▸ same, f, List.mem_of_getElem? inside, fieldIds,
      fieldWords ▸ alike⟩

end Document
end LakeSchema
