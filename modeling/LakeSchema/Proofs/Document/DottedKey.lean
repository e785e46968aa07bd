import LakeSchema.Proofs.Document.TableSource

/-!
# Foreign keys written as text

A field of a document may refer to another one by a dotted text. Once the document is loaded, the field
refers to the one field that has the names in the text; if there is none, it refers to nothing and is
warned about once (`load_dottedKey`).
-/

namespace LakeSchema

open Json (Members)

variable {now : Timestamp} {members table field : Members} {supply rest : IdSupply} {p : Project}
  {names : String × String} {target : Location} {text place name : String}
  {i j : Nat}

/-! ### Resolving -/

namespace Document

theorem Restated.symm {item changed : Json} (same : Restated item changed) : Restated changed item := by
  obtain ⟨members, other, object, object', alike⟩ := same
  exact ⟨other, members, object', object, fun name => (alike name).symm⟩

theorem PointsAt.restated {first second : Members}
    (same : List.Forall₂ Restated (items "tables" first) (items "tables" second))
    (points : PointsAt first names target) : PointsAt second names target := by
  obtain ⟨i, j, table, field, given, named, within, called⟩ := points
  obtain ⟨_, place, _, other, object, rfl, alike⟩ :=
    exists_of_forall₂ same (listed?_eq_some_iff.mp given)
  obtain rfl := Json.object.inj object
  obtain ⟨id, own, word, lower⟩ := named
  refine ⟨i, j, other, field, listed?_eq_some_iff.mpr place, ⟨?_, own, ?_, lower⟩, ?_, called⟩
  · rw [alike, id]
  · rw [alike, word]
  · rw [listed?_congr (alike "fields"), within]

theorem textOf?_of_restated {item changed : Json} (same : Restated item changed) (name : String) :
    textOf? name item = textOf? name changed := by
  obtain ⟨members, other, rfl, rfl, alike⟩ := same
  rw [textOf?, textOf?, Json.member?, Json.member?, alike]

theorem namesApart_of_restated {second : Members} (distinct : DistinctTables (items "tables" members))
    (same : List.Forall₂ Restated (items "tables" members) (items "tables" second)) :
    NamesApart second where
  tables := by
    have keys : (items "tables" members).map (fun item => (textOf? "name" item).map Text.lowered) =
        (items "tables" second).map fun item => (textOf? "name" item).map Text.lowered :=
      map_eq_of_forall₂ (fun _ _ same => congrArg _ (textOf?_of_restated same "name")) same
    rw [Apart, ← keys]
    exact distinct.tables.names
  fields i table given := by
    obtain ⟨_, place, other, _, rfl, object, alike⟩ :=
      exists_of_forall₂ same.flip (listed?_eq_some_iff.mp given)
    obtain rfl := Json.object.inj object
    rw [items_congr (alike "fields")]
    exact (distinct.fields other (List.mem_of_getElem? place)).names

/-- In a document whose tables can be told apart, a dotted text resolves to the field it names. -/
theorem resolve?_iff_pointsAt (distinct : DistinctTables (items "tables" members)) (now : Timestamp)
    (supply : IdSupply) (split : lastTwo? text = some names) :
    resolve? (index (timestamps now "project" members).1 supply) text = some target ↔
      PointsAt members names target := by
  rw [← items_tables_timed now] at distinct
  have restated := restated_identified distinct supply
  rw [resolve?_eq_some_iff (namesApart_of_restated distinct restated) split]
  rw [items_tables_timed] at restated
  exact ⟨fun points => points.restated (restated.flip.imp fun _ _ same => Restated.symm same),
    fun points => points.restated restated⟩

/-! ### Warnings about keys -/

end Document

/-- A warning about the foreign key of the field of a table. -/
def Warning.aboutKey (table field : String) : Warning → Bool
  | .keyTextDropped place name _ | .referenceDropped place name _ => place == table && name == field
  | _ => false

section Only

variable {α β : Type} {xs : List α} {x : α} {f : α → List β} {keep : β → Bool}

/-- If one item gives all that is kept, that is what is kept of all items. -/
theorem filter_flatMap_eq (here : xs[i]? = some x)
    (others : ∀ k y, xs[k]? = some y → k ≠ i → ∀ b ∈ f y, keep b = false) :
    (xs.flatMap f).filter keep = (f x).filter keep := by
  have none : ∀ ys : List α, (∀ y ∈ ys, ∀ b ∈ f y, keep b = false) → (ys.flatMap f).filter keep = [] := by
    intro ys barren
    refine List.filter_eq_nil_iff.mpr fun b inside => ?_
    obtain ⟨y, member, given⟩ := List.mem_flatMap.mp inside
    simp [barren y member b given]
  induction xs generalizing i with
  | nil => cases here
  | cons first later ih =>
    rw [List.flatMap_cons, List.filter_append]
    cases i with
    | zero =>
      obtain rfl := Option.some.inj here
      rw [none later fun y member => ?_, List.append_nil]
      obtain ⟨k, place⟩ := List.getElem?_of_mem member
      exact others (k + 1) y place (by simp)
    | succ i =>
      have barren : (f first).filter keep = [] :=
        List.filter_eq_nil_iff.mpr fun b inside => by simp [others 0 first rfl (by simp) b inside]
      rw [barren, List.nil_append]
      exact ih here fun k y place apart => others (k + 1) y place (by simpa using apart)

end Only

namespace Document

/-- Whatever is said about a key while a field is rewritten is about the key of this field. -/
theorem aboutKey_field {index : List TableNames} {own : String} {w : Warning}
    (warned : w ∈ (Document.field index own members).2) (about : w.aboutKey place name = true) :
    own = place ∧ memberText "name" members = name := by
  rcases List.mem_append.mp (field_eq index own members ▸ warned) with typed | keyed
  · obtain ⟨_, _, _, _, rfl⟩ := mem_typed_warnings typed
    contradiction
  · obtain ⟨_, rfl⟩ := mem_foreignKey_warnings keyed
    simpa [Warning.aboutKey] using about

theorem mem_inObject {change : Members → Members × List Warning} {item : Json} {w : Warning}
    (warned : w ∈ (inObject change item).2) : ∃ members, item = .object members ∧ w ∈ (change members).2 := by
  cases item with
  | object members => exact ⟨members, rfl, warned⟩
  | _ => cases warned

theorem warnings_table (index : List TableNames) (members : Members) :
    (Document.table index members).2 = (items "fields" members).flatMap fun item =>
      (inObject (Document.field index (memberText "name" members)) item).2 := by
  rw [table_eq, warnings_inItems, items_congr (get?_tags (by decide))]

theorem warnings_tabled (distinct : DistinctTables (items "tables" members)) (supply : IdSupply) :
    (tabled members supply).2 = (items "tables" members).flatMap fun item =>
      (inObject (Document.table (index members supply)) item).2 := by
  rw [tabled, warnings_inItems, List.flatMap_def, List.flatMap_def]
  refine congrArg _ (map_eq_of_forall₂ (fun item changed same => ?_)
    (restated_identified distinct supply)).symm
  obtain ⟨first, second, rfl, rfl, alike⟩ := same
  simp only [inObject, warnings_table, items_congr (alike "fields"), memberText, alike]

variable {index : List TableNames} {t : Table} {f : Field}

/-- Of what normalising the fields of a table says about the key of one of them, all is said while this
field is rewritten. -/
theorem filter_table (names : p.NamesDistinct) (member : t ∈ p.tables) (goes : Drawn index table t)
    (given : listed? "fields" j table = some field) (inside : t.fields[j]? = some f) :
    (Document.table index table).2.filter (Warning.aboutKey t.name f.name) =
      (Document.field index t.name field).2.filter (Warning.aboutKey t.name f.name) := by
  have own : memberText "name" table = t.name := by
    rw [memberText, goes.name]
    rfl
  rw [warnings_table, own]
  refine filter_flatMap_eq (listed?_eq_some_iff.mp given) fun k item other apart w warned => ?_
  obtain ⟨entry, rfl, said⟩ := mem_inObject warned
  refine Bool.eq_false_iff.mpr fun about => apart ?_
  obtain ⟨g, place, _, object, read⟩ := exists_of_forall₂ goes.fields other
  obtain rfl := Json.object.inj object
  have called : memberText "name" entry = g.name := by
    rw [memberText, (readFrom_field read).2]
    rfl
  exact getElem?_inj_of_nodup (names.fields t member) place inside
    (congrArg _ (called.symm.trans (aboutKey_field said about).2))

theorem filter_timestamps {ws : List Warning}
    (timed : ∀ w ∈ ws, ∃ label name text, w = .timestampReplaced label name text) :
    ws.filter (Warning.aboutKey place name) = [] := by
  refine List.filter_eq_nil_iff.mpr fun w warned => ?_
  obtain ⟨_, _, _, rfl⟩ := timed w warned
  exact Bool.false_ne_true

/-- Of what normalising tables says about the key of a field, all is said while its table is
rewritten. -/
theorem filter_tables (names : p.NamesDistinct)
    (drawn : List.Forall₂ (Holding (Drawn index)) (items "tables" members) p.tables)
    (given : listed? "tables" i members = some table) (here : p.tables[i]? = some t) :
    ((items "tables" members).flatMap fun item => (inObject (Document.table index) item).2).filter
        (Warning.aboutKey t.name name) =
      (Document.table index table).2.filter (Warning.aboutKey t.name name) := by
  refine filter_flatMap_eq (listed?_eq_some_iff.mp given) fun k item other apart w warned => ?_
  obtain ⟨entry, rfl, said⟩ := mem_inObject warned
  refine Bool.eq_false_iff.mpr fun about => apart ?_
  obtain ⟨u, elsewhere, _, object, goes⟩ := exists_of_forall₂ drawn other
  obtain rfl := Json.object.inj object
  have called : memberText "name" entry = u.name := by
    rw [memberText, goes.name]
    rfl
  rw [warnings_table] at said
  obtain ⟨item, _, said⟩ := List.mem_flatMap.mp said
  obtain ⟨inner, _, said⟩ := mem_inObject said
  exact getElem?_inj_of_nodup names.tables elsewhere here
    (congrArg _ (called.symm.trans (aboutKey_field said about).1))

/-- What normalising a document says about the key of a field is said while this field is
rewritten. -/
theorem filter_warnings (distinct : DistinctTables (items "tables" members))
    (drawn : List.Forall₂ (Holding (Drawn (Document.index (timestamps now "project" members).1 supply)))
      (items "tables" members) p.tables)
    (given : listed? "tables" i members = some table) (inside : listed? "fields" j table = some field)
    (here : p.tables[i]? = some t) (within : t.fields[j]? = some f) :
    (warnings now members supply).filter (Warning.aboutKey t.name f.name) =
      (Document.field (Document.index (timestamps now "project" members).1 supply) t.name field).2.filter
        (Warning.aboutKey t.name f.name) := by
  have names := (distinct_of_drawn distinct drawn).2
  have root : (timestamps now "project" members).2.filter (Warning.aboutKey t.name f.name) = [] :=
    filter_timestamps fun w warned => ⟨_, mem_timestamps_warnings warned⟩
  have lists : (listTimestamps now timestamped (prepared now members supply)).2.filter
      (Warning.aboutKey t.name f.name) = [] := by
    refine filter_timestamps fun w warned => ?_
    obtain ⟨_, _, _, _, _, dated⟩ := (mem_listTimestamps_iff (by decide)).mp warned
    exact ⟨_, mem_timestamps_warnings dated⟩
  have goes : Drawn (Document.index (timestamps now "project" members).1 supply) table t := by
    obtain ⟨u, there, _, object, goes⟩ := exists_of_forall₂ drawn (listed?_eq_some_iff.mp given)
    obtain rfl := Option.some.inj (there.symm.trans here)
    obtain rfl := Json.object.inj object
    exact goes
  rw [warnings, List.filter_append, List.filter_append, root, lists, List.append_nil, List.nil_append,
    warnings_tabled ((items_tables_timed now members).symm ▸ distinct), items_tables_timed,
    filter_tables names drawn given here]
  exact filter_table names (List.mem_of_getElem? here) goes inside within

end Document

/-! ### Repairing -/

namespace Project

variable {t : Table} {f : Field} {l : Location}

theorem repairField_name (own : String) (f : Field) : (p.repairField own f).1.name = f.name := by
  unfold repairField
  split
  · rfl
  · split <;> rfl

theorem aboutKey_repairField {own : String} {w : Warning} (warned : w ∈ (p.repairField own f).2)
    (about : w.aboutKey place name = true) : own = place ∧ f.name = name := by
  unfold repairField at warned
  split at warned
  · cases warned
  · split at warned
    · cases warned
    · obtain rfl := List.mem_singleton.mp warned
      simpa [Warning.aboutKey] using about

theorem warnings_repairTable (p : Project) (t : Table) :
    (p.repairTable t).2 = t.fields.flatMap fun f => (p.repairField t.name f).2 :=
  List.flatMap_map _ _ _

/-- What a repair says about the key of a field is said when this field is repaired. -/
theorem filter_repairReferences (names : p.NamesDistinct) (here : p.tables[i]? = some t)
    (within : t.fields[j]? = some f) :
    p.repairReferences.2.filter (Warning.aboutKey t.name f.name) =
      (p.repairField t.name f).2.filter (Warning.aboutKey t.name f.name) := by
  have tables : p.repairReferences.2 = p.tables.flatMap fun t => (p.repairTable t).2 :=
    List.flatMap_map _ _ _
  rw [tables, filter_flatMap_eq here fun k u other apart w warned => ?_, warnings_repairTable,
    filter_flatMap_eq within fun k g other apart w warned => ?_]
  · refine Bool.eq_false_iff.mpr fun about => apart ?_
    exact getElem?_inj_of_nodup (names.fields t (List.mem_of_getElem? here)) other within
      (congrArg _ (aboutKey_repairField warned about).2)
  · refine Bool.eq_false_iff.mpr fun about => apart ?_
    rw [warnings_repairTable] at warned
    obtain ⟨g, _, said⟩ := List.mem_flatMap.mp warned
    exact getElem?_inj_of_nodup names.tables other here
      (congrArg _ (aboutKey_repairField said about).1)

theorem Called.has (called : p.Called names l) : p.Has l := by
  obtain ⟨t, member, id, _, f, inside, fieldId, _⟩ := called
  exact ⟨t, member, id, f, inside, fieldId⟩

theorem called_repairReferences : p.repairReferences.1.Called names l ↔ p.Called names l := by
  simp only [Called, repairReferences_tables, List.mem_map, exists_exists_and_eq_and,
    p.repairTable_fieldwise.fields, p.repairTable_fieldwise.id, repairField_name, repairField_id]
  rfl

end Project

/-! ### Loading -/

namespace Document

variable {document : Json} {result : Loaded} {t : Table} {f : Field}

/-- What has become of a field whose foreign key was a text with these names at its end. -/
structure KeySettled (result : Loaded) (names : String × String) (text : String) (t : Table)
    (f : Field) : Prop where
  followed : ∀ target, result.project.Called names target →
    f.isForeignKey = true ∧ f.reference = some (.ofTarget target) ∧
      result.warnings.filter (Warning.aboutKey t.name f.name) = []
  dropped : (∀ target, ¬ result.project.Called names target) →
    f.isForeignKey = false ∧ f.reference = none ∧
      result.warnings.filter (Warning.aboutKey t.name f.name) = [.keyTextDropped t.name f.name text]

theorem reference_of_yields {r : Option Reference}
    (read : Decode.Yields (Decode.option Reference.decode) (referenceTo target) r) :
    r = some (.ofTarget target) := by
  obtain ⟨supply, next, done⟩ := read
  have told : Decode.option Reference.decode (referenceTo target) supply =
      .ok (some (.ofTarget target), supply) := rfl
  exact congrArg Prod.fst (Except.ok.inj (done.symm.trans told))

theorem flag_of_readFrom {b : Bool} (read : f.ReadFrom members)
    (given : members.get? "is_foreign_key" = some (.bool b)) : f.isForeignKey = b := by
  rcases read.flag with ⟨missing, _⟩ | ⟨value, found, _, _, done⟩
  · rw [missing] at given
    contradiction
  · obtain rfl := Option.some.inj (found.symm.trans given)
    exact Decode.pure_eq_ok done

theorem filter_typed (own : String) (members : Members) :
    (typed own members).2.filter (Warning.aboutKey place name) = [] := by
  refine List.filter_eq_nil_iff.mpr fun w warned => ?_
  obtain ⟨_, _, _, _, rfl⟩ := mem_typed_warnings warned
  exact Bool.false_ne_true

variable {index : List TableNames} {own : String}

/-- A field whose text resolves is read with a reference to the target. -/
theorem followed_of_readFrom (read : f.ReadFrom (Document.field index own members).1)
    (key : members.get? "foreign_key_reference" = some (.string text))
    (resolved : resolve? index text = some target) :
    f.isForeignKey = true ∧ f.reference = some (.ofTarget target) ∧
      (Document.field index own members).2.filter (Warning.aboutKey own f.name) = [] := by
  obtain ⟨reference, flag, warned⟩ : _ ∧ _ ∧ (Document.field index own members).2 = _ :=
    field_resolved key resolved
  refine ⟨flag_of_readFrom read flag, ?_, warned ▸ filter_typed own members⟩
  rcases read.reference with ⟨missing, _⟩ | ⟨value, found, refers⟩
  · rw [missing] at reference
    contradiction
  · obtain rfl := Option.some.inj (found.symm.trans reference)
    exact reference_of_yields refers

/-- A field whose text does not resolve is read without a reference, and there is a warning. -/
theorem dropped_of_readFrom (read : f.ReadFrom (Document.field index own members).1)
    (key : members.get? "foreign_key_reference" = some (.string text))
    (missing : resolve? index text = none) :
    f.isForeignKey = false ∧ f.reference = none ∧
      (Document.field index own members).2.filter (Warning.aboutKey own f.name) =
        [.keyTextDropped own f.name text] := by
  obtain ⟨reference, flag, warned⟩ : _ ∧ _ ∧ (Document.field index own members).2 = _ :=
    field_unresolved key missing
  have called : memberText "name" members = f.name := by
    rw [memberText, (readFrom_field read).2]
    rfl
  refine ⟨flag_of_readFrom read flag, ?_, ?_⟩
  · rcases read.reference with ⟨_, none⟩ | ⟨value, found, _⟩
    · exact none
    · rw [reference] at found
      contradiction
  · rw [warned, called, List.filter_append, filter_typed, List.nil_append]
    simp [Warning.aboutKey]

/-- What loading says about the key of a field is said while this field is rewritten and repaired. -/
theorem filter_loaded (distinct : DistinctTables (items "tables" members))
    (drawn : List.Forall₂ (Holding (Drawn (Document.index (timestamps now "project" members).1 supply)))
      (items "tables" members) p.tables)
    (given : listed? "tables" i members = some table) (inside : listed? "fields" j table = some field)
    (here : p.tables[i]? = some t) (within : t.fields[j]? = some f) :
    (Loaded.ofProject p (warnings now members supply)).warnings.filter
        (Warning.aboutKey t.name f.name) =
      (Document.field (Document.index (timestamps now "project" members).1 supply) t.name field).2.filter
          (Warning.aboutKey t.name f.name) ++
        (p.repairField t.name f).2.filter (Warning.aboutKey t.name f.name) := by
  rw [← Project.filter_repairReferences (distinct_of_drawn distinct drawn).2 here within,
    ← filter_warnings distinct drawn given inside here within]
  exact List.filter_append _ _

/-- A repair leaves alone what has become of a text: references lead to fields of the project, and where
there is none nothing is reported again. -/
theorem keySettled_of_drawn (distinct : DistinctTables (items "tables" members))
    (drawn : List.Forall₂ (Holding (Drawn (Document.index (timestamps now "project" members).1 supply)))
      (items "tables" members) p.tables)
    (given : listed? "tables" i members = some table) (inside : listed? "fields" j table = some field)
    (here : p.tables[i]? = some t) (within : t.fields[j]? = some f)
    (read : f.ReadFrom
      (Document.field (Document.index (timestamps now "project" members).1 supply) t.name field).1)
    (key : field.get? "foreign_key_reference" = some (.string text))
    (dotted : Dotted text names.1 names.2) :
    KeySettled (.ofProject p (warnings now members supply)) names text (p.repairTable t).1
      (p.repairField t.name f).1 := by
  have keyed := (distinct_of_drawn distinct drawn).1
  have said (target) : resolve? (Document.index (timestamps now "project" members).1 supply) text =
      some target ↔ p.Called names target := by
    rw [resolve?_iff_pointsAt distinct now supply (lastTwo?_of_dotted dotted)]
    exact (called_iff_pointsAt drawn).symm
  have warned := filter_loaded distinct drawn given inside here within
  constructor
  · intro target called
    have called := Project.called_repairReferences.mp called
    obtain ⟨flag, refers, silent⟩ := followed_of_readFrom read key ((said target).mpr called)
    have held : p.holds target = true := (Project.holds_iff keyed target).mpr called.has
    have kept : p.repairField t.name f = ({ f with isForeignKey := true }, []) := by
      unfold Project.repairField
      rw [refers]
      exact if_pos held
    rw [kept] at warned ⊢
    exact ⟨rfl, refers, warned.trans (by rw [silent]; rfl)⟩
  · intro missing
    have none : resolve? (Document.index (timestamps now "project" members).1 supply) text = none :=
      Option.eq_none_iff_forall_ne_some.mpr fun target resolved =>
        missing target (Project.called_repairReferences.mpr ((said target).mp resolved))
    obtain ⟨flag, refers, single⟩ := dropped_of_readFrom read key none
    have kept : p.repairField t.name f = (f, []) := by
      unfold Project.repairField
      rw [refers]
    rw [kept] at warned ⊢
    exact ⟨flag, refers, warned.trans (by rw [single]; rfl)⟩

/-- A field with a text for its reference cannot be read. -/
theorem not_text_of_decode (done : Project.decode document supply = .ok (p, rest))
    (given : (tableItems document)[i]? = some (.object table))
    (inside : listed? "fields" j table = some field) :
    field.get? "foreign_key_reference" ≠ some (.string text) := by
  intro key
  obtain ⟨t, _, _, _, read⟩ := exists_of_forall₂ (decode_tables done) given
  have fields := (Table.readFrom_of_decode read).fields
  obtain ⟨f, _, _, _, read⟩ := exists_of_forall₂ fields (listed?_eq_some_iff.mp inside)
  rcases (Field.readFrom_of_decode read).reference with ⟨missing, _⟩ | ⟨value, found, _, _, refers⟩
  · rw [key] at missing
    contradiction
  · obtain rfl := Option.some.inj (found.symm.trans key)
    contradiction

/-- The table and the field have the identifiers and names that a document gives them. -/
structure Given (table field : Members) (t : Table) (f : Field) : Prop where
  tableId : table.get? "id" = some (.string t.id)
  tableName : table.get? "name" = some (.string t.name)
  fieldId : field.get? "id" = some (.string f.id)
  fieldName : field.get? "name" = some (.string f.name)

/-- A field with a dotted text for its foreign key refers to the field of these names once the document
is loaded. If there is none it refers to nothing, with one warning. -/
theorem load_dottedKey (distinct : DistinctTables (tableItems document))
    (loaded : load now document supply = .ok (result, rest))
    (given : (tableItems document)[i]? = some (.object table))
    (inside : listed? "fields" j table = some field)
    (key : field.get? "foreign_key_reference" = some (.string text))
    (dotted : Dotted text names.1 names.2) :
    ∃ t f, result.project.tables[i]? = some t ∧ t.fields[j]? = some f ∧ Given table field t f ∧
      KeySettled result names text t f := by
  obtain ⟨p, done, rfl⟩ := load_eq_ok loaded
  cases document with
  | object members =>
    obtain ⟨next, same⟩ := normalise_object now members supply
    rw [same] at done ⊢
    have drawn := tables_drawn distinct done
    have listed : listed? "tables" i members = some table := listed?_eq_some_iff.mpr given
    obtain ⟨t, f, here, within, goes, read⟩ := exists_readFrom drawn listed inside
    obtain ⟨fieldId, fieldName⟩ := readFrom_field read
    have settled := keySettled_of_drawn distinct drawn listed inside here within read key dotted
    refine ⟨(p.repairTable t).1, (p.repairField t.name f).1, ?_, ?_, ⟨goes.id, goes.name, ?_, ?_⟩,
      settled⟩
    · show p.repairReferences.1.tables[i]? = _
      rw [Project.repairReferences_tables, List.getElem?_map, here, Option.map_some]
    · show ((t.fields.map (p.repairField t.name)).map Prod.fst)[j]? = _
      rw [List.getElem?_map, List.getElem?_map, within]
      rfl
    · rw [fieldId, Project.repairField_id]
    · rw [fieldName, Project.repairField_name]
  | _ => exact absurd key (not_text_of_decode done given inside)

/-- The members of a field of whole numbers. -/
def counter (id name : String) : Members :=
  [("data_type", .string "INT"), ("id", .string id), ("name", .string name)]

/-- A table of one field. -/
def narrow (id name : String) (field : Members) : Json :=
  .object [("fields", .array [.object field]), ("id", .string id), ("name", .string name)]

/-- A document in which letters refer to the people in the table behind them. -/
def office : Json :=
  .object [("catalog_name", .string "main"), ("id", .string "S"), ("name", .string "office"),
    ("schema_name", .string "office"),
    ("tables", .array [
      narrow "L" "letters"
        (("foreign_key_reference", .string "main.\x60people\x60.id") :: counter "G" "person"),
      narrow "P" "People" (counter "F" "Id")])]

theorem distinct_singleton (id : String) (given : members.get? "id" = some (.string id)) :
    Distinct [.object members] := by
  refine ⟨fun item member => ?_, List.nodup_singleton _, List.nodup_singleton _⟩
  obtain rfl := List.mem_singleton.mp member
  rw [textOf?_object.mpr given]
  rfl

theorem office_distinct : DistinctTables (tableItems office) := by
  refine ⟨⟨by decide, by decide, by unfold Apart; decide⟩, fun table member => ?_⟩
  have listed : tableItems office = [narrow "L" "letters"
      (("foreign_key_reference", .string "main.\x60people\x60.id") :: counter "G" "person"),
    narrow "P" "People" (counter "F" "Id")] := rfl
  rw [listed] at member
  rcases List.mem_pair.mp member with same | same <;> obtain rfl := Json.object.inj same
  · exact distinct_singleton "G" rfl
  · exact distinct_singleton "F" rfl

theorem office_followsKey : ∃ result rest t f,
    load Project.newYear office ⟨0⟩ = .ok (result, rest) ∧ result.project.tables[0]? = some t ∧
      t.fields[0]? = some f ∧ f.isForeignKey = true ∧ f.reference = some (.ofTarget ⟨"P", "F"⟩) := by
  have loaded : load Project.newYear office ⟨0⟩ = .ok (_, _) := rfl
  have dotted : Dotted "main.\x60people\x60.id" ("people", "id").1 ("people", "id").2 :=
    ⟨⟨⟨by decide, by decide, by decide⟩, ⟨by decide, by decide, by decide⟩⟩,
      "main.".toList, "\x60people\x60".toList, "id".toList, .inr ⟨"main".toList, by decide⟩,
      ⟨1, 1, by decide⟩, ⟨0, 0, by decide⟩, by decide⟩
  obtain ⟨t, f, here, within, _, settled⟩ :=
    load_dottedKey (i := 0) (j := 0) office_distinct loaded rfl rfl rfl dotted
  obtain ⟨flag, refers, _⟩ := settled.followed ⟨"P", "F"⟩
    ⟨_, .tail _ (.head _), rfl, by decide, _, .head _, rfl, by decide⟩
  exact ⟨_, _, t, f, loaded, here, within, flag, refers⟩

end Document

end LakeSchema
