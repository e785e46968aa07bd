import LakeSchema.Proofs.Edit.Linking
import LakeSchema.Proofs.Edit.Patch

/-!
# Where the entities of a project come from

Every entity that an edit leaves was there before, or is written by the edit. What is written notes
the time; its name is acceptable or was there before, and so are the names of its fields, apart from
those of a field list that the edit was given. `Derived` says so of two projects, and is proved here of
each edit; imports are the exception.
-/

namespace LakeSchema

/-! ### Lists -/

/-- Every item was there before or is written. -/
def Accounted {α : Type} (written : α → Prop) (before after : List α) : Prop :=
  ∀ x ∈ after, x ∈ before ∨ written x

namespace Accounted

variable {α : Type} {written : α → Prop} {before middle after items : List α}

theorem of_subset (fewer : after ⊆ before) : Accounted written before after :=
  fun _ member => .inl (fewer member)

theorem refl (written : α → Prop) (items : List α) : Accounted written items items :=
  of_subset fun _ member => member

theorem trans {later : α → Prop} (first : Accounted written before middle)
    (second : Accounted later middle after) (weaken : ∀ x, later x → written x) :
    Accounted written before after := by
  intro x member
  rcases second x member with inside | wrote
  · exact first x inside
  · exact .inr (weaken x wrote)

theorem append {new : List α} (each : ∀ x ∈ new, written x) :
    Accounted written items (items ++ new) := by
  intro x member
  exact (List.mem_append.mp member).imp_right (each x)

theorem concat {x : α} (wrote : written x) : Accounted written items (items ++ [x]) :=
  append (List.forall_mem_singleton.mpr wrote)

theorem updateFirst {has : α → Bool} {change : α → α}
    (each : ∀ x ∈ items, has x = true → written (change x)) :
    Accounted written items (Project.updateFirst has change items) := by
  intro x member
  refine (Project.mem_updateFirst member).imp_right ?_
  rintro ⟨y, present, matched, rfl⟩
  exact each y present matched

end Accounted

/-! ### Projects -/

namespace Project

variable {p q r : Project} {given : List String} {now : Timestamp} {t u : Table} {f : Field}
  {id name : String} {l : Location} {policy : OriginPolicy}

/-- A name for tables and views that is acceptable or known. -/
def TableNamed (known : List String) (name : String) : Prop :=
  Name.tableProblem? name = none ∨ name ∈ known

/-- A name for fields that is acceptable or known. -/
def FieldNamed (known : List String) (name : String) : Prop :=
  Name.fieldProblem? name = none ∨ name ∈ known

def fieldNames (p : Project) : List String :=
  p.tables.flatMap fun t => t.fields.map (·.name)

theorem mem_fieldNames (member : t ∈ p.tables) (present : f ∈ t.fields) : f.name ∈ p.fieldNames :=
  List.mem_flatMap.mpr ⟨t, member, List.mem_map_of_mem present⟩

theorem mem_fieldNames_of_field? (found : p.field? l = some f) : f.name ∈ p.fieldNames := by
  obtain ⟨t, located, present⟩ := Option.bind_eq_some_iff.mp found
  exact mem_fieldNames (List.mem_of_find?_eq_some located) (List.mem_of_find?_eq_some present)

/-- A table written by an edit of `p` that was given the names of some fields. -/
structure Writes (given : List String) (now : Timestamp) (p : Project) (u : Table) : Prop where
  updatedAt : u.updatedAt = now
  name : TableNamed (p.tables.map (·.name)) u.name
  fields : ∀ f ∈ u.fields, FieldNamed (given ++ p.fieldNames) f.name

/-- A name that is changed is checked; one that is kept is known. -/
theorem tableNamed_of_change {known : List String} {change : Change String}
    (old : name ∈ known) (checked : change.isSet → Name.tableProblem? (change.on name) = none) :
    TableNamed known (change.on name) := by
  cases change with
  | keep => exact .inr old
  | set new => exact .inl (checked rfl)

/-- All entities of the second project come from the first or are written by an edit of it. -/
structure Derived (given : List String) (now : Timestamp) (p q : Project) : Prop where
  tables : Accounted (Writes given now p) p.tables q.tables
  relationships : Accounted (·.updatedAt = now) p.relationships q.relationships
  metricViews : Accounted
    (fun v => v.updatedAt = now ∧ TableNamed (p.metricViews.map (·.name)) v.name)
    p.metricViews q.metricViews
  traditionalViews : Accounted
    (fun v => v.updatedAt = now ∧ TableNamed (p.traditionalViews.map (·.name)) v.name)
    p.traditionalViews q.traditionalViews

namespace Derived

theorem of_subset (tables : q.tables ⊆ p.tables) (relationships : q.relationships ⊆ p.relationships)
    (metricViews : q.metricViews ⊆ p.metricViews)
    (traditionalViews : q.traditionalViews ⊆ p.traditionalViews) : Derived given now p q :=
  ⟨.of_subset tables, .of_subset relationships, .of_subset metricViews,
    .of_subset traditionalViews⟩

theorem refl (given : List String) (now : Timestamp) (p : Project) : Derived given now p p :=
  ⟨.refl _ _, .refl _ _, .refl _ _, .refl _ _⟩

theorem tableName (derived : Derived given now p q) (member : t ∈ q.tables) :
    TableNamed (p.tables.map (·.name)) t.name := by
  rcases derived.tables t member with old | wrote
  · exact .inr (List.mem_map_of_mem old)
  · exact wrote.name

theorem fieldName (derived : Derived given now p q) (member : t ∈ q.tables) (present : f ∈ t.fields) :
    FieldNamed (given ++ p.fieldNames) f.name := by
  rcases derived.tables t member with old | wrote
  · exact .inr (List.mem_append_right given (mem_fieldNames old present))
  · exact wrote.fields f present

theorem fieldNamed (derived : Derived given now p q)
    (named : FieldNamed (given ++ q.fieldNames) name) : FieldNamed (given ++ p.fieldNames) name := by
  rcases named with acceptable | known
  · exact .inl acceptable
  rcases List.mem_append.mp known with new | old
  · exact .inr (List.mem_append_left _ new)
  · obtain ⟨t, member, inside⟩ := List.mem_flatMap.mp old
    obtain ⟨f, present, rfl⟩ := List.mem_map.mp inside
    exact derived.fieldName member present

theorem writes (derived : Derived given now p q) (wrote : Writes given now q u) :
    Writes given now p u where
  updatedAt := wrote.updatedAt
  name := by
    rcases wrote.name with acceptable | known
    · exact .inl acceptable
    · obtain ⟨t, member, same⟩ := List.mem_map.mp known
      exact same ▸ derived.tableName member
  fields f present := derived.fieldNamed (wrote.fields f present)

theorem viewName {α : Type} {name : α → String} {stamp : α → Timestamp} {before middle : List α}
    (first : Accounted (fun v => stamp v = now ∧ TableNamed (before.map name) (name v)) before middle)
    (v : α) (wrote : stamp v = now ∧ TableNamed (middle.map name) (name v)) :
    stamp v = now ∧ TableNamed (before.map name) (name v) := by
  refine ⟨wrote.1, ?_⟩
  rcases wrote.2 with acceptable | known
  · exact .inl acceptable
  · obtain ⟨w, member, same⟩ := List.mem_map.mp known
    rw [← same]
    exact (first w member).elim (fun old => .inr (List.mem_map_of_mem old)) (·.2)

theorem trans (first : Derived given now p q) (second : Derived given now q r) :
    Derived given now p r where
  tables := first.tables.trans second.tables fun _ => first.writes
  relationships := first.relationships.trans second.relationships fun _ noted => noted
  metricViews := first.metricViews.trans second.metricViews (viewName first.metricViews)
  traditionalViews :=
    first.traditionalViews.trans second.traditionalViews (viewName first.traditionalViews)

end Derived

/-! ### Writing tables -/

theorem Writes.of_names (member : t ∈ p.tables) (noted : u.updatedAt = now) (name : u.name = t.name)
    (fields : ∀ f ∈ u.fields, f.name ∈ t.fields.map (·.name)) : Writes given now p u where
  updatedAt := noted
  name := .inr (name ▸ List.mem_map_of_mem member)
  fields f present := by
    obtain ⟨g, inside, same⟩ := List.mem_map.mp (fields f present)
    exact .inr (List.mem_append_right given (same ▸ mem_fieldNames member inside))

theorem derived_updateTable {change : Table → Table}
    (wrote : ∀ t ∈ p.tables, t.id = id → Writes given now p (change t)) :
    Derived given now p (p.updateTable id change) :=
  { Derived.refl given now p with
    tables := .updateFirst fun t member same => wrote t member (beq_iff_eq.mp same) }

theorem derived_updateField {g : Field → Field} (keeps : ∀ f, (g f).name = f.name) :
    Derived given now p (p.updateTable l.table fun t =>
      { t with fields := updateFirst (·.id == l.field) g t.fields, updatedAt := now }) := by
  refine derived_updateTable fun t member _ => .of_names member rfl rfl fun f present => ?_
  have same : (updateFirst (·.id == l.field) g t.fields).map (·.name) = t.fields.map (·.name) :=
    updateFirst_map_key keeps
  exact same ▸ List.mem_map_of_mem present

/-- Fields rewritten in place keep known names if each of them does. -/
theorem derived_rewriting {g : Table → Table} {h : Location → Field → Field}
    (rewriting : Rewriting now g h)
    (named : ∀ l, ∀ t ∈ p.tables, ∀ f ∈ t.fields, FieldNamed (given ++ p.fieldNames) (h l f).name) :
    Derived given now p { p with tables := p.tables.map g } := by
  refine { Derived.refl given now p with tables := fun u member => ?_ }
  obtain ⟨t, present, rfl⟩ := List.mem_map.mp member
  rcases rewriting.stamped t with same | noted
  · exact .inl (same.symm ▸ present)
  · refine .inr ⟨noted, .inr (rewriting.name t ▸ List.mem_map_of_mem present), fun f inside => ?_⟩
    rw [rewriting.fields] at inside
    obtain ⟨f, held, rfl⟩ := List.mem_map.mp inside
    exact named _ t present f held

theorem derived_detachWhere (condition : Field → Bool) :
    Derived given now p { p with tables := p.tables.map (·.detachWhere condition now) } :=
  derived_rewriting (detachWhere_rewriting condition now) fun _ _ member f present => by
    rw [Field.detachWhen_name]
    exact .inr (List.mem_append_right given (mem_fieldNames member present))

theorem derived_filter (kept : Relationship → Bool) :
    Derived given now p { p with relationships := p.relationships.filter kept } :=
  .of_subset (fun _ member => member) (List.filter_subset_self _) (fun _ member => member)
    fun _ member => member

/-! ### Tables and fields -/

theorem addTable_derived {spec : TableSpec} {answer : Table}
    (done : p.addTable spec now = .ok (answer, q)) : Derived given now p q := by
  obtain ⟨named, fields, _, rfl, rfl⟩ := addTable_effect done
  exact { Derived.refl given now p with
    tables := .concat ⟨rfl, .inl named, fun f member => .inl (fields f member)⟩ }

/-- All that is new in a table comes with the change, and fields elsewhere are only called after
fields of the table. -/
theorem patchTable_derived {patch : TablePatch} {answer : Table}
    (named : ∀ t, p.table? id = some t →
      ∀ f ∈ patch.fields.on t.fields, FieldNamed (given ++ p.fieldNames) f.name)
    (done : p.patchTable policy id patch now = .ok (answer, q)) : Derived given now p q := by
  obtain ⟨t, g, h, kept, located, checked, aftermath, _, rfl, _⟩ := patchTable_effect done
  have member := List.mem_of_find?_eq_some located
  have same : t.id = id := table?_id located
  have wrote : Writes given now p ((patch.apply t).touch now) :=
    ⟨rfl, tableNamed_of_change (List.mem_map_of_mem member) checked, named t located⟩
  have written : Derived given now p (p.updateTable id fun _ => (patch.apply t).touch now) :=
    derived_updateTable fun _ _ _ => wrote
  have inside : (patch.apply t).touch now ∈
      (p.updateTable id fun _ => (patch.apply t).touch now).tables :=
    List.mem_of_find?_eq_some (find?_updateFirst_of_some located (beq_iff_eq.mpr same))
  refine written.trans ((derived_rewriting aftermath.toRewriting ?_).trans (derived_filter kept))
  intro l u there f present
  refine .inr (List.mem_append_right given ?_)
  rcases aftermath.fieldName l f with old | ⟨key, listed, taken⟩
  · exact old ▸ mem_fieldNames there present
  · exact taken ▸ mem_fieldNames inside listed

theorem addField_derived {answer : Field} {table : String} (keyed : p.Keyed)
    (done : p.addField policy table f now = .ok (answer, q)) : Derived given now p q := by
  obtain ⟨t, located, named, _, rfl, rfl⟩ := addField_effect keyed done
  refine derived_updateTable fun u member _ => ⟨rfl, ?_, fun g present => ?_⟩
  · exact .inr (show u.name ∈ p.tables.map (·.name) from List.mem_map_of_mem member)
  rcases List.mem_append.mp present with old | new
  · exact .inr (List.mem_append_right given
      (mem_fieldNames (List.mem_of_find?_eq_some located) old))
  · obtain rfl := List.mem_singleton.mp new
    exact .inl named

theorem updateField_derived {patch : FieldPatch} {answer : Field} {table : String}
    (done : p.updateField policy table id patch now = .ok (answer, q)) : Derived given now p q := by
  obtain ⟨t, f, _, located, _, named, patched, _⟩ := updateField_steps done
  refine patchTable_derived (fun u again g listed => ?_) patched
  obtain rfl : t = u := Option.some_inj.mp (located.symm.trans again)
  have member := List.mem_of_find?_eq_some located
  rcases mem_updateFirst listed with old | ⟨before, held, _, rfl⟩
  · exact .inr (List.mem_append_right given (mem_fieldNames member old))
  · change FieldNamed _ (patch.name.on before.name)
    change Name.fieldProblem? (patch.name.on f.name) = none at named
    cases asked : patch.name with
    | keep => exact .inr (List.mem_append_right given (mem_fieldNames member held))
    | set name =>
      rw [asked] at named
      exact .inl named

theorem deleteField_derived {answer : Field} {table : String}
    (done : p.deleteField policy table id now = .ok (answer, q)) : Derived given now p q := by
  simp only [deleteField, bind_eq_ok_iff, requireTable_eq_ok_iff] at done
  obtain ⟨t, located, _, _, ⟨_, _⟩, patched, done⟩ := done
  obtain ⟨_, rfl⟩ := Prod.mk.inj (Except.ok.inj done)
  refine patchTable_derived (fun u again f listed => ?_) patched
  obtain rfl : t = u := Option.some_inj.mp (located.symm.trans again)
  exact .inr (List.mem_append_right given
    (mem_fieldNames (List.mem_of_find?_eq_some located) (List.mem_filter.mp listed).1))

/-! ### Relationships -/

theorem link_derived {spec : RelationshipSpec} {answer : Relationship}
    (done : p.link spec now = .ok (answer, q)) : Derived given now p q := by
  obtain ⟨_, _, _, _, rfl, rfl⟩ := link_eq_ok_iff.mp done
  have attached : Derived given now p (p.updateTable spec.dependent.table fun t =>
      { t with
        fields := updateFirst (·.id == spec.dependent.field)
          (fun f => f.attach spec.reference (p.newOrigin spec f)) t.fields
        updatedAt := now }) := derived_updateField fun _ => rfl
  exact { attached with relationships := .concat rfl }

theorem updateRelationship_derived {patch : RelationshipPatch} {answer : Relationship}
    (done : p.updateRelationship id patch now = .ok (answer, q)) : Derived given now p q := by
  obtain ⟨_, _, same, written⟩ := updateRelationship_effect done
  have replaced : Derived given now p { p with
      relationships := updateFirst (·.id == id) (fun _ => answer) p.relationships } :=
    { Derived.refl given now p with
      relationships := .updateFirst fun _ _ _ => same ▸ rfl }
  rcases written with rfl | rfl
  · exact replaced
  · exact replaced.trans (derived_updateField fun _ => rfl)

/-- A table that a connection can use has no names but those of its table and of the key. -/
theorem writes_connectable {connection : Connection} {key : Field} (member : t ∈ p.tables)
    (known : key.name ∈ p.fieldNames) (noted : u.updatedAt = now)
    (name : u.name = (connectable t connection key).2.name)
    (fields : u.fields.map (·.name) = (connectable t connection key).2.fields.map (·.name)) :
    Writes given now p u := by
  rw [connectable_name] at name
  refine ⟨noted, .inr (name ▸ List.mem_map_of_mem member), fun f present => ?_⟩
  have listed : f.name ∈ (connectable t connection key).2.fields.map (·.name) :=
    fields ▸ List.mem_map_of_mem present
  obtain ⟨g, inside, named⟩ := List.mem_map.mp listed
  rw [← named]
  refine .inr (List.mem_append_right given ?_)
  rcases connectable_fieldNames t connection key g inside with old | taken
  · obtain ⟨h, held, called⟩ := List.mem_map.mp old
    exact called ▸ mem_fieldNames member held
  · exact taken ▸ known

theorem connect_derived {connection : Connection} {answer : Relationship}
    (done : p.connect connection now = .ok (answer, q)) : Derived given now p q := by
  obtain ⟨t, key, spec, located, found, dependent, accepted⟩ := connect_steps done
  obtain ⟨_, _, _, _, rfl, rfl⟩ := link_eq_ok_iff.mp accepted
  have same : t.id = connection.table := table?_id located
  have inside : spec.dependent.table = connection.table := congrArg Location.table dependent
  refine { Derived.refl given now p with tables := ?_, relationships := .concat rfl }
  change Accounted _ _ ((p.updateTable connection.table _).updateTable spec.dependent.table _).tables
  -- The new field and the link go into one table, which is written once.
  rw [inside, updateTable_updateTable ((connectable_id t connection key).trans same)]
  refine .updateFirst fun _ _ _ => writes_connectable (List.mem_of_find?_eq_some located)
    (mem_fieldNames_of_field? found) rfl rfl ?_
  exact updateFirst_map_key fun _ => rfl

theorem removeLine_derived {answer : Relationship} (done : p.removeLine id = .ok (answer, q)) :
    Derived given now p q := by
  obtain rfl := removeLine_effect done
  exact { Derived.refl given now p with relationships := .of_subset List.eraseP_subset }

theorem purgeField_derived (l : Location) : Derived given now p (p.purgeField l now) := by
  have emptied : Derived given now p (p.updateTable l.table fun t =>
      { t with fields := t.fields.filter (·.id != l.field), updatedAt := now }) :=
    derived_updateTable fun t member _ => .of_names member rfl rfl fun f present =>
      List.mem_map_of_mem (List.mem_filter.mp present).1
  exact emptied.trans ((derived_filter fun r => !r.touchesField l).trans
    (derived_detachWhere (·.refersTo l)))

theorem reconcile_derived (r : Relationship) :
    Derived given now p (p.reconcile policy r now).2 :=
  reconcile_induct (fun _ => purgeField_derived r.dependent)
    (fun _ => derived_updateField fun _ => rfl) fun _ _ => .refl given now p

theorem deleteRelationship_derived {answer : Relationship × Reconciliation}
    (done : p.deleteRelationship policy id now = .ok (answer, q)) : Derived given now p q := by
  obtain ⟨r, _, _, rfl⟩ := deleteRelationship_effect done
  exact (reconcile_derived r).trans (derived_filter (·.id != r.id))

theorem deleteTable_derived {answer : TableDeletion}
    (done : p.deleteTable policy id now = .ok (answer, q)) : Derived given now p q := by
  obtain rfl := deleteTable_effect done
  have settled : Derived given now p (reconcileAll policy id now (p.touching id) p).2 :=
    reconcileAll_induct (fun _ r _ _ derived => derived.trans (reconcile_derived r))
      (.refl given now p)
  have dropped (p : Project) (gone : List String) :
      Derived given now p { p with
        tables := p.tables.eraseP (·.id == id)
        relationships := p.relationships.filter fun r => !gone.contains r.id && !r.touchesTable id
        metricRelationships := p.metricRelationships.filter (·.sourceTable != id) } :=
    .of_subset List.eraseP_subset (List.filter_subset_self _) (fun _ member => member)
      fun _ member => member
  exact settled.trans ((dropped _ _).trans (derived_detachWhere (·.refersInto id)))

/-! ### Views -/

section Views

theorem addMetricView_derived {v answer : MetricView}
    (done : p.addMetricView v now = .ok (answer, q)) : Derived given now p q := by
  obtain ⟨named, _, rfl, rfl⟩ := addMetricView_effect done
  exact { Derived.refl given now p with metricViews := .concat ⟨rfl, .inl named⟩ }

theorem updateMetricView_derived {patch : MetricViewPatch} {answer : MetricView}
    (done : p.updateMetricView id patch now = .ok (answer, q)) : Derived given now p q := by
  obtain ⟨v, found, checked, rfl, rfl⟩ := updateMetricView_effect done
  refine { Derived.refl given now p with metricViews := .updateFirst fun _ _ _ => ⟨rfl, ?_⟩ }
  exact tableNamed_of_change (List.mem_map_of_mem (List.mem_of_find?_eq_some found)) checked

theorem deleteMetricView_derived {answer : MetricView}
    (done : p.deleteMetricView id = .ok (answer, q)) : Derived given now p q := by
  obtain rfl := deleteMetricView_effect done
  exact { Derived.refl given now p with metricViews := .of_subset List.eraseP_subset }

theorem addTraditionalView_derived {v answer : TraditionalView}
    (done : p.addTraditionalView v now = .ok (answer, q)) : Derived given now p q := by
  obtain ⟨named, _, _, name, noted, rfl⟩ := addTraditionalView_effect done
  exact { Derived.refl given now p with
    traditionalViews := .concat ⟨noted, .inl (name.symm ▸ named)⟩ }

theorem updateTraditionalView_derived {patch : TraditionalViewPatch} {answer : TraditionalView}
    (done : p.updateTraditionalView id patch now = .ok (answer, q)) : Derived given now p q := by
  obtain ⟨v, found, checked, _, name, noted, rfl⟩ := updateTraditionalView_effect done
  refine { Derived.refl given now p with
    traditionalViews := .updateFirst fun _ _ _ => ⟨noted, name.symm ▸ ?_⟩ }
  exact tableNamed_of_change (List.mem_map_of_mem (List.mem_of_find?_eq_some found)) checked

theorem deleteTraditionalView_derived {answer : TraditionalView}
    (done : p.deleteTraditionalView id = .ok (answer, q)) : Derived given now p q := by
  obtain rfl := deleteTraditionalView_effect done
  exact { Derived.refl given now p with traditionalViews := .of_subset List.eraseP_subset }

theorem addMetricRelationship_derived {table view : String} {answer : MetricRelationship}
    (done : p.addMetricRelationship id table view now = .ok (answer, q)) : Derived given now p q := by
  obtain ⟨_, rfl⟩ := addMetricRelationship_effect done
  exact { Derived.refl given now p with }

theorem deleteMetricRelationship_derived {answer : MetricRelationship}
    (done : p.deleteMetricRelationship id = .ok (answer, q)) : Derived given now p q := by
  obtain rfl := deleteMetricRelationship_effect done
  exact { Derived.refl given now p with }

end Views
end Project
end LakeSchema
