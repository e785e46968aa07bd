import LakeSchema.Proofs.Edit.Import
import LakeSchema.Proofs.Edit.IndependentKey
import LakeSchema.Proofs.Edit.Linking
import LakeSchema.Proofs.Edit.Patch

/-!
# Edits keep the origin of a foreign key

`Heir` relates a field to what an edit makes of it: as long as it refers to something, it has the
origin that it had. Each edit leaves an heir at a location, or nothing, unless it links the field anew
or writes a new field in its place.
-/

namespace LakeSchema

namespace Field

variable {f g h : Field} {found : Option Field}

/-- If the second field refers to anything, so does the first, and both have one origin. -/
def Heir (f g : Field) : Prop :=
  g.reference ≠ none → f.reference ≠ none ∧ g.origin = f.origin

theorem Heir.refl (f : Field) : f.Heir f :=
  fun refers => ⟨refers, rfl⟩

theorem Heir.trans (first : f.Heir g) (second : g.Heir h) : f.Heir h := by
  intro refers
  obtain ⟨before, same⟩ := second refers
  obtain ⟨start, origin⟩ := first before
  exact ⟨start, same.trans origin⟩

theorem Heir.of_eq (reference : g.reference = f.reference) (origin : g.origin = f.origin) :
    f.Heir g :=
  fun refers => ⟨reference ▸ refers, origin⟩

theorem heir_detach (f : Field) : f.Heir f.detach :=
  fun refers => (refers rfl).elim

theorem heir_detachWhen (condition : Field → Bool) (f : Field) : f.Heir (f.detachWhen condition) := by
  unfold detachWhen
  split
  · exact f.heir_detach
  · exact .refl f

/-- Whatever is found is an heir of the field. -/
def Inherited (f : Field) (found : Option Field) : Prop :=
  ∀ g, found = some g → f.Heir g

theorem inherited_none (f : Field) : f.Inherited none :=
  fun _ gone => (Option.some_ne_none _ gone.symm).elim

theorem inherited_self (f : Field) : f.Inherited (some f) := by
  rintro g same
  rw [← Option.some.inj same]
  exact .refl f

theorem Inherited.map {change : Field → Field} (inherited : f.Inherited found)
    (each : ∀ g : Field, g.Heir (change g)) : f.Inherited (found.map change) := by
  intro g there
  obtain ⟨h, before, rfl⟩ := Option.map_eq_some_iff.mp there
  exact (inherited h before).trans (each h)

theorem Remains.inherited (remains : f.Remains found) : f.Inherited found := by
  intro g there
  subst there
  cases remains with
  | kept => exact .refl f
  | detached => exact f.heir_detach

end Field

namespace Project

variable {p q : Project} {policy : OriginPolicy} {now : Timestamp} {l : Location} {f new : Field}
  {t : Table} {id table : String} {answer : Field}

theorem inherited_of_tables (found : p.field? l = some f) (same : q.tables = p.tables) :
    f.Inherited (q.field? l) := by
  rw [field?_of_tables same, found]
  exact f.inherited_self

theorem inherited_updateField {m : Location} {change : Table → Table} {g : Field → Field}
    (found : p.field? l = some f) (keeps : ∀ t, (change t).id = t.id)
    (fields : ∀ t, (change t).fields = updateFirst (·.id == m.field) g t.fields)
    (fieldId : ∀ h, (g h).id = h.id) (heir : ∀ h : Field, h.Heir (g h)) :
    f.Inherited ((p.updateTable m.table change).field? l) := by
  rw [field?_updateField keeps fields fieldId, found]
  split
  · exact f.inherited_self.map heir
  · exact f.inherited_self

/-! ### Tables -/

theorem Aftermath.heir {patch : TablePatch} {g : Table → Table} {h : Location → Field → Field}
    (aftermath : Aftermath now t patch g h) (l : Location) (f : Field) : f.Heir (h l f) :=
  (Field.heir_detachWhen _ f).trans (.of_eq (aftermath.reference l f) (aftermath.origin l f))

/-- What a new field list does not overwrite is kept by all that follows from it. -/
theorem patchTable_inherited {patch : TablePatch} {answer : Table} (located : p.table? id = some t)
    (written : f.Inherited (if l.table = id then
      (patch.fields.on t.fields).find? (·.id == l.field) else p.field? l))
    (done : p.patchTable policy id patch now = .ok (answer, q)) : f.Inherited (q.field? l) := by
  obtain ⟨u, g, h, _, again, _, aftermath, _, rfl, _⟩ := patchTable_effect done
  obtain rfl : t = u := Option.some_inj.mp (located.symm.trans again)
  rw [aftermath.toFieldwise.field? (p := p.updateTable id fun _ => (patch.apply t).touch now) rfl,
    field?_replaceTable (u := (patch.apply t).touch now) located rfl]
  exact Field.Inherited.map written (aftermath.heir l)

theorem addTable_inherited {spec : TableSpec} {answer : Table} (found : p.field? l = some f)
    (done : p.addTable spec now = .ok (answer, q)) : f.Inherited (q.field? l) := by
  obtain ⟨_, _, _, _, rfl⟩ := addTable_effect done
  rw [field?_joinTables found rfl]
  exact f.inherited_self

theorem updateTable_inherited {patch : TablePatch} {answer : Table} (found : p.field? l = some f)
    (kept : ∀ fields, patch.fields = .set fields → l.table = id →
      fields.find? (·.id == l.field) = p.field? l)
    (done : p.patchTable policy id patch now = .ok (answer, q)) : f.Inherited (q.field? l) := by
  obtain ⟨t, _, _, _, located, _⟩ := patchTable_effect done
  refine patchTable_inherited located ?_ done
  have whole : (if l.table = id then (patch.fields.on t.fields).find? (·.id == l.field)
      else p.field? l) = some f := by
    split
    · rename_i inside
      cases given : patch.fields with
      | keep =>
        rw [← found, field?_of_table? located inside]
        rfl
      | set fields => exact (kept fields given inside).trans found
    · exact found
  rw [whole]
  exact f.inherited_self

/-! ### Fields -/

theorem addField_inherited (keyed : p.Keyed) (found : p.field? l = some f)
    (done : p.addField policy table new now = .ok (answer, q)) : f.Inherited (q.field? l) := by
  obtain ⟨t, located, _, _, rfl, rfl⟩ := addField_effect keyed done
  have kept : (p.updateTable table fun u =>
      { u with fields := t.fields ++ [answer], updatedAt := now }).field? l = some f := by
    rw [field?_updateTable (by intro u; rfl), located]
    split
    · rename_i inside
      rw [field?_of_table? located inside] at found
      exact find?_append_of_some found [answer]
    · exact found
  rw [kept]
  exact f.inherited_self

theorem updateField_inherited {patch : FieldPatch} (found : p.field? l = some f)
    (done : p.updateField policy table id patch now = .ok (answer, q)) :
    f.Inherited (q.field? l) := by
  obtain ⟨t, _, _, located, _, _, patched, _⟩ := updateField_steps done
  refine patchTable_inherited located ?_ patched
  split
  · rename_i inside
    rw [field?_of_table? located inside] at found
    have written : (updateFirst (·.id == id) patch.apply t.fields).find? (·.id == l.field) =
        if l.field = id then some (patch.apply f) else some f := by
      have there : t.fields.find? (·.id == l.field) = some f := found
      rw [find?_updateFirst Field.id (by intro g; rfl), there]
      rfl
    change f.Inherited ((updateFirst (·.id == id) patch.apply t.fields).find? (·.id == l.field))
    rw [written]
    split
    · rintro g same
      rw [← Option.some.inj same]
      exact .of_eq rfl rfl
    · exact f.inherited_self
  · rw [found]
    exact f.inherited_self

theorem deleteField_inherited (keyed : p.Keyed) (found : p.field? l = some f)
    (done : p.deleteField policy table id now = .ok (answer, q)) : f.Inherited (q.field? l) := by
  have steps := done
  simp only [deleteField, bind_eq_ok_iff, requireTable_eq_ok_iff] at steps
  obtain ⟨t, located, g, required, _⟩ := steps
  have present : t.field? id = some g := requireField_eq_ok_iff.mp required
  rw [deleteField_eq keyed policy located present now] at done
  obtain ⟨_, rfl⟩ := Prod.mk.inj (Except.ok.inj done)
  rw [field?_purgeField, found]
  split
  · exact f.inherited_none
  · exact f.inherited_self.map (Field.heir_detachWhen _)

/-! ### Relationships -/

variable {r : Relationship}

theorem link_inherited {spec : RelationshipSpec} (found : p.field? l = some f)
    (apart : spec.dependent ≠ l) (done : p.link spec now = .ok (r, q)) : f.Inherited (q.field? l) := by
  obtain ⟨_, _, _, _, _, rfl⟩ := link_eq_ok_iff.mp done
  have attached : (p.updateTable spec.dependent.table fun t =>
      { t with
        fields := updateFirst (·.id == spec.dependent.field)
          (fun g => g.attach spec.reference (p.newOrigin spec g)) t.fields
        updatedAt := now }).field? l = some f := by
    refine (field?_updateField (l := spec.dependent) (by intro t; rfl) (by intro t; rfl)
      (by intro g; rfl)).trans ?_
    rw [if_neg (Ne.symm apart), found]
  exact inherited_of_tables attached rfl

/-- The field that a connection uses, if its key and its table are there. -/
def Uses (p : Project) (connection : Connection) (id : String) : Prop :=
  ∃ t key, p.table? connection.table = some t ∧ p.field? connection.key = some key ∧
    (connectable t connection key).1 = id

theorem field?_connectable {connection : Connection} {key : Field} (present : t.field? id = some f)
    (apart : (connectable t connection key).1 ≠ id) :
    (connectable t connection key).2.field? id = some f := by
  unfold connectable at apart ⊢
  split
  · rename_i g named
    rw [named] at apart
    change (updateFirst (·.id == g.id) (·.adopt key) t.fields).find? (·.id == id) = some f
    rw [find?_updateFirst Field.id (by intro h; rfl), if_neg (Ne.symm apart)]
    exact present
  · change (t.fields ++ [keyTwin connection.newField key]).find? (·.id == id) = some f
    exact find?_append_of_some present _

theorem connect_inherited {connection : Connection} (found : p.field? l = some f)
    (apart : l.table = connection.table → ¬ p.Uses connection l.field)
    (done : p.connect connection now = .ok (r, q)) : f.Inherited (q.field? l) := by
  obtain ⟨t, key, spec, located, source, dependent, linked⟩ := connect_steps done
  refine link_inherited ?_ ?_ linked
  · rw [field?_replaceTable located (connectable_id t connection key)]
    split
    · rename_i inside
      have present : t.field? l.field = some f :=
        (field?_of_table? located inside).symm.trans found
      exact field?_connectable present fun same => apart inside ⟨t, key, located, source, same⟩
    · exact found
  · rw [dependent]
    rintro rfl
    exact apart rfl ⟨t, key, located, source, rfl⟩

theorem updateRelationship_inherited {patch : RelationshipPatch} (found : p.field? l = some f)
    (done : p.updateRelationship id patch now = .ok (r, q)) : f.Inherited (q.field? l) := by
  obtain ⟨_, _, _, written⟩ := updateRelationship_effect done
  rcases written with rfl | rfl
  · exact inherited_of_tables found rfl
  · refine inherited_updateField ((field?_of_tables rfl l).trans found) (by intro t; rfl)
      (by intro t; rfl) (by intro g; rfl) ?_
    intro g refers
    exact ⟨fun none => refers (by rw [none]; rfl), rfl⟩

/-- Settling and dropping leave a field as it was, or plain, or gone. -/
theorem deleteRelationship_inherited {answer : Relationship × Reconciliation}
    (found : p.field? l = some f)
    (done : p.deleteRelationship policy id now = .ok (answer, q)) : f.Inherited (q.field? l) := by
  obtain ⟨r, _, _, rfl⟩ := deleteRelationship_effect done
  have remains : f.Remains ((p.reconcile policy r now).2.field? l) :=
    reconcile_remains (found ▸ .kept)
  exact remains.inherited

theorem deleteTable_inherited {answer : TableDeletion} (consistent : p.Consistent)
    (found : p.field? l = some f)
    (done : p.deleteTable policy table now = .ok (answer, q)) : f.Inherited (q.field? l) := by
  obtain rfl := deleteTable_effect done
  have keyed := (consistent.reconcileAll policy table now (p.touching table)).toKeyed
  have remains : f.Remains ((reconcileAll policy table now (p.touching table) p).2.field? l) :=
    reconcileAll_remains (found ▸ .kept)
  rw [field?_dropTable keyed]
  split
  · exact f.inherited_none
  · exact (remains.map_detachWhen _).inherited

/-! ### Imports -/

theorem merge_inherited {incoming : Import} {answer : ImportSummary} (found : p.field? l = some f)
    (refers : f.reference ≠ none) (done : p.merge incoming now = .ok (answer, q)) :
    f.Inherited (q.field? l) := by
  obtain ⟨_, rfl⟩ := merge_effect done
  rw [field?_foldl_join (field?_joinTables found rfl) refers]
  exact f.inherited_self

end Project
end LakeSchema
