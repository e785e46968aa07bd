import LakeSchema.Edit.TableEdit
import LakeSchema.Proofs.Edit.Deletion
import LakeSchema.Proofs.Edit.Views

/-!
# How a changed key reaches its foreign keys

A change of a key is written to the fields that refer to the key, and to no others
(`field?_propagate`). An edit of one field amounts to writing the field and to one such change
(`updateField_primary`).
-/

namespace LakeSchema

variable {policy : OriginPolicy} {now : Timestamp}

/-- A field at a location after a key changed. -/
def KeyChange.effect (change : KeyChange) (policy : OriginPolicy) (l : Location) (f : Field) :
    Field :=
  if l ≠ change.key ∧ f.refersTo change.key then f.follow policy change.prior change.next else f

theorem Field.follow_keeps (f : Field) (policy : OriginPolicy) (prior next : Field) :
    (f.follow policy prior next).id = f.id ∧ (f.follow policy prior next).reference = f.reference ∧
      (f.follow policy prior next).isPrimaryKey = f.isPrimaryKey := by
  unfold follow
  split <;> simp [adopt]

theorem KeyChange.effect_keeps (change : KeyChange) (policy : OriginPolicy) (l : Location)
    (f : Field) :
    (change.effect policy l f).id = f.id ∧ (change.effect policy l f).reference = f.reference ∧
      (change.effect policy l f).isPrimaryKey = f.isPrimaryKey := by
  unfold effect
  split
  · exact f.follow_keeps policy change.prior change.next
  · simp

/-- A table in line has each field in line, also when no field of it refers to the key. -/
theorem KeyChange.syncedTable_fieldwise (change : KeyChange) (policy : OriginPolicy)
    (now : Timestamp) :
    Project.Fieldwise (change.syncedTable policy now) (change.effect policy) where
  id t := by
    unfold syncedTable
    split <;> rfl
  fields t := by
    have concerned : ∀ f, change.effect policy ⟨t.id, f.id⟩ f =
        if change.concerns t f then f.follow policy change.prior change.next else f := by
      intro f
      simp [effect, concerns]
    simp only [concerned, syncedTable]
    split
    · rfl
    · rename_i none
      refine ((List.map_congr_left fun f member => ?_).trans (List.map_id _)).symm
      rw [if_neg fun concerns => none (List.any_eq_true.mpr ⟨f, member, concerns⟩), id]
  fieldId l f := (change.effect_keeps policy l f).1

theorem KeyChange.syncedTable_eq (change : KeyChange) (policy : OriginPolicy) (now : Timestamp)
    (t : Table) :
    change.syncedTable policy now t =
      { t with
        fields := t.fields.map fun f => change.effect policy ⟨t.id, f.id⟩ f
        updatedAt := if t.fields.any (change.concerns t) then now else t.updatedAt } := by
  rw [← (change.syncedTable_fieldwise policy now).fields t]
  unfold syncedTable
  split <;> rfl

namespace Project

variable {p q : Project} {t : Table} {f key : Field} {table id : String} {l : Location}

theorem field?_propagate (change : KeyChange) :
    (p.propagate policy change now).2.field? l =
      if change.prior.shapeChanged change.next then (p.field? l).map (change.effect policy l)
      else p.field? l := by
  unfold propagate
  split
  · exact (change.syncedTable_fieldwise policy now).field? rfl l
  · rfl

theorem refersTo_iff {f : Field} {l : Location} :
    f.refersTo l ↔ ∃ r, f.reference = some r ∧ r.target = l := by
  simp [Field.refersTo, Option.any_eq_true]

/-! ### Writing one field -/

theorem leavingFields_of_ids {fields : List Field}
    (same : fields.map (·.id) = t.fields.map (·.id)) : leavingFields t fields = [] := by
  refine List.filter_eq_nil_iff.mpr fun f member => ?_
  have kept : f.id ∈ fields.map (·.id) := same ▸ List.mem_map_of_mem member
  simpa using List.mem_map.mp kept

theorem changedKeys_append (t : Table) (fields others : List Field) :
    changedKeys t (fields ++ others) = changedKeys t fields ++ changedKeys t others := by
  rw [changedKeys, List.filter_append, List.filterMap_append, changedKeys, changedKeys]

/-- Of the fields only the one that is written can be a key that changed. -/
theorem changedKeys_updateFirst {change : Field → Field} (distinct : (t.fields.map (·.id)).Nodup)
    (found : t.field? id = some key) (named : (change key).id = key.id) :
    changedKeys t (updateFirst (·.id == id) change t.fields) =
      if (change key).isPrimaryKey ∧ key.shapeChanged (change key) then [⟨t.id, key, change key⟩]
      else [] := by
  obtain ⟨before, after, split, changed⟩ := updateFirst_eq_append found change
  have others : ∀ fields, (∀ f ∈ fields, f ∈ t.fields) → changedKeys t fields = [] :=
    fun fields subset => changedKeys_of_subset distinct subset
  have same : t.field? key.id = some key :=
    find?_of_mem distinct (List.mem_of_find?_eq_some found)
  have alone : changedKeys t [change key] =
      if (change key).isPrimaryKey ∧ key.shapeChanged (change key) then [⟨t.id, key, change key⟩]
      else [] := by
    by_cases primary : (change key).isPrimaryKey <;> by_cases shape : key.shapeChanged (change key) <;>
      simp [changedKeys, primary, named, same, shape]
  rw [changed, List.append_cons, changedKeys_append, changedKeys_append, alone,
    others before fun f member => by simp [split, member],
    others after fun f member => by simp [split, member], List.nil_append, List.append_nil]

theorem requireTable_eq_ok_iff : p.requireTable id = .ok t ↔ p.table? id = some t := by
  unfold requireTable
  split <;> simp [*]

theorem requireField_eq_ok_iff : requireField t id = .ok f ↔ t.field? id = some f := by
  unfold requireField
  split <;> simp [*]

theorem requireTable_eq_error_iff {e : SchemaError} :
    p.requireTable id = .error e ↔ p.table? id = none ∧ e = .notFound .table id := by
  unfold requireTable
  split <;> simp [*, eq_comm]

theorem requireField_eq_error_iff {e : SchemaError} :
    requireField t id = .error e ↔ t.field? id = none ∧ e = .notFound .field id := by
  unfold requireField
  split <;> simp [*, eq_comm]

/-- A key with the shape it had before reaches no field, so that it may be brought in line as well. -/
theorem propagateAll_eq_ok {change : KeyChange}
    (done : propagateAll policy now
      (if change.prior.shapeChanged change.next then [change] else []) p = .ok q) :
    q = (p.propagate policy change now).2 := by
  unfold propagate
  split at done
  · rename_i shape
    rw [if_pos shape]
    simp only [propagateAll, propagate, if_pos shape] at done
    split at done
    · contradiction
    · exact (Except.ok.inj done).symm
  · rename_i same
    rw [if_neg same]
    exact (Except.ok.inj done).symm

/-- The project with one field changed and the time noted in its table. -/
def writeField (p : Project) (l : Location) (patch : FieldPatch) (now : Timestamp) : Project :=
  p.updateTable l.table fun t =>
    { t with fields := updateFirst (·.id == l.field) patch.apply t.fields, updatedAt := now }

theorem field?_writeField (p : Project) (k : Location) (patch : FieldPatch) (now : Timestamp) :
    (p.writeField k patch now).field? l =
      if l = k then (p.field? l).map patch.apply else p.field? l :=
  field?_updateField (fun _ => rfl) (fun _ => rfl) fun _ => rfl

/-- The edit of a field writes the field, then brings the foreign keys on it in line if it is a primary
key in a new shape. -/
theorem updateField_eq {patch : FieldPatch} (keyed : p.Keyed)
    (found : p.field? ⟨table, id⟩ = some key)
    (usable : Name.fieldProblem? (patch.apply key).name = none) (policy : OriginPolicy)
    (now : Timestamp) :
    p.updateField policy table id patch now = (do
      let synced ← propagateAll policy now
        (if (patch.apply key).isPrimaryKey ∧ key.shapeChanged (patch.apply key) then
          [⟨table, key, patch.apply key⟩] else [])
        (p.writeField ⟨table, id⟩ patch now)
      let t ← synced.requireTable table
      let f ← requireField t id
      pure (f, synced)) := by
  obtain ⟨t, located, present⟩ := Option.bind_eq_some_iff.mp found
  have distinct := keyed.fields t (List.mem_of_find?_eq_some located)
  have written : p.updateTable table
      (fun u => { u with fields := updateFirst (·.id == id) patch.apply t.fields, updatedAt := now }) =
      p.writeField ⟨table, id⟩ patch now :=
    updateTable_congr located rfl
  -- No field leaves, and no key but the edited one can have changed.
  have kept : leavingFields t (updateFirst (·.id == id) patch.apply t.fields) = [] :=
    leavingFields_of_ids (updateFirst_map_key fun _ => rfl)
  have patched := patchTable_ofFields policy located
    (updateFirst (·.id == id) patch.apply t.fields) now
  rw [written, kept, changedKeys_updateFirst distinct present rfl, table?_id located] at patched
  rw [updateField, requireTable, located]
  change (do
    let f ← requireField t id
    Name.accept id (Name.fieldProblem? (patch.apply f).name)
    let answer ← p.patchTable policy table
      (.ofFields (updateFirst (·.id == id) patch.apply t.fields)) now
    let f ← requireField answer.1 id
    pure (f, answer.2)) = _
  rw [requireField_eq_ok_iff.mpr present, patched]
  change (Name.accept id (Name.fieldProblem? (patch.apply key).name) >>= fun _ => _) = _
  rw [(Name.accept_eq_ok_iff (u := ())).mpr usable]
  simp only [bind_assoc, pure_bind]
  rfl

/-- The edit of a field that ends as a primary key writes the field, then brings the foreign keys on
it in line. -/
theorem updateField_primary {patch : FieldPatch} {answer : Field} (keyed : p.Keyed)
    (found : p.field? ⟨table, id⟩ = some key) (primary : (patch.apply key).isPrimaryKey)
    (done : p.updateField policy table id patch now = .ok (answer, q)) :
    q = ((p.writeField ⟨table, id⟩ patch now).propagate policy ⟨table, key, patch.apply key⟩ now).2 := by
  obtain ⟨t, located, present⟩ := Option.bind_eq_some_iff.mp found
  have usable : Name.fieldProblem? (patch.apply key).name = none := by
    simp only [updateField, bind_eq_ok_iff, requireTable_eq_ok_iff, requireField_eq_ok_iff,
      Name.accept_eq_ok_iff] at done
    obtain ⟨_, again, _, there, _, usable, _⟩ := done
    obtain rfl := Option.some.inj (located.symm.trans again)
    obtain rfl := Option.some.inj (present.symm.trans there)
    exact usable
  rw [updateField_eq keyed found usable] at done
  simp only [primary, true_and, bind_eq_ok_iff] at done
  obtain ⟨synced, propagated, _, _, _, _, last⟩ := done
  obtain ⟨_, rfl⟩ := Prod.mk.inj (Except.ok.inj last)
  exact propagateAll_eq_ok propagated

/-- The field at `l` after the key at `k` was edited. -/
def keyEdited (policy : OriginPolicy) (k : Location) (prior next : Field) (l : Location) (f : Field) :
    Field :=
  if l = k then next
  else if prior.shapeChanged next ∧ f.refersTo k then f.follow policy prior next
  else f

/-- After the edit of a primary key every other field is what it was, except that foreign keys on the
key follow if its shape changed. -/
theorem field?_updateField_primary {patch : FieldPatch} {answer : Field} (keyed : p.Keyed)
    (found : p.field? ⟨table, id⟩ = some key) (primary : (patch.apply key).isPrimaryKey)
    (done : p.updateField policy table id patch now = .ok (answer, q)) :
    q.field? l = (p.field? l).map (keyEdited policy ⟨table, id⟩ key (patch.apply key) l) := by
  have changed : KeyChange.key ⟨table, key, patch.apply key⟩ = ⟨table, id⟩ :=
    congrArg (Location.mk table) (field?_id found)
  rw [updateField_primary keyed found primary done, field?_propagate, field?_writeField]
  by_cases here : l = ⟨table, id⟩
  · simp [here, found, KeyChange.effect, keyEdited, changed]
  · have apart : keyEdited policy ⟨table, id⟩ key (patch.apply key) l = fun f =>
        if key.shapeChanged (patch.apply key) then
          KeyChange.effect ⟨table, key, patch.apply key⟩ policy l f
        else f := by
      funext f
      by_cases shape : key.shapeChanged (patch.apply key) <;>
        simp [keyEdited, KeyChange.effect, changed, here, shape]
    by_cases shape : key.shapeChanged (patch.apply key) <;> simp [here, shape, apart]

end Project
end LakeSchema
