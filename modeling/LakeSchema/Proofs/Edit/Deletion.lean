import LakeSchema.Edit.Linking
import LakeSchema.Edit.ViewEdit
import LakeSchema.Proofs.Edit.Reconciliation

/-!
# Deletions find their target and repair the project

`Exact` says of an edit that it succeeds precisely when its target is there, and then leaves a
consistent project. All deletions are exact. Deleting a field goes through `patchTable`, but comes
down to `purgeField` (`deleteField_eq`).
-/

namespace LakeSchema.Project

variable {p : Project} {t : Table} {f : Field} {table id : String} {now : Timestamp}

/-- The edit leaves a consistent project if its target is there, and else reports it missing. -/
structure Exact {α : Type} (edited : Except SchemaError (α × Project)) (there : Prop)
    (missing : SchemaError) : Prop where
  done : there → ∃ answer q, edited = .ok (answer, q) ∧ q.Consistent
  failed : ¬ there → edited = .error missing

/-- The target of most deletions is found by one look-up. -/
theorem Exact.of_lookup {α β : Type} {edited : Except SchemaError (α × Project)}
    {missing : SchemaError} {target : Option β}
    (found : ∀ x, target = some x → ∃ answer q, edited = .ok (answer, q) ∧ q.Consistent)
    (absent : target = none → edited = .error missing) : Exact edited target.isSome missing := by
  cases target with
  | none => exact ⟨nofun, fun _ => absent rfl⟩
  | some x => exact ⟨fun _ => found x rfl, fun gone => (gone rfl).elim⟩

theorem Exact.of_iff {α : Type} {edited : Except SchemaError (α × Project)} {there found : Prop}
    {missing : SchemaError} (exact : Exact edited there missing) (same : there ↔ found) :
    Exact edited found missing :=
  ⟨fun target => exact.done (same.mpr target), fun absent => exact.failed (absent ∘ same.mp)⟩

/-! ### Fields -/

theorem leavingFields_without (distinct : (t.fields.map (·.id)).Nodup)
    (present : t.field? id = some f) :
    leavingFields t (t.fields.filter (·.id != id)) = [f] := by
  obtain ⟨member, same⟩ := (find?_eq_some_iff_mem distinct).mp present
  have leaving : leavingFields t (t.fields.filter (·.id != id)) = t.fields.filter (·.id == id) := by
    refine List.filter_congr fun g inside => ?_
    by_cases named : g.id = id
    · simp [named]
    · have stays : (t.fields.filter (·.id != id)).any (·.id == g.id) = true :=
        List.any_eq_true.mpr ⟨g, List.mem_filter.mpr ⟨inside, by simpa using named⟩, by simp⟩
      simp [stays, named]
  rw [leaving]
  refine List.perm_singleton.mp ((List.perm_ext_iff_of_nodup ?_ ?_).mpr fun g => ?_)
  · exact (List.Nodup.of_map _ distinct).filter _
  · exact List.nodup_singleton f
  · rw [List.mem_filter, List.mem_singleton, beq_iff_eq, ← find?_eq_some_iff_mem distinct]
    change t.field? id = some g ↔ g = f
    rw [present, Option.some_inj, eq_comm]

theorem shapeChanged_self (f : Field) : f.shapeChanged f = false := by
  simp [Field.shapeChanged]

/-- Fields that only move or leave have changed no key. -/
theorem changedKeys_of_subset {fields : List Field} (distinct : (t.fields.map (·.id)).Nodup)
    (subset : ∀ g ∈ fields, g ∈ t.fields) : changedKeys t fields = [] := by
  refine List.filterMap_eq_nil_iff.mpr fun g member => ?_
  have found : t.field? g.id = some g := find?_of_mem distinct (subset g (List.mem_filter.mp member).1)
  simp [found, shapeChanged_self]

theorem patchTable_ofFields (policy : OriginPolicy) (located : p.table? table = some t)
    (fields : List Field) (now : Timestamp) :
    p.patchTable policy table (.ofFields fields) now = (do
      let synced ← propagateAll policy now (changedKeys t fields)
        ((p.updateTable table fun u => { u with fields, updatedAt := now }).releaseAll table
          (leavingFields t fields) now)
      let result ← synced.requireTable table
      pure (result, synced)) := by
  have written : p.updateTable table (fun _ => ((TablePatch.ofFields fields).apply t).touch now) =
      p.updateTable table fun u => { u with fields, updatedAt := now } :=
    updateTable_congr located rfl
  rw [← written, patchTable, requireTable, located]
  rfl

/-- Deleting a field removes it with everything that pointed at it, and nothing more. -/
theorem deleteField_eq (keyed : p.Keyed) (policy : OriginPolicy) (located : p.table? table = some t)
    (present : t.field? id = some f) (now : Timestamp) :
    p.deleteField policy table id now = .ok (f, p.purgeField ⟨table, id⟩ now) := by
  have distinct := keyed.fields t (List.mem_of_find?_eq_some located)
  have named : f.id = id := by simpa using List.find?_some present
  have changed : changedKeys t (t.fields.filter (·.id != id)) = [] :=
    changedKeys_of_subset distinct fun g inside => (List.mem_filter.mp inside).1
  have written : p.updateTable table
      (fun u => { u with fields := t.fields.filter (·.id != id), updatedAt := now }) =
      p.updateTable table fun u =>
        { u with fields := u.fields.filter (·.id != id), updatedAt := now } :=
    updateTable_congr located rfl
  have purged : (p.updateTable table fun u =>
      { u with fields := t.fields.filter (·.id != id), updatedAt := now }).releaseAll table
        (leavingFields t (t.fields.filter (·.id != id))) now = p.purgeField ⟨table, id⟩ now := by
    rw [written, leavingFields_without distinct present, ← named]
    rfl
  obtain ⟨u, remains⟩ : ∃ u, (p.purgeField ⟨table, id⟩ now).table? table = some u := by
    rw [← Option.isSome_iff_exists, table?_isSome_iff, purgeField_tableIds, ← table?_isSome_iff,
      located]
    rfl
  have patched : p.patchTable policy table (.ofFields (t.fields.filter (·.id != id))) now =
      .ok (u, p.purgeField ⟨table, id⟩ now) := by
    rw [patchTable_ofFields policy located, changed, purged]
    change (do
      let result ← (p.purgeField ⟨table, id⟩ now).requireTable table
      pure (result, p.purgeField ⟨table, id⟩ now)) = _
    rw [requireTable, remains]
    rfl
  rw [deleteField, requireTable, located]
  change (do
    let f ← requireField t id
    let answer ← p.patchTable policy table (.ofFields (t.fields.filter (·.id != id))) now
    pure (f, answer.2)) = _
  rw [requireField, present, patched]
  rfl

theorem deleteField_exact (consistent : p.Consistent) (policy : OriginPolicy) (table id : String)
    (now : Timestamp) :
    Exact (p.deleteField policy table id now) (p.field? ⟨table, id⟩).isSome
      (if (p.table? table).isSome then .notFound .field id else .notFound .table table) := by
  rw [field?]
  cases located : p.table? table with
  | none =>
    refine ⟨fun there => (Bool.false_ne_true there).elim, fun _ => ?_⟩
    rw [deleteField, requireTable, located]
    rfl
  | some t =>
    change Exact _ (t.field? id).isSome (.notFound .field id)
    refine .of_lookup (fun f present => ?_) fun absent => ?_
    · exact ⟨f, _, deleteField_eq consistent.toKeyed policy located present now,
        consistent.purgeField _ _⟩
    · rw [deleteField, requireTable, located]
      change (requireField t id >>= _) = _
      rw [requireField, absent]
      rfl

/-! ### Relationships and tables -/

theorem deleteRelationship_exact (consistent : p.Consistent) (policy : OriginPolicy) (id : String)
    (now : Timestamp) :
    Exact (p.deleteRelationship policy id now) (p.relationship? id).isSome
      (.notFound .relationship id) := by
  refine .of_lookup (fun r found => ?_) fun absent => by rw [deleteRelationship, absent]
  have present := (consistent.endpoint (List.mem_of_find?_eq_some found)).2.2
  exact ⟨_, _, deleteRelationship_eq found present, consistent.cut policy r now⟩

theorem removeLine_exact (consistent : p.Consistent) (id : String) :
    Exact (p.removeLine id) (p.relationship? id).isSome (.notFound .relationship id) := by
  refine .of_lookup (fun r found => ?_) fun absent => ?_
  · refine ⟨r, _, by rw [removeLine, requireRelationship, found]; rfl, ?_⟩
    exact consistent.fewer rfl List.eraseP_sublist fun m member => ⟨member, fun _ inside _ => inside⟩
  · rw [removeLine, requireRelationship, absent]
    rfl

theorem deleteTable_exact (consistent : p.Consistent) (policy : OriginPolicy) (id : String)
    (now : Timestamp) :
    Exact (p.deleteTable policy id now) (p.table? id).isSome (.notFound .table id) := by
  refine .of_lookup (fun t found => ?_) fun absent => by rw [deleteTable, absent]
  obtain ⟨u, deleted⟩ := deleteTable_eq policy now (Option.isSome_of_eq_some found)
  exact ⟨_, _, deleted, (consistent.reconcileAll policy id now _).dropTable _ _ _⟩

/-! ### Views and links to them -/

theorem deleteMetricView_exact (consistent : p.Consistent) (id : String) :
    Exact (p.deleteMetricView id) (p.metricView? id).isSome (.notFound .metricView id) := by
  refine .of_lookup (fun v found => ?_) fun absent => ?_
  · refine ⟨v, _, by rw [deleteMetricView, requireMetricView, found]; rfl, ?_⟩
    refine consistent.fewer rfl (.refl _) fun m member => ?_
    obtain ⟨linked, other⟩ := List.mem_filter.mp member
    refine ⟨linked, fun u inside named => (List.mem_eraseP_of_neg ?_).mpr inside⟩
    simpa [named] using other
  · rw [deleteMetricView, requireMetricView, absent]
    rfl

theorem deleteTraditionalView_exact (consistent : p.Consistent) (id : String) :
    Exact (p.deleteTraditionalView id) (p.traditionalView? id).isSome
      (.notFound .traditionalView id) := by
  refine .of_lookup (fun v found => ?_) fun absent => ?_
  · refine ⟨v, _, by rw [deleteTraditionalView, requireTraditionalView, found]; rfl, ?_⟩
    exact consistent.fewer rfl (.refl _) fun m member => ⟨member, fun _ inside _ => inside⟩
  · rw [deleteTraditionalView, requireTraditionalView, absent]
    rfl

theorem deleteMetricRelationship_exact (consistent : p.Consistent) (id : String) :
    Exact (p.deleteMetricRelationship id) (p.metricRelationships.find? (·.id == id)).isSome
      (.notFound .metricRelationship id) := by
  refine .of_lookup (fun m found => ?_) fun absent => by rw [deleteMetricRelationship, absent]
  refine ⟨m, _, by rw [deleteMetricRelationship, found], ?_⟩
  exact consistent.fewer rfl (.refl _) fun m member =>
    ⟨List.mem_of_mem_eraseP member, fun _ inside _ => inside⟩

end LakeSchema.Project
