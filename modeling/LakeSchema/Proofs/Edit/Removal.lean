import LakeSchema.Edit.Removal
import LakeSchema.Proofs.Check.Consistency

/-!
# What removals do

One equation for each removal says what it does to look-ups: `field?_purgeField`,
`field?_detachField`, `field?_dropTable`. From these every removal keeps a project consistent, and
deleting a relationship or a table that exists succeeds.
-/

namespace LakeSchema

variable {p : Project} {l m : Location} {now : Timestamp}

/-! ### Detaching fields -/

/-- The field as a plain column if it meets a condition. -/
def Field.detachWhen (condition : Field → Bool) (f : Field) : Field :=
  if condition f then f.detach else f

namespace Field

variable {condition : Field → Bool} {f : Field}

theorem detachWhen_id : (f.detachWhen condition).id = f.id := by
  unfold detachWhen
  split <;> rfl

theorem detachWhen_name : (f.detachWhen condition).name = f.name := by
  unfold detachWhen
  split <;> rfl

theorem detachWhen_detach (condition : Field → Bool) (f : Field) :
    f.detach.detachWhen condition = f.detach := by
  unfold detachWhen
  split <;> rfl

theorem reference_detachWhen {r : Reference} (refers : (f.detachWhen condition).reference = some r) :
    condition f = false ∧ f.detachWhen condition = f ∧ f.reference = some r := by
  unfold detachWhen at *
  split at refers
  · simp [detach] at refers
  · rename_i kept
    simp only [kept]
    exact ⟨by simp, rfl, refers⟩

end Field

theorem Table.detachWhere_fieldwise (condition : Field → Bool) (now : Timestamp) :
    Project.Fieldwise (fun t => t.detachWhere condition now) fun _ => Field.detachWhen condition where
  id t := by
    unfold detachWhere
    split <;> rfl
  fields t := by
    unfold detachWhere
    split
    · rfl
    · rename_i absent
      simp only [List.any_eq_true, not_exists, not_and] at absent
      refine (List.map_congr_left fun f present => ?_).trans (List.map_id' t.fields) |>.symm
      exact if_neg (absent f present)
  fieldId _ _ := Field.detachWhen_id

namespace Project

/-! ### Fields -/

theorem releaseField_fieldwise (l : Location) (now : Timestamp) :
    Fieldwise (fun t => t.detachWhere (·.refersTo l) now) fun _ => Field.detachWhen (·.refersTo l) :=
  Table.detachWhere_fieldwise _ now

theorem field?_releaseField :
    (p.releaseField l now).field? m = (p.field? m).map (Field.detachWhen (·.refersTo l)) :=
  (releaseField_fieldwise l now).field? rfl m

theorem field?_purgeField :
    (p.purgeField l now).field? m =
      if m = l then none else (p.field? m).map (Field.detachWhen (·.refersTo l)) := by
  rw [purgeField, field?_releaseField, field?_updateTable (by intro t; rfl)]
  obtain ⟨mt, mf⟩ := m
  obtain ⟨lt, lf⟩ := l
  by_cases table : mt = lt
  · subst table
    simp only [if_pos, Location.mk.injEq, true_and, field?]
    cases located : p.table? mt with
    | none => simp
    | some t =>
      simp only [Option.map_some, Option.bind_some, Table.field?, List.find?_filter]
      by_cases field : mf = lf
      · simp [field]
      · rw [if_neg field]
        congr 2
        funext f
        by_cases here : f.id = mf <;> simp [here, field]
  · simp [table]

theorem field?_detachField :
    (p.detachField l now).field? m =
      if m = l then (p.field? m).map Field.detach else p.field? m :=
  field?_updateField (by intro t; rfl) (by intro t; rfl) (fun _ => rfl)

theorem field?_dropTable {id : String} {gone : List String} (keyed : p.Keyed) :
    (p.dropTable id gone now).field? m =
      if m.table = id then none else (p.field? m).map (Field.detachWhen (·.refersInto id)) := by
  have erased := field?_eraseTable (m := m) (q := { p with tables := p.tables.eraseP (·.id == id) })
    keyed rfl
  rw [(Table.detachWhere_fieldwise (·.refersInto id) now).field?
    (p := { p with tables := p.tables.eraseP (·.id == id) }) rfl, erased]
  split <;> rfl

theorem refersTo_eq_false_iff {f : Field} :
    f.refersTo l = false ↔ ∀ r, f.reference = some r → r.target ≠ l := by
  unfold Field.refersTo
  cases f.reference <;> simp

theorem refersInto_eq_false_iff {f : Field} {id : String} :
    f.refersInto id = false ↔ ∀ r, f.reference = some r → r.target.table ≠ id := by
  unfold Field.refersInto
  cases f.reference <;> simp [Reference.target]

/-! ### Consistency -/

theorem purgeField_keyed (keyed : p.Keyed) : (p.purgeField l now).Keyed := by
  refine (releaseField_fieldwise l now).keyed rfl (updateTable_keyed keyed _ (by intro t; rfl) ?_)
  intro t
  exact List.filter_sublist.map _

theorem purgeField_tableIds (p : Project) (l : Location) (now : Timestamp) :
    (p.purgeField l now).tables.map (·.id) = p.tables.map (·.id) := by
  refine ((releaseField_fieldwise l now).map_id _).trans ?_
  exact updateFirst_map_key (by intro t; rfl)

theorem detachField_tableIds (p : Project) (l : Location) (now : Timestamp) :
    (p.detachField l now).tables.map (·.id) = p.tables.map (·.id) :=
  updateFirst_map_key (by intro t; rfl)

theorem detachField_keyed (keyed : p.Keyed) : (p.detachField l now).Keyed := by
  refine updateTable_keyed keyed _ (by intro t; rfl) fun t => ?_
  rw [updateFirst_map_key (by intro f; rfl)]

theorem dropTable_keyed {id : String} {gone : List String} (keyed : p.Keyed) :
    (p.dropTable id gone now).Keyed := by
  refine (Table.detachWhere_fieldwise (·.refersInto id) now).keyed
    (p := { p with tables := p.tables.eraseP (·.id == id) }) rfl (keyed.of_sublists ?_ ?_)
  · exact List.eraseP_sublist.map _
  · exact fun t member => ⟨t, List.mem_of_mem_eraseP member, .refl _⟩

theorem Consistent.purgeField (consistent : p.Consistent) (l : Location) (now : Timestamp) :
    (p.purgeField l now).Consistent := by
  have kept : ∀ {m}, (p.field? m).isSome → m ≠ l → ((p.purgeField l now).field? m).isSome := by
    intro m found apart
    rw [field?_purgeField, if_neg apart, Option.isSome_map]
    exact found
  refine .of_field? (purgeField_keyed consistent.toKeyed) (fun m f r found refers => ?_)
    (consistent.relationships.sublist (List.filter_sublist.map _)) (fun r member => ?_)
    fun link member => ?_
  · rw [field?_purgeField] at found
    split at found
    · contradiction
    · obtain ⟨g, before, rfl⟩ := Option.map_eq_some_iff.mp found
      obtain ⟨elsewhere, same, refers⟩ := Field.reference_detachWhen refers
      obtain ⟨flag, target⟩ := consistent.reference before refers
      rw [same]
      exact ⟨flag, kept target (refersTo_eq_false_iff.mp elsewhere r refers)⟩
  · obtain ⟨present, apart⟩ := List.mem_filter.mp member
    simp only [Relationship.touchesField, Bool.not_eq_true', Bool.or_eq_false_iff,
      beq_eq_false_iff_ne] at apart
    obtain ⟨source, fallback, dependent⟩ := consistent.endpoint present
    exact ⟨kept source apart.1.1, kept fallback apart.1.2, kept dependent apart.2⟩
  · obtain ⟨table, view⟩ := consistent.links link member
    exact ⟨List.mem_map.mp (p.purgeField_tableIds l now ▸ List.mem_map.mpr table), view⟩

theorem Consistent.detachField (consistent : p.Consistent) (l : Location) (now : Timestamp) :
    (p.detachField l now).Consistent := by
  have kept : ∀ {m}, (p.field? m).isSome → ((p.detachField l now).field? m).isSome := by
    intro m found
    rw [field?_detachField]
    split
    · rw [Option.isSome_map]
      exact found
    · exact found
  refine .of_field? (detachField_keyed consistent.toKeyed) (fun m f r found refers => ?_)
    consistent.relationships (fun r member => ?_) fun link member => ?_
  · rw [field?_detachField] at found
    split at found
    · obtain ⟨g, _, rfl⟩ := Option.map_eq_some_iff.mp found
      simp [Field.detach] at refers
    · obtain ⟨flag, target⟩ := consistent.reference found refers
      exact ⟨flag, kept target⟩
  · obtain ⟨source, fallback, dependent⟩ := consistent.endpoint member
    exact ⟨kept source, kept fallback, kept dependent⟩
  · obtain ⟨table, view⟩ := consistent.links link member
    exact ⟨List.mem_map.mp (p.detachField_tableIds l now ▸ List.mem_map.mpr table), view⟩

theorem Consistent.dropTable (consistent : p.Consistent) (id : String) (gone : List String)
    (now : Timestamp) : (p.dropTable id gone now).Consistent := by
  have kept : ∀ {m : Location}, (p.field? m).isSome → m.table ≠ id →
      ((p.dropTable id gone now).field? m).isSome := by
    intro m found apart
    rw [field?_dropTable consistent.toKeyed, if_neg apart, Option.isSome_map]
    exact found
  refine .of_field? (dropTable_keyed consistent.toKeyed) (fun m f r found refers => ?_)
    (consistent.relationships.sublist (List.filter_sublist.map _)) (fun r member => ?_)
    fun link member => ?_
  · rw [field?_dropTable consistent.toKeyed] at found
    split at found
    · contradiction
    · obtain ⟨g, before, rfl⟩ := Option.map_eq_some_iff.mp found
      obtain ⟨elsewhere, same, refers⟩ := Field.reference_detachWhen refers
      obtain ⟨flag, target⟩ := consistent.reference before refers
      rw [same]
      exact ⟨flag, kept target (refersInto_eq_false_iff.mp elsewhere r refers)⟩
  · obtain ⟨present, apart⟩ := List.mem_filter.mp member
    simp only [Relationship.touchesTable, Bool.and_eq_true, Bool.not_eq_true',
      Bool.or_eq_false_iff, beq_eq_false_iff_ne] at apart
    obtain ⟨source, fallback, dependent⟩ := consistent.endpoint present
    exact ⟨kept source apart.2.1.1, kept fallback apart.2.1.2, kept dependent apart.2.2⟩
  · obtain ⟨present, apart⟩ := List.mem_filter.mp member
    obtain ⟨⟨t, inside, same⟩, view⟩ := consistent.links link present
    have other : t.id ≠ id := by
      rw [same]
      simpa using apart
    refine ⟨⟨t.detachWhere (·.refersInto id) now, List.mem_map_of_mem ?_, ?_⟩, view⟩
    · exact (List.mem_eraseP_of_neg (by simpa using other)).mpr inside
    · rw [(Table.detachWhere_fieldwise (·.refersInto id) now).id, same]

/-- Fewer relationships and fewer links keep a project consistent. -/
theorem Consistent.fewer {q : Project} (consistent : p.Consistent) (tables : q.tables = p.tables)
    (relationships : q.relationships.Sublist p.relationships)
    (links : ∀ m ∈ q.metricRelationships,
      m ∈ p.metricRelationships ∧ ∀ v ∈ p.metricViews, v.id = m.metricView → v ∈ q.metricViews) :
    q.Consistent := by
  have look : ∀ m, q.field? m = p.field? m := fun m => by
    rw [field?, table?, tables]
    rfl
  refine .of_field? ⟨tables ▸ consistent.tables, tables ▸ consistent.fields⟩
    (fun m f r found refers => ?_) (consistent.relationships.sublist (relationships.map _))
    (fun r member => ?_) fun m member => ?_
  · rw [look] at found ⊢
    exact consistent.reference found refers
  · simp only [look]
    exact consistent.endpoint (relationships.subset member)
  · obtain ⟨present, views⟩ := links m member
    obtain ⟨table, v, inside, same⟩ := consistent.links m present
    exact ⟨tables ▸ table, v, views v inside same, same⟩

end Project
end LakeSchema
