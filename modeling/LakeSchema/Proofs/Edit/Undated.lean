import LakeSchema.Proofs.Edit.Reconciliation

/-!
# Removals up to times

Removals note their time in the tables that they change. `undatedTables` forgets it, and what a
removal makes of the tables then depends on nothing else (`undatedTables_reconcile`).
-/

namespace LakeSchema

namespace Table

variable {condition : Field → Bool} {t : Table} {now : Timestamp}

/-- The table without the time of its last change. -/
def undated (t : Table) : Table :=
  { t with updatedAt := t.createdAt }

/-- The table with the fields that meet a condition as plain columns, at no time. -/
def loosen (condition : Field → Bool) (t : Table) : Table :=
  { t with fields := t.fields.map (Field.detachWhen condition) }

theorem undated_detachWhere :
    (t.detachWhere condition now).undated = t.undated.loosen condition := by
  have fields := (detachWhere_fieldwise condition now).fields t
  unfold detachWhere at *
  split
  · rfl
  · rename_i absent
    rw [if_neg absent] at fields
    rw [loosen, undated, ← fields]

/-- Fields that referred into a table no longer refer to any field of it. -/
theorem loosen_loosen {l : Location} {table : String} (inside : l.table = table) :
    (t.loosen (·.refersTo l)).loosen (·.refersInto table) = t.loosen (·.refersInto table) := by
  have detached : ∀ f : Field, (f.detachWhen (·.refersTo l)).detachWhen (·.refersInto table) =
      f.detachWhen (·.refersInto table) := by
    intro f
    by_cases refers : f.refersTo l
    · obtain ⟨reference, held, same⟩ := (Option.any_eq_true _ _).mp refers
      have into : f.refersInto table := by
        rw [beq_iff_eq] at same
        rw [Field.refersInto, held, Option.any_some, beq_iff_eq, ← inside, ← same]
        rfl
      rw [show f.detachWhen (·.refersTo l) = f.detach from if_pos refers, Field.detachWhen_detach,
        Field.detachWhen, if_pos into]
    · rw [show f.detachWhen (·.refersTo l) = f from if_neg refers]
  simp only [loosen, List.map_map, Function.comp_def, detached]

end Table

namespace Project

variable {p q : Project} {policy : OriginPolicy} {r : Relationship} {l : Location}
  {now later : Timestamp} {table : String}

def undatedTables (p : Project) : List Table :=
  p.tables.map Table.undated

/-- Fields are found without looking at times. -/
theorem field?_congr (same : p.undatedTables = q.undatedTables) (l : Location) :
    p.field? l = q.field? l := by
  have undated : ∀ p : Project,
      p.field? l = (p.undatedTables.find? (·.id == l.table)).bind (·.field? l.field) := by
    intro p
    rw [undatedTables, List.find?_map, Option.bind_map]
    rfl
  rw [undated, undated, same]

theorem verdict_congr (same : p.undatedTables = q.undatedTables) :
    p.verdict policy r = q.verdict policy r := by
  simp only [verdict, field?_congr same]

/-! ### Tables after a removal -/

theorem undatedTables_purgeField :
    (p.purgeField l now).undatedTables =
      (updateFirst (·.id == l.table)
        (fun t => { t with fields := t.fields.filter (·.id != l.field) }) p.undatedTables).map
        (Table.loosen (·.refersTo l)) := by
  have emptied : (p.updateTable l.table fun t =>
      { t with fields := t.fields.filter (·.id != l.field), updatedAt := now }).undatedTables =
        updateFirst (·.id == l.table)
          (fun t => { t with fields := t.fields.filter (·.id != l.field) }) p.undatedTables :=
    map_updateFirst Table.undated (by intro t; rfl) (by intro t; rfl)
  rw [← emptied, undatedTables, undatedTables, purgeField, releaseField, List.map_map, List.map_map]
  exact List.map_congr_left fun t _ => Table.undated_detachWhere

theorem undatedTables_detachField :
    (p.detachField l now).undatedTables =
      updateFirst (·.id == l.table)
        (fun t => { t with fields := updateFirst (·.id == l.field) Field.detach t.fields })
        p.undatedTables :=
  map_updateFirst Table.undated (by intro t; rfl) (by intro t; rfl)

/-- Settling a relationship makes the same of the same tables at any time. -/
theorem undatedTables_reconcile (same : p.undatedTables = q.undatedTables) :
    (p.reconcile policy r now).2.undatedTables = (q.reconcile policy r later).2.undatedTables := by
  unfold reconcile
  rw [verdict_congr same]
  cases q.verdict policy r with
  | removed =>
    change (p.purgeField _ _).undatedTables = (q.purgeField _ _).undatedTables
    rw [undatedTables_purgeField, undatedTables_purgeField, same]
  | detached =>
    change (p.detachField _ _).undatedTables = (q.detachField _ _).undatedTables
    rw [undatedTables_detachField, undatedTables_detachField, same]
  | untouched | missing | skipped => exact same

/-! ### The tables that survive -/

/-- The tables that stay when one is dropped, at no time. -/
def survivors (p : Project) (table : String) : List Table :=
  (p.undatedTables.filter (·.id != table)).map (Table.loosen (·.refersInto table))

theorem undatedTables_dropTable {gone : List String} (keyed : p.Keyed) :
    (p.dropTable table gone now).undatedTables = p.survivors table := by
  rw [undatedTables, dropTable, eraseP_eq_filter keyed.tables, List.map_map, survivors, undatedTables,
    List.filter_map, List.map_map]
  exact List.map_congr_left fun t _ => Table.undated_detachWhere

/-- What is settled within a table leaves no trace once the table is dropped. -/
theorem survivors_reconcile (inside : r.dependent.table = table) :
    (p.reconcile policy r now).2.survivors table = p.survivors table := by
  refine reconcile_induct (motive := fun q => q.survivors table = p.survivors table)
    (fun _ => ?_) (fun _ => ?_) fun _ _ => rfl
  · have others : (fun t : Table => t.id != table) ∘ Table.loosen (·.refersTo r.dependent) =
        fun t => t.id != table := rfl
    rw [survivors, undatedTables_purgeField, List.filter_map, others, inside,
      filter_updateFirst Table.id (by intro t; rfl), List.map_map, survivors]
    exact List.map_congr_left fun t _ => Table.loosen_loosen inside
  · rw [survivors, undatedTables_detachField, inside,
      filter_updateFirst Table.id (by intro t; rfl), survivors]

end Project
end LakeSchema
