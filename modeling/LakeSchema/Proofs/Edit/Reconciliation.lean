import LakeSchema.Proofs.Edit.Removal

/-!
# Settling dependent fields

What the verdict on a relationship says of its dependent field, and what settling one relationship
or many keeps. `deleteRelationship_eq` and `deleteTable_eq` give the result of a deletion whose
target exists.
-/

namespace LakeSchema.Project

variable {p : Project} {policy : OriginPolicy} {r : Relationship} {now : Timestamp} {id : String}

/-! ### Verdicts -/

theorem verdict_eq_missing_iff :
    p.verdict policy r = .missing ↔ p.field? r.dependent = none := by
  unfold verdict
  cases p.field? r.dependent with
  | none => simp
  | some f =>
    simp only [reduceCtorEq, iff_false]
    split
    · simp
    · split <;> simp

theorem verdict_of_elsewhere {f : Field} {reference : Reference}
    (found : p.field? r.dependent = some f) (refers : f.reference = some reference)
    (elsewhere : reference.target ≠ r.source) : p.verdict policy r = .untouched := by
  simp [verdict, found, refers, elsewhere]

/-- A dependent field that refers to no other key goes by its origin. -/
theorem verdict_of_tied {f : Field} (found : p.field? r.dependent = some f)
    (tied : ∀ reference, f.reference = some reference → reference.target = r.source) :
    p.verdict policy r =
      match f.originUnder policy ((p.field? r.source).map (·.name)) with
      | .linked => .removed
      | .independent => .detached := by
  have here : (f.reference.any fun reference => reference.target != r.source) = false := by
    cases refers : f.reference with
    | none => rfl
    | some reference => simp [tied reference refers]
  cases origin : f.originUnder policy ((p.field? r.source).map (·.name)) <;>
    simp [verdict, found, here, origin]

theorem reconcile_fst (p : Project) (policy : OriginPolicy) (r : Relationship) (now : Timestamp) :
    (p.reconcile policy r now).1 = p.verdict policy r := by
  unfold reconcile
  cases p.verdict policy r <;> rfl

/-- Settling a relationship removes its dependent field, detaches it, or changes nothing. -/
theorem reconcile_induct {motive : Project → Prop}
    (removed : p.verdict policy r = .removed → motive (p.purgeField r.dependent now))
    (detached : p.verdict policy r = .detached → motive (p.detachField r.dependent now))
    (kept : p.verdict policy r ≠ .removed → p.verdict policy r ≠ .detached → motive p) :
    motive (p.reconcile policy r now).2 := by
  unfold reconcile
  cases verdict : p.verdict policy r with
  | removed => exact removed verdict
  | detached => exact detached verdict
  | untouched => exact kept (by simp [verdict]) (by simp [verdict])
  | missing => exact kept (by simp [verdict]) (by simp [verdict])
  | skipped => exact kept (by simp [verdict]) (by simp [verdict])

theorem field?_reconcile {l : Location} :
    (p.reconcile policy r now).2.field? l =
      match p.verdict policy r with
      | .removed =>
        if l = r.dependent then none
        else (p.field? l).map (Field.detachWhen (·.refersTo r.dependent))
      | .detached => if l = r.dependent then (p.field? l).map Field.detach else p.field? l
      | .untouched | .missing | .skipped => p.field? l := by
  unfold reconcile
  cases p.verdict policy r with
  | removed => exact field?_purgeField
  | detached => exact field?_detachField
  | untouched | missing | skipped => rfl

theorem reconcile_gone {l : Location} (gone : p.field? l = none) :
    (p.reconcile policy r now).2.field? l = none := by
  rw [field?_reconcile]
  split <;> simp [gone]

theorem reconcile_relationships :
    (p.reconcile policy r now).2.relationships =
      if p.verdict policy r = .removed then p.relationships.filter (!·.touchesField r.dependent)
      else p.relationships := by
  unfold reconcile
  cases p.verdict policy r <;> rfl

theorem Consistent.reconcile (consistent : p.Consistent) (policy : OriginPolicy) (r : Relationship)
    (now : Timestamp) : (p.reconcile policy r now).2.Consistent :=
  reconcile_induct (fun _ => consistent.purgeField _ _) (fun _ => consistent.detachField _ _)
    fun _ _ => consistent

theorem reconcile_tableIds :
    (p.reconcile policy r now).2.tables.map (·.id) = p.tables.map (·.id) :=
  reconcile_induct (motive := fun q => q.tables.map (·.id) = p.tables.map (·.id))
    (fun _ => p.purgeField_tableIds _ _) (fun _ => p.detachField_tableIds _ _) fun _ _ => rfl

theorem reconcile_sublist :
    (p.reconcile policy r now).2.relationships.Sublist p.relationships :=
  reconcile_induct (motive := fun q => q.relationships.Sublist p.relationships)
    (fun _ => List.filter_sublist) (fun _ => .refl _) fun _ _ => .refl _

/-! ### Many relationships -/

/-- What settling one relationship keeps, settling many of them keeps. -/
theorem reconcileAll_induct {motive : Project → Prop} {table : String} {rs : List Relationship}
    (step : ∀ q, ∀ r ∈ rs, r.dependent.table ≠ table → motive q →
      motive (q.reconcile policy r now).2)
    (start : motive p) : motive (reconcileAll policy table now rs p).2 := by
  induction rs generalizing p with
  | nil => exact start
  | cons r rest ih =>
    have later := fun q s member => step q s (List.mem_cons_of_mem r member)
    rw [reconcileAll]
    by_cases inside : r.dependent.table = table
    · simp only [inside, beq_self_eq_true, if_true]
      exact ih later start
    · simp only [beq_iff_eq, inside, if_false]
      exact ih later (step p r (List.mem_cons_self ..) inside start)

theorem reconcileAll_singleton (table : String) :
    (reconcileAll policy table now [r] p).2 =
      if r.dependent.table = table then p else (p.reconcile policy r now).2 := by
  by_cases inside : r.dependent.table = table <;> simp [reconcileAll, inside]

theorem reconcileAll_append (table : String) (before after : List Relationship) :
    (reconcileAll policy table now (before ++ after) p).2 =
      (reconcileAll policy table now after (reconcileAll policy table now before p).2).2 := by
  induction before generalizing p with
  | nil => rfl
  | cons r rest ih => simp only [List.cons_append, reconcileAll, ih]

theorem reconcileAll_cons (table : String) (rest : List Relationship) :
    (reconcileAll policy table now (r :: rest) p).2 =
      (reconcileAll policy table now rest (reconcileAll policy table now [r] p).2).2 :=
  reconcileAll_append table [r] rest

theorem Consistent.reconcileAll (consistent : p.Consistent) (policy : OriginPolicy) (table : String)
    (now : Timestamp) (rs : List Relationship) :
    (reconcileAll policy table now rs p).2.Consistent :=
  reconcileAll_induct (fun _ r _ _ consistent => consistent.reconcile policy r now) consistent

theorem reconcileAll_tableIds {table : String} {rs : List Relationship} :
    (Project.reconcileAll policy table now rs p).2.tables.map (·.id) = p.tables.map (·.id) :=
  reconcileAll_induct (motive := fun q => q.tables.map (·.id) = p.tables.map (·.id))
    (fun _ _ _ _ same => reconcile_tableIds.trans same) rfl

theorem reconcileAll_sublist {table : String} {rs : List Relationship} :
    (Project.reconcileAll policy table now rs p).2.relationships.Sublist p.relationships :=
  reconcileAll_induct (motive := fun q => q.relationships.Sublist p.relationships)
    (fun _ _ _ _ fewer => reconcile_sublist.trans fewer) (.refl _)

/-! ### Deletions -/

/-- The project without a relationship whose dependent field is settled. -/
def cut (p : Project) (policy : OriginPolicy) (r : Relationship) (now : Timestamp) : Project :=
  { (p.reconcile policy r now).2 with
    relationships := (p.reconcile policy r now).2.relationships.filter (·.id != r.id) }

theorem cut_sublist : (p.cut policy r now).relationships.Sublist p.relationships :=
  List.filter_sublist.trans reconcile_sublist

theorem cut_tableIds : (p.cut policy r now).tables.map (·.id) = p.tables.map (·.id) :=
  reconcile_tableIds

theorem Consistent.cut (consistent : p.Consistent) (policy : OriginPolicy) (r : Relationship)
    (now : Timestamp) : (p.cut policy r now).Consistent :=
  (consistent.reconcile policy r now).fewer rfl List.filter_sublist fun _ member =>
    ⟨member, fun _ inside _ => inside⟩

theorem deleteRelationship_eq (found : p.relationship? id = some r)
    (present : (p.field? r.dependent).isSome) :
    p.deleteRelationship policy id now = .ok ((r, p.verdict policy r), p.cut policy r now) := by
  have there : p.verdict policy r ≠ .missing := by
    rw [Ne, verdict_eq_missing_iff]
    simpa [Option.isSome_iff_ne_none] using present
  rw [cut]
  rw [← p.reconcile_fst policy r now] at there ⊢
  rcases settled : p.reconcile policy r now with ⟨outcome, q⟩
  rw [settled] at there
  cases outcome with
  | missing => exact (there rfl).elim
  | removed | detached | untouched | skipped => simp only [deleteRelationship, found, settled]

/-- The relationships that touch a table, in the order of the project. -/
def touching (p : Project) (table : String) : List Relationship :=
  p.relationships.filter (·.touchesTable table)

theorem mem_of_id_mem {rs : List Relationship} (consistent : p.Consistent)
    (known : rs ⊆ p.relationships) (member : r ∈ p.relationships)
    (listed : r.id ∈ rs.map (·.id)) : r ∈ rs := by
  obtain ⟨s, present, same⟩ := List.mem_map.mp listed
  rwa [← List.inj_on_of_nodup_map consistent.relationships (known present) member same]

theorem dropTable_relationships {table : String} {gone : List String}
    (touch : ∀ r ∈ p.relationships, r.id ∈ gone → r.touchesTable table) :
    (p.dropTable table gone now).relationships =
      p.relationships.filter (!·.touchesTable table) := by
  refine List.filter_congr fun r member => ?_
  by_cases listed : r.id ∈ gone
  · simp [touch r member listed]
  · simp [listed]

theorem table?_isSome_iff : (p.table? id).isSome ↔ id ∈ p.tables.map (·.id) := by
  rw [table?, find?_isSome_iff_mem, List.mem_map]

theorem deleteTable_eq (policy : OriginPolicy) (now : Timestamp) (present : (p.table? id).isSome) :
    ∃ t, p.deleteTable policy id now =
      let settled := reconcileAll policy id now (p.touching id) p
      .ok (⟨t, (p.touching id).map (·.id), settled.1⟩,
        settled.2.dropTable id ((p.touching id).map (·.id)) now) := by
  have remains : ((reconcileAll policy id now (p.touching id) p).2.table? id).isSome := by
    rw [table?_isSome_iff, reconcileAll_tableIds, ← table?_isSome_iff]
    exact present
  obtain ⟨before, located⟩ := Option.isSome_iff_exists.mp present
  obtain ⟨t, found⟩ := Option.isSome_iff_exists.mp remains
  unfold touching at found
  exact ⟨t, by simp only [deleteTable, located, found, touching]⟩

theorem deleteRelationship_effect {answer : Relationship × Reconciliation}
    (done : p.deleteRelationship policy id now = .ok (answer, q)) :
    ∃ r, p.relationship? id = some r ∧ answer = (r, p.verdict policy r) ∧
      q = p.cut policy r now := by
  unfold deleteRelationship at done
  split at done
  · contradiction
  · rename_i r found
    refine ⟨r, found, ?_⟩
    rw [cut, ← p.reconcile_fst policy r now]
    split at done
    · contradiction
    · rename_i settled
      rw [settled]
      obtain ⟨rfl, rfl⟩ := Prod.mk.inj (Except.ok.inj done)
      exact ⟨rfl, rfl⟩

theorem deleteTable_effect {answer : TableDeletion}
    (done : p.deleteTable policy id now = .ok (answer, q)) :
    q = (reconcileAll policy id now (p.touching id) p).2.dropTable id
      ((p.touching id).map (·.id)) now := by
  have present : (p.table? id).isSome := by
    cases located : p.table? id with
    | none => simp [deleteTable, located] at done
    | some t => rfl
  obtain ⟨t, deleted⟩ := deleteTable_eq policy now present
  rw [deleted] at done
  exact (Prod.mk.inj (Except.ok.inj done)).2.symm

end LakeSchema.Project
