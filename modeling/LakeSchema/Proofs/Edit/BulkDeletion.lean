import LakeSchema.Proofs.Edit.Undated

/-!
# Deleting a table at once or relationship by relationship

Deleting a table settles the relationships that touch it without deleting them first.
`deleteTable_mirrors` compares this with deleting them one by one before the table. Both leave the
same project up to times if those come last whose dependent field lies in the table, and if no
relationship goes along with an earlier one while its own dependent field has yet to be settled.
`inTurn_of_targets` shows that the latter only happens to relationships with a stray target.
-/

namespace LakeSchema.Project

variable {p q : Project} {policy : OriginPolicy} {r : Relationship} {id table : String}
  {now later : Timestamp} {ids : List String} {rs : List Relationship} {clock : String → Timestamp}

/-- Deletes relationships one after the other, each at its own time. One that went along with an
earlier one is skipped. -/
def deleteEach (policy : OriginPolicy) (clock : String → Timestamp) :
    List String → Project → Except SchemaError Project
  | [], p => .ok p
  | id :: rest, p =>
    match p.relationship? id with
    | none => deleteEach policy clock rest p
    | some _ => do
      let (_, p) ← p.deleteRelationship policy id (clock id)
      deleteEach policy clock rest p

/-- Deletes relationships one after the other and then a table. -/
def deleteSingly (p : Project) (policy : OriginPolicy) (clock : String → Timestamp)
    (rs : List Relationship) (table : String) (now : Timestamp) :
    Except SchemaError (TableDeletion × Project) := do
  let p ← deleteEach policy clock (rs.map (·.id)) p
  p.deleteTable policy table now

/-- The relationships that touch a table and have their dependent field outside of it. -/
def outside (p : Project) (table : String) : List Relationship :=
  (p.touching table).filter (·.dependent.table != table)

/-- The relationships that touch a table and have their dependent field in it. -/
def inside (p : Project) (table : String) : List Relationship :=
  (p.touching table).filter (·.dependent.table == table)

theorem mem_outside :
    r ∈ p.outside table ↔
      r ∈ p.relationships ∧ r.touchesTable table ∧ r.dependent.table ≠ table := by
  rw [outside, touching, List.mem_filter, List.mem_filter, bne_iff_ne, and_assoc]

theorem mem_inside :
    r ∈ p.inside table ↔
      r ∈ p.relationships ∧ r.touchesTable table ∧ r.dependent.table = table := by
  rw [inside, touching, List.mem_filter, List.mem_filter, beq_iff_eq, and_assoc]

/-- In its turn, each relationship is still in the project or leaves nothing to settle. -/
def InTurn (policy : OriginPolicy) (table : String) (now : Timestamp) (rs : List Relationship)
    (p : Project) : Prop :=
  ∀ before r after, rs = before ++ r :: after →
    let settled := (reconcileAll policy table now before p).2
    r ∈ settled.relationships ∨ settled.verdict policy r = .missing ∨
      settled.verdict policy r = .untouched

/-! ### One relationship -/

theorem relationship?_eq_some_iff (consistent : p.Consistent) :
    p.relationship? id = some r ↔ r ∈ p.relationships ∧ r.id = id :=
  find?_eq_some_iff_mem consistent.relationships

theorem relationship?_eq_none_iff : p.relationship? id = none ↔ ∀ r ∈ p.relationships, r.id ≠ id := by
  simp [relationship?]

theorem deleteEach_absent (absent : p.relationship? id = none) :
    deleteEach policy clock (id :: ids) p = deleteEach policy clock ids p := by
  rw [deleteEach, absent]

theorem deleteEach_present (consistent : p.Consistent) (found : p.relationship? id = some r) :
    deleteEach policy clock (id :: ids) p =
      deleteEach policy clock ids (p.cut policy r (clock id)) := by
  have dependent := (consistent.endpoint (List.mem_of_find?_eq_some found)).2.2
  rw [deleteEach, found, deleteRelationship_eq found dependent]
  rfl

theorem deleteEach_append {xs ys : List String} :
    deleteEach policy clock (xs ++ ys) p =
      deleteEach policy clock xs p >>= deleteEach policy clock ys := by
  induction xs generalizing p with
  | nil => rfl
  | cons id rest ih =>
    rw [List.cons_append, deleteEach, deleteEach]
    cases p.relationship? id with
    | none => exact ih
    | some r =>
      cases p.deleteRelationship policy id (clock id) with
      | error e => rfl
      | ok settled => exact ih

/-- What remains of a project from which some relationships were deleted. -/
structure Cleared (ids : List String) (p q : Project) : Prop where
  consistent : q.Consistent
  tables : q.tables.map (·.id) = p.tables.map (·.id)
  fewer : q.relationships.Sublist p.relationships
  gone : ∀ r ∈ q.relationships, r.id ∉ ids

/-- Relationships of a consistent project are all deleted, and what each deletion keeps remains. -/
theorem deleteEach_induct {motive : Project → Prop} (policy : OriginPolicy)
    (clock : String → Timestamp) (ids : List String) (consistent : p.Consistent)
    (step : ∀ q r now, q.Consistent → q.relationships.Sublist p.relationships →
      r ∈ q.relationships → r.id ∈ ids → motive q → motive (q.cut policy r now))
    (start : motive p) :
    ∃ q, deleteEach policy clock ids p = .ok q ∧ Cleared ids p q ∧ motive q := by
  induction ids generalizing p with
  | nil => exact ⟨p, rfl, ⟨consistent, rfl, .refl _, by simp⟩, start⟩
  | cons id rest ih =>
    cases found : p.relationship? id with
    | none =>
      obtain ⟨q, done, cleared, holds⟩ := ih consistent (fun q r now sound fewer member listed =>
        step q r now sound fewer member (List.mem_cons_of_mem id listed)) start
      refine ⟨q, by rw [deleteEach_absent found, done], { cleared with gone := ?_ }, holds⟩
      intro r member
      have other := relationship?_eq_none_iff.mp found r (cleared.fewer.subset member)
      simp [other, cleared.gone r member]
    | some r =>
      obtain ⟨member, same⟩ := (relationship?_eq_some_iff consistent).mp found
      obtain ⟨q, done, cleared, holds⟩ := ih (consistent.cut policy r (clock id))
        (fun q s now sound fewer inside listed => step q s now sound (fewer.trans cut_sublist)
          inside (List.mem_cons_of_mem id listed))
        (step p r (clock id) consistent (.refl _) member (by simp [same]) start)
      refine ⟨q, by rw [deleteEach_present consistent found, done],
        ⟨cleared.consistent, cleared.tables.trans cut_tableIds,
          cleared.fewer.trans cut_sublist, fun s present => ?_⟩, holds⟩
      have other : s.id ≠ r.id := by
        simpa using (List.mem_filter.mp (cleared.fewer.subset present)).2
      simp [cleared.gone s present, ← same, other]

theorem deleteEach_cleared (consistent : p.Consistent)
    (done : deleteEach policy clock ids p = .ok q) : Cleared ids p q := by
  obtain ⟨_, other, cleared, _⟩ := deleteEach_induct (motive := fun _ => True) policy clock ids
    consistent (fun _ _ _ _ _ _ _ _ => trivial) trivial
  rw [done, Except.ok.injEq] at other
  exact other ▸ cleared

/-! ### Both ways in step -/

variable {rest : List Relationship}

theorem reconcileAll_cons_outside (outside : r.dependent.table ≠ table) :
    (reconcileAll policy table now (r :: rest) p).2 =
      (reconcileAll policy table now rest (p.reconcile policy r now).2).2 := by
  rw [reconcileAll_cons, reconcileAll_singleton, if_neg outside]

theorem InTurn.tail (inTurn : InTurn policy table now (r :: rest) p)
    (outside : r.dependent.table ≠ table) :
    InTurn policy table now rest (p.reconcile policy r now).2 := by
  intro before s after split
  have turn := inTurn (r :: before) s after (by rw [split, List.cons_append])
  rwa [reconcileAll_cons_outside outside] at turn

/-- The project settled at once and the project settled one by one, before the relationships that
are waiting. -/
structure Mirrors (table : String) (waiting : List Relationship) (p q : Project) : Prop where
  consistent : q.Consistent
  tables : p.undatedTables = q.undatedTables
  others : p.relationships.filter (!·.touchesTable table) =
    q.relationships.filter (!·.touchesTable table)
  remaining : ∀ r ∈ waiting, r ∈ p.relationships ↔ r ∈ q.relationships
  known : ∀ r ∈ waiting, ∀ s ∈ q.relationships, s.id = r.id → s = r

theorem filter_others_reconcile
    (others : p.relationships.filter (!·.touchesTable table) =
      q.relationships.filter (!·.touchesTable table))
    (same : p.verdict policy r = q.verdict policy r) :
    (p.reconcile policy r now).2.relationships.filter (!·.touchesTable table) =
      (q.reconcile policy r later).2.relationships.filter (!·.touchesTable table) := by
  rw [reconcile_relationships, reconcile_relationships, same]
  split
  · rw [List.filter_comm, others, List.filter_comm]
  · exact others

/-- Taking out a relationship that touches the table leaves the others. -/
theorem filter_others_cut (consistent : p.Consistent) (member : r ∈ p.relationships)
    (touches : r.touchesTable table) :
    (p.cut policy r now).relationships.filter (!·.touchesTable table) =
      (p.reconcile policy r now).2.relationships.filter (!·.touchesTable table) := by
  rw [cut, List.filter_comm, List.filter_eq_self]
  intro s present
  obtain ⟨inside, apart⟩ := List.mem_filter.mp present
  have other : s.id ≠ r.id := by
    intro same
    have equal := List.inj_on_of_nodup_map consistent.relationships
      (reconcile_sublist.subset inside) member same
    rw [equal, touches] at apart
    contradiction
  simpa using other

theorem Mirrors.absent (mirrors : Mirrors table (r :: rest) p q)
    (idle : p.verdict policy r = .missing ∨ p.verdict policy r = .untouched) :
    Mirrors table rest (p.reconcile policy r now).2 q := by
  have unchanged : (p.reconcile policy r now).2 = p := by
    rcases idle with verdict | verdict <;> rw [reconcile, verdict]
  rw [unchanged]
  exact
    { mirrors with
      remaining := fun s member => mirrors.remaining s (List.mem_cons_of_mem r member)
      known := fun s member => mirrors.known s (List.mem_cons_of_mem r member) }

theorem Mirrors.present (mirrors : Mirrors table (r :: rest) p q) (member : r ∈ q.relationships)
    (touches : r.touchesTable table) (fresh : ∀ s ∈ rest, s.id ≠ r.id) :
    Mirrors table rest (p.reconcile policy r now).2 (q.cut policy r later) where
  consistent := mirrors.consistent.cut policy r later
  tables := undatedTables_reconcile mirrors.tables
  others := by
    rw [filter_others_cut mirrors.consistent member touches]
    exact filter_others_reconcile mirrors.others (verdict_congr mirrors.tables)
  remaining s inside := by
    have same := mirrors.remaining s (List.mem_cons_of_mem r inside)
    rw [cut, List.mem_filter, reconcile_relationships, reconcile_relationships,
      verdict_congr mirrors.tables]
    split <;> simp [same, fresh s inside]
  known s inside u left :=
    mirrors.known s (List.mem_cons_of_mem r inside) u (cut_sublist.subset left)

/-- Relationships whose dependent field lies outside of the table are settled alike both ways. -/
theorem Mirrors.deleteEach (mirrors : Mirrors table rs p q) (clock : String → Timestamp)
    (inTurn : InTurn policy table now rs p) (touch : ∀ r ∈ rs, r.touchesTable table)
    (outside : ∀ r ∈ rs, r.dependent.table ≠ table) (distinct : (rs.map (·.id)).Nodup) :
    ∃ single, deleteEach policy clock (rs.map (·.id)) q = .ok single ∧
      Mirrors table [] (reconcileAll policy table now rs p).2 single := by
  induction rs generalizing p q with
  | nil => exact ⟨q, rfl, mirrors⟩
  | cons r rest ih =>
    have away := outside r (List.mem_cons_self ..)
    rw [List.map_cons, List.nodup_cons] at distinct
    have others := fun {q} (mirrors : Mirrors table rest (p.reconcile policy r now).2 q) =>
      ih mirrors (inTurn.tail away) (fun s member => touch s (List.mem_cons_of_mem r member))
        (fun s member => outside s (List.mem_cons_of_mem r member)) distinct.2
    rw [reconcileAll_cons_outside away, List.map_cons]
    by_cases here : r ∈ q.relationships
    · have found := (relationship?_eq_some_iff mirrors.consistent).mpr ⟨here, rfl⟩
      rw [deleteEach_present mirrors.consistent found]
      refine others (mirrors.present here (touch r (List.mem_cons_self ..)) ?_)
      exact fun s member same => distinct.1 (same ▸ List.mem_map_of_mem member)
    · have gone : q.relationship? r.id = none := by
        refine relationship?_eq_none_iff.mpr fun s member same => here ?_
        rwa [← mirrors.known r (List.mem_cons_self ..) s member same]
      have dropped : r ∉ p.relationships := mt (mirrors.remaining r (List.mem_cons_self ..)).mp here
      rw [deleteEach_absent gone]
      exact others (mirrors.absent ((inTurn [] r rest rfl).resolve_left dropped))

/-- A relationship with its source in the table and its other ends outside of it touches a field
outside of it only as its dependent field. -/
theorem dependent_eq_of_touchesField {l : Location} (member : r ∈ p.outside table)
    (target : r.fallback = r.dependent) (away : l.table ≠ table) (touches : r.touchesField l) :
    r.dependent = l := by
  obtain ⟨_, ends, outside⟩ := mem_outside.mp member
  have fallback : r.targetTable = r.dependent.table := congrArg Location.table target
  simp only [Relationship.touchesTable, fallback, outside, Bool.or_eq_true, beq_iff_eq,
    or_false] at ends
  simp only [Relationship.touchesField, target, Bool.or_eq_true, beq_iff_eq, or_assoc,
    or_self] at touches
  rcases touches with rfl | same
  · exact (away ends).elim
  · exact same

/-- Where targets are dependent fields, a relationship is only dropped together with its dependent
field. -/
theorem inTurn_of_targets (targets : ∀ r ∈ p.touching table, r.fallback = r.dependent) :
    InTurn policy table now (p.outside table) p := by
  intro before r after split
  have kept : ∀ s ∈ p.outside table,
      s ∈ (reconcileAll policy table now before p).2.relationships ∨
        (reconcileAll policy table now before p).2.field? s.dependent = none := by
    refine reconcileAll_induct (motive := fun q => ∀ s ∈ p.outside table,
      s ∈ q.relationships ∨ q.field? s.dependent = none) (fun q u _ away holds s member => ?_)
      fun s member => .inl (mem_outside.mp member).1
    rcases holds s member with here | gone
    · rw [reconcile_relationships]
      split
      · rename_i removed
        by_cases touches : s.touchesField u.dependent
        · have same := dependent_eq_of_touchesField member
            (targets s (List.mem_filter.mp member).1) away touches
          refine .inr ?_
          rw [field?_reconcile, removed, same]
          exact if_pos rfl
        · exact .inl (List.mem_filter.mpr ⟨here, by simpa using touches⟩)
      · exact .inl here
    · exact .inr (reconcile_gone gone)
  have member : r ∈ p.outside table := by simp [split]
  exact (kept r member).imp_right fun gone => .inl (verdict_eq_missing_iff.mpr gone)

/-! ### Both ways at large -/

/-- Relationships whose dependent field lies in the table are left to the table. -/
theorem reconcileAll_outside :
    (reconcileAll policy table now rs p).2 =
      (reconcileAll policy table now (rs.filter (·.dependent.table != table)) p).2 := by
  induction rs generalizing p with
  | nil => rfl
  | cons r rest ih =>
    by_cases inside : r.dependent.table = table
    · simp [reconcileAll, inside, ih]
    · rw [reconcileAll_cons_outside inside, ih, List.filter_cons_of_pos (by simpa using inside),
        reconcileAll_cons_outside inside]

theorem touchesTable_of_touchesField {l : Location} (touches : r.touchesField l) :
    r.touchesTable l.table := by
  simp only [Relationship.touchesField, Bool.or_eq_true, beq_iff_eq] at touches
  rcases touches with (rfl | rfl) | rfl <;> simp [Relationship.touchesTable, Relationship.source,
    Relationship.fallback]

/-- A relationship that is settled within the table takes along only others that touch it. -/
theorem filter_others_inside (inside : r.dependent.table = table) :
    (p.reconcile policy r now).2.relationships.filter (!·.touchesTable table) =
      p.relationships.filter (!·.touchesTable table) := by
  rw [reconcile_relationships]
  split
  · rw [List.filter_comm, List.filter_eq_self]
    intro s member
    have apart := (List.mem_filter.mp member).2
    cases touches : s.touchesField r.dependent with
    | false => rfl
    | true => simp [← inside, touchesTable_of_touchesField touches] at apart
  · rfl

/-- Relationships whose dependent field lies in the table are deleted with no trace outside of it. -/
theorem deleteEach_inside (policy : OriginPolicy) (clock : String → Timestamp)
    (consistent : p.Consistent) (touch : ∀ r ∈ rs, r.touchesTable table)
    (inside : ∀ r ∈ rs, r.dependent.table = table)
    (known : ∀ r ∈ p.relationships, r.id ∈ rs.map (·.id) → r ∈ rs) :
    ∃ q, deleteEach policy clock (rs.map (·.id)) p = .ok q ∧ Cleared (rs.map (·.id)) p q ∧
      q.survivors table = p.survivors table ∧
      q.relationships.filter (!·.touchesTable table) =
        p.relationships.filter (!·.touchesTable table) := by
  refine deleteEach_induct policy clock _ consistent (fun q r now sound fewer member listed kept => ?_)
    ⟨rfl, rfl⟩
  have present := known r (fewer.subset member) listed
  refine ⟨(survivors_reconcile (inside r present)).trans kept.1, ?_⟩
  rw [filter_others_cut sound member (touch r present), filter_others_inside (inside r present),
    kept.2]

/-- Deleting the relationships that touch a table one by one succeeds, leaves none of them, and
agrees with settling them at once on everything that survives the table. -/
theorem deleteEach_outside_inside (consistent : p.Consistent)
    (inTurn : InTurn policy table now (p.outside table) p) (clock : String → Timestamp) :
    let settled := (reconcileAll policy table now (p.touching table) p).2
    ∃ q, deleteEach policy clock ((p.outside table ++ p.inside table).map (·.id)) p = .ok q ∧
      q.Consistent ∧ q.tables.map (·.id) = p.tables.map (·.id) ∧ q.touching table = [] ∧
      settled.survivors table = q.survivors table ∧
      settled.relationships.filter (!·.touchesTable table) =
        q.relationships.filter (!·.touchesTable table) := by
  have listed : (p.outside table).Sublist p.relationships :=
    List.filter_sublist.trans List.filter_sublist
  have start : Mirrors table (p.outside table) p p :=
    { consistent
      tables := rfl
      others := rfl
      remaining := fun _ _ => .rfl
      known := fun r member s present same =>
        List.inj_on_of_nodup_map consistent.relationships present (listed.subset member) same }
  obtain ⟨half, doneOutside, mirrors⟩ := start.deleteEach clock inTurn
    (fun _ member => (mem_outside.mp member).2.1) (fun _ member => (mem_outside.mp member).2.2)
    (consistent.relationships.sublist (listed.map _))
  rw [outside, ← reconcileAll_outside] at mirrors
  have cleared := deleteEach_cleared consistent doneOutside
  have known : ∀ r ∈ half.relationships, r.id ∈ (p.inside table).map (·.id) →
      r ∈ p.inside table := fun r member =>
    mem_of_id_mem consistent (fun _ listed => (mem_inside.mp listed).1) (cleared.fewer.subset member)
  obtain ⟨q, doneInside, rest, survivors, others⟩ := deleteEach_inside policy clock
    mirrors.consistent (fun _ member => (mem_inside.mp member).2.1)
    (fun _ member => (mem_inside.mp member).2.2) known
  refine ⟨q, ?_, rest.consistent, rest.tables.trans cleared.tables, ?_, ?_, ?_⟩
  · rw [List.map_append, deleteEach_append, doneOutside]
    exact doneInside
  · refine List.filter_eq_nil_iff.mpr fun r member touches => ?_
    have before := rest.fewer.subset member
    have first := cleared.fewer.subset before
    by_cases inside : r.dependent.table = table
    · exact rest.gone r member (List.mem_map_of_mem (mem_inside.mpr ⟨first, touches, inside⟩))
    · exact cleared.gone r before (List.mem_map_of_mem (mem_outside.mpr ⟨first, touches, inside⟩))
  · rw [survivors, Project.survivors, Project.survivors, mirrors.tables]
  · rw [others, mirrors.others]

/-- A table that no relationship touches is dropped as it is. -/
theorem deleteTable_untouched (policy : OriginPolicy) (now : Timestamp)
    (present : (p.table? table).isSome) (untouched : p.touching table = []) :
    ∃ deletion, p.deleteTable policy table now = .ok (deletion, p.dropTable table [] now) := by
  obtain ⟨t, deleted⟩ := deleteTable_eq policy now present
  rw [untouched] at deleted
  exact ⟨_, deleted⟩

/-- Deleting a table at once leaves, up to times, what deleting the relationships that touch it and
then the table leaves, if those are deleted first whose dependent field lies outside of the table and
each of them is either met in the project or needs no settling. -/
theorem deleteTable_mirrors (consistent : p.Consistent) (present : (p.table? table).isSome)
    (inTurn : InTurn policy table now (p.outside table) p) (clock : String → Timestamp)
    (later : Timestamp) :
    ∃ together bulk last single,
      p.deleteTable policy table now = .ok (together, bulk) ∧
      p.deleteSingly policy clock (p.outside table ++ p.inside table) table later =
        .ok (last, single) ∧
      bulk.undatedTables = single.undatedTables ∧ bulk.relationships = single.relationships := by
  obtain ⟨q, done, sound, ids, untouched, survivors, others⟩ :=
    deleteEach_outside_inside consistent inTurn clock
  obtain ⟨t, deleted⟩ := deleteTable_eq policy now present
  have remains : (q.table? table).isSome := by
    rw [table?_isSome_iff, ids, ← table?_isSome_iff]
    exact present
  obtain ⟨last, lastDeleted⟩ := deleteTable_untouched policy later remains untouched
  refine ⟨_, _, last, q.dropTable table [] later, deleted, ?_, ?_, ?_⟩
  · rw [deleteSingly, done]
    exact lastDeleted
  · rw [undatedTables_dropTable (consistent.reconcileAll _ _ _ _).toKeyed,
      undatedTables_dropTable sound.toKeyed, survivors]
  · rw [dropTable_relationships, dropTable_relationships, others]
    · exact fun _ _ listed => (List.not_mem_nil listed).elim
    · intro r member listed
      have before := reconcileAll_sublist.subset member
      exact (List.mem_filter.mp
        (mem_of_id_mem consistent (List.filter_subset_self _) before listed)).2

theorem keyChain_mirrors :
    ∃ together bulk last single,
      keyChain.deleteTable .nameMatch "S" newYear = .ok (together, bulk) ∧
      keyChain.deleteSingly .nameMatch (fun _ => newYear) (keyChain.outside "S" ++
        keyChain.inside "S") "S" newYear = .ok (last, single) ∧
      bulk.undatedTables = single.undatedTables ∧ bulk.relationships = single.relationships := by
  have consistent : keyChain.Consistent := inconsistencies_eq_nil_iff.mp rfl
  have present : (keyChain.table? "S").isSome := rfl
  have targets : ∀ r ∈ keyChain.touching "S", r.fallback = r.dependent := by decide
  exact deleteTable_mirrors consistent present (inTurn_of_targets targets) (fun _ => newYear) newYear

/-- Stores and visits refer to the same key, but the relationship of visits gives the field of stores
as its target. -/
def strayTarget : Project :=
  { empty "P" "shop" "main" "sales" newYear with
    tables :=
      [ { Table.plain "R" "regions" newYear with
          fields := [(Field.plain "K" "id" .int).asPrimaryKey] },
        { Table.plain "S" "stores" newYear with
          fields := [(Field.plain "L" "id" .int).referring ⟨"R", "K"⟩] },
        { Table.plain "V" "visits" newYear with
          fields := [(Field.plain "N" "id" .int).referring ⟨"R", "K"⟩] } ]
    relationships :=
      [ .between "RS" ⟨"R", "K"⟩ ⟨"S", "L"⟩ newYear,
        { Relationship.between "RV" ⟨"R", "K"⟩ ⟨"V", "N"⟩ newYear with
          targetTable := "S"
          targetField := "L" } ] }

/-- Deleting relationships one by one keeps a field that deleting the table at once removes: in the
order of the project for lack of a relationship that went along with a field of the table, and in
either order for a relationship with a stray target. -/
theorem deleteSingly_differs :
    (keyChain.inconsistencies = [] ∧ ∃ together bulk last single,
      keyChain.deleteTable .nameMatch "S" newYear = .ok (together, bulk) ∧
      keyChain.deleteSingly .nameMatch (fun _ => newYear) (keyChain.touching "S") "S" newYear =
        .ok (last, single) ∧
      bulk.field? ⟨"T", "M"⟩ = none ∧ (single.field? ⟨"T", "M"⟩).isSome) ∧
    strayTarget.inconsistencies = [] ∧ ∃ together bulk last single,
      strayTarget.deleteTable .nameMatch "R" newYear = .ok (together, bulk) ∧
      strayTarget.deleteSingly .nameMatch (fun _ => newYear) (strayTarget.outside "R" ++
        strayTarget.inside "R") "R" newYear = .ok (last, single) ∧
      bulk.field? ⟨"V", "N"⟩ = none ∧ (single.field? ⟨"V", "N"⟩).isSome :=
  ⟨⟨rfl, _, _, _, _, rfl, rfl, rfl, rfl⟩, rfl, _, _, _, _, rfl, rfl, rfl, rfl⟩

end LakeSchema.Project
