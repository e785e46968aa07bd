import LakeSchema.Proofs.Compile.Compilation

/-!
# Tables in creation order

The tables of a script are those of the project (`tables_perm`), and each is created after the other
tables that it refers to (`mem_before`).
-/

namespace LakeSchema.Project

open DependencyGraph

variable {p : Project} {tables : List Table} {order : List DependencyNode} {t u : Table}

/-- A table refers to another one, through a relationship or a field. -/
def Requires (p : Project) (t u : Table) : Prop :=
  t.id ≠ u.id ∧
    ((∃ r ∈ p.relationships, r.dependent.table = t.id ∧ r.sourceTable = u.id) ∨
      ∃ f ∈ t.fields, f.refersInto u.id)

/-- The table that a node stands for. -/
def tableOf? (p : Project) (n : DependencyNode) : Option Table :=
  if n.kind = .table then p.table? n.id else none

theorem orderedTables_eq_ok_iff : p.orderedTables = .ok tables ↔
    ∃ order, (build p).order? = .ok order ∧ order.filterMap p.tableOf? = tables := by
  have tablesOf : ∀ order : List DependencyNode,
      ((order.filter (·.kind == .table)).filterMap fun n => p.table? n.id) =
        order.filterMap p.tableOf? := by
    intro order
    rw [List.filterMap_filter]
    refine List.filterMap_congr fun n _ => ?_
    simp [tableOf?]
  rw [orderedTables]
  cases (build p).order? <;> simp [Except.map, tablesOf]

theorem tableOf?_eq_some_iff (keyed : p.Keyed) {n : DependencyNode} :
    p.tableOf? n = some t ↔ t ∈ p.tables ∧ n.entity = (.table, t.id) := by
  unfold tableOf?
  split
  · rename_i isTable
    rw [table?, find?_eq_some_iff_mem keyed.tables]
    simp [DependencyNode.entity, isTable, eq_comm]
  · rename_i other
    simp [DependencyNode.entity, other]

theorem node_of_table (member : t ∈ p.tables) :
    ∃ n ∈ (build p).nodes, n.entity = (.table, t.id) := by
  obtain ⟨n, inside, kind, id⟩ := exists_tableNode (List.mem_map_of_mem member)
  exact ⟨n, inside, Prod.ext kind id⟩

theorem tables_perm (keyed : p.Keyed) (perm : order.Perm (build p).nodes) :
    (order.filterMap p.tableOf?).Perm p.tables := by
  have distinct : (order.map (·.entity)).Nodup :=
    (perm.map (·.entity)).nodup_iff.mpr (nodesOf_entities_nodup p)
  have once : (order.filterMap p.tableOf?).Nodup := by
    refine List.pairwise_filterMap.mpr ((List.pairwise_map.mp distinct).imp ?_)
    rintro n m apart t found _ again rfl
    exact apart (((tableOf?_eq_some_iff keyed).mp found).2.trans
      ((tableOf?_eq_some_iff keyed).mp again).2.symm)
  refine (List.perm_ext_iff_of_nodup once (List.Nodup.of_map _ keyed.tables)).mpr fun t => ?_
  rw [List.mem_filterMap]
  constructor
  · rintro ⟨n, _, found⟩
    exact ((tableOf?_eq_some_iff keyed).mp found).1
  · intro member
    obtain ⟨n, inside, stands⟩ := node_of_table member
    exact ⟨n, perm.mem_iff.mpr inside, (tableOf?_eq_some_iff keyed).mpr ⟨member, stands⟩⟩

/-- A table that refers to another one has an edge to it. -/
theorem dependsOn_of_requires (requires : p.Requires t u) (member : t ∈ p.tables) {n m : DependencyNode}
    (dependent : n ∈ (build p).nodes) (stands : n.entity = (.table, t.id))
    (needed : m ∈ (build p).nodes) (other : m.entity = (.table, u.id)) :
    (build p).DependsOn n m := by
  obtain ⟨kind, id⟩ := Prod.mk.inj other
  refine dependsOn_build_iff.mpr ⟨dependent, needed, kind, ?_⟩
  obtain ⟨apart, either⟩ := requires
  rw [stands, id, mem_dependencies_table, mem_tablePairs]
  exact ⟨apart, either.imp_right fun ⟨f, present, refers⟩ => ⟨t, member, rfl, f, present, refers⟩⟩

theorem mem_before (keyed : p.Keyed) (placement : (build p).Placed order)
    (perm : order.Perm (build p).nodes) {before after : List Table}
    (split : order.filterMap p.tableOf? = before ++ t :: after) (member : u ∈ p.tables)
    (requires : p.Requires t u) : u ∈ before := by
  obtain ⟨first, rest, rfl, rfl, later⟩ := List.filterMap_eq_append_iff.mp split
  obtain ⟨skipped, n, last, rfl, none, found, rfl⟩ := List.filterMap_eq_cons_iff.mp later
  obtain ⟨here, stands⟩ := (tableOf?_eq_some_iff keyed).mp found
  obtain ⟨m, inside, other⟩ := node_of_table member
  have edge := dependsOn_of_requires requires here (perm.subset (by simp)) stands inside other
  have located := (tableOf?_eq_some_iff keyed).mpr ⟨member, other⟩
  -- The node of the other table is not among those skipped, which stand for no table.
  rcases List.mem_append.mp (placement.after (first ++ skipped) n last (by simp) m edge) with
    earlier | between
  · exact List.mem_filterMap.mpr ⟨m, earlier, located⟩
  · rw [none m between] at located
    contradiction

/-- The tables in creation order are those of the project, each behind those that it refers to. -/
theorem orderedTables_spec (compilable : p.Compilable) (ordered : p.orderedTables = .ok tables) :
    tables.Perm p.tables ∧ ∀ before t after, tables = before ++ t :: after →
      ∀ u ∈ p.tables, p.Requires t u → u ∈ before := by
  have keyed := compilable.consistent.toKeyed
  obtain ⟨order, found, rfl⟩ := orderedTables_eq_ok_iff.mp ordered
  obtain ⟨again, found', perm, placement⟩ :=
    order?_of_acyclic (build_wellFormed p) compilable.acyclic
  obtain rfl : order = again := Except.ok.inj (found.symm.trans found')
  exact ⟨tables_perm keyed perm, fun before t after split u member requires =>
    mem_before keyed placement perm split member requires⟩

end LakeSchema.Project
