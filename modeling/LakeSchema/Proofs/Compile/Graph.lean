import LakeSchema.Compile.Graph
import LakeSchema.Proofs.Schema.Lookup

/-!
# The graph of a project

Every table and view has one node, and an edge leads from a dependent to a table exactly if the
project has that dependency and both exist (`dependsOn_build_iff`). So the graph of a project is
well formed: its nodes ascend by their place in the project, and its edges stay among its nodes, end
in tables and never end where they start.
-/

namespace LakeSchema

/-- What a node stands for. -/
def DependencyNode.entity (n : DependencyNode) : EntityKind × String :=
  (n.kind, n.id)

namespace DependencyGraph

variable {g : DependencyGraph} {p : Project} {n m : DependencyNode} {kind : EntityKind} {id : String}
  {entries : List (EntityKind × String)} {found nodes : List DependencyNode}

/-- The node has an edge to a table. -/
def DependsOn (g : DependencyGraph) (n m : DependencyNode) : Prop :=
  (n, m) ∈ g.edges

theorem mem_needs : m ∈ g.needs n ↔ g.DependsOn n m := by
  simp [needs, DependsOn]

theorem mem_dependents : n ∈ g.dependents m ↔ g.DependsOn n m := by
  simp [dependents, DependsOn]

/-- Nodes ascend by their places, tables first. Edges stay among the nodes, end in tables, never end
where they start, and none is there twice. -/
structure WellFormed (g : DependencyGraph) : Prop where
  distinct : g.nodes.Nodup
  ascending : g.nodes.Pairwise fun n m => n.order < m.order
  tablesFirst : g.nodes.Pairwise fun n m => m.kind = .table → n.kind = .table
  once : g.edges.Nodup
  dependent : ∀ {n m}, g.DependsOn n m → n ∈ g.nodes
  needed : ∀ {n m}, g.DependsOn n m → m ∈ g.nodes
  table : ∀ {n m}, g.DependsOn n m → m.kind = .table
  irrefl : ∀ {n}, ¬ g.DependsOn n n

theorem needs_nodup (wellFormed : g.WellFormed) (n : DependencyNode) : (g.needs n).Nodup := by
  refine List.Nodup.map_on ?_ ((List.nodup_reverse.mpr wellFormed.once).filter _)
  intro a left b right same
  have first : a.1 = n := by simpa using (List.mem_filter.mp left).2
  have second : b.1 = n := by simpa using (List.mem_filter.mp right).2
  exact Prod.ext (first.trans second.symm) same

theorem dependents_nodup (wellFormed : g.WellFormed) (n : DependencyNode) :
    (g.dependents n).Nodup := by
  refine List.Nodup.map_on ?_ ((List.nodup_reverse.mpr wellFormed.once).filter _)
  intro a left b right same
  have first : a.2 = n := by simpa using (List.mem_filter.mp left).2
  have second : b.2 = n := by simpa using (List.mem_filter.mp right).2
  exact Prod.ext same (first.trans second.symm)

/-! ### Nodes -/

theorem any_entity :
    (found.any fun n => n.kind == kind && n.id == id) = true ↔ (kind, id) ∈ found.map (·.entity) := by
  simp [DependencyNode.entity]

/-- Each entity gets one node, unless it has one already. -/
theorem nodesFrom_entities (order : Nat) (distinct : (found.map (·.entity)).Nodup) :
    ((nodesFrom order found entries).map (·.entity)).Nodup ∧
      ∀ e, e ∈ (nodesFrom order found entries).map (·.entity) ↔
        e ∈ found.map (·.entity) ∨ e ∈ entries := by
  induction entries generalizing order found with
  | nil => simp [nodesFrom, distinct]
  | cons entry rest ih =>
    obtain ⟨kind, id⟩ := entry
    rw [nodesFrom]
    split
    · rename_i present
      obtain ⟨once, same⟩ := ih (order + 1) distinct
      refine ⟨once, fun e => ?_⟩
      rw [same, List.mem_cons]
      refine ⟨Or.imp_right .inr, ?_⟩
      rintro (old | rfl | later)
      · exact .inl old
      · exact .inl (any_entity.mp present)
      · exact .inr later
    · rename_i absent
      have fresh : ((found ++ [DependencyNode.mk kind id order]).map (·.entity)).Nodup := by
        rw [List.map_append, List.nodup_append]
        refine ⟨distinct, List.nodup_singleton _, fun e old f new same => ?_⟩
        obtain rfl := List.mem_singleton.mp new
        subst same
        exact absent (any_entity.mpr old)
      obtain ⟨once, same⟩ := ih (order + 1) fresh
      refine ⟨once, fun e => ?_⟩
      rw [same, List.map_append, List.mem_append, List.mem_cons, or_assoc]
      simp [DependencyNode.entity]

/-- The place of a node is that of its entity. -/
theorem mem_nodesFrom {order : Nat} (member : n ∈ nodesFrom order found entries) :
    n ∈ found ∨ ∃ place, n.order = order + place ∧ entries[place]? = some n.entity := by
  induction entries generalizing order found with
  | nil => exact .inl member
  | cons entry rest ih =>
    obtain ⟨kind, id⟩ := entry
    rw [nodesFrom] at member
    split at member
    · rcases ih member with old | ⟨place, located, listed⟩
      · exact .inl old
      · exact .inr ⟨place + 1, by omega, by simpa using listed⟩
    · rcases ih member with known | ⟨place, located, listed⟩
      · rcases List.mem_append.mp known with old | new
        · exact .inl old
        · obtain rfl := List.mem_singleton.mp new
          exact .inr ⟨0, rfl, rfl⟩
      · exact .inr ⟨place + 1, by omega, by simpa using listed⟩

theorem nodesFrom_ascending {order : Nat} (bounded : ∀ n ∈ found, n.order < order)
    (ascending : found.Pairwise fun n m => n.order < m.order) :
    (nodesFrom order found entries).Pairwise fun n m => n.order < m.order := by
  induction entries generalizing order found with
  | nil => exact ascending
  | cons entry rest ih =>
    obtain ⟨kind, id⟩ := entry
    rw [nodesFrom]
    split
    · exact ih (fun n old => Nat.lt_succ_of_lt (bounded n old)) ascending
    · refine ih (fun n known => ?_) ?_
      · rcases List.mem_append.mp known with old | new
        · exact Nat.lt_succ_of_lt (bounded n old)
        · obtain rfl := List.mem_singleton.mp new
          exact Nat.lt_succ_self order
      · refine List.pairwise_append.mpr ⟨ascending, List.pairwise_singleton _ _, ?_⟩
        intro n old m new
        obtain rfl := List.mem_singleton.mp new
        exact bounded n old

theorem entity_of_mem_nodesOf (member : n ∈ nodesOf p) : (entities p)[n.order]? = some n.entity := by
  rcases mem_nodesFrom member with none | ⟨place, located, listed⟩
  · contradiction
  · rwa [located, Nat.zero_add]

theorem nodesOf_ascending (p : Project) : (nodesOf p).Pairwise fun n m => n.order < m.order :=
  nodesFrom_ascending (by simp) .nil

/-- The places of the tables come first. -/
theorem kind_eq_table_iff (member : n ∈ nodesOf p) : n.kind = .table ↔ n.order < p.tables.length := by
  have located := entity_of_mem_nodesOf member
  rw [entities, List.append_assoc] at located
  constructor
  · intro isTable
    by_contra later
    rw [List.getElem?_append_right (by simpa using later)] at located
    rcases List.mem_append.mp (List.mem_of_getElem? located) with metric | plain
    · obtain ⟨v, _, same⟩ := List.mem_map.mp metric
      exact EntityKind.noConfusion ((congrArg Prod.fst same).trans isTable)
    · obtain ⟨v, _, same⟩ := List.mem_map.mp plain
      exact EntityKind.noConfusion ((congrArg Prod.fst same).trans isTable)
  · intro early
    rw [List.getElem?_append_left (by simpa using early)] at located
    obtain ⟨t, _, same⟩ := List.mem_map.mp (List.mem_of_getElem? located)
    exact (congrArg Prod.fst same).symm

theorem nodesOf_tablesFirst (p : Project) :
    (nodesOf p).Pairwise fun n m => m.kind = .table → n.kind = .table := by
  refine (nodesOf_ascending p).imp_of_mem fun {n m} inside other before isTable => ?_
  rw [kind_eq_table_iff other] at isTable
  exact (kind_eq_table_iff inside).mpr (Nat.lt_trans before isTable)

theorem nodesOf_entities_nodup (p : Project) : ((nodesOf p).map (·.entity)).Nodup := by
  have start : (([] : List DependencyNode).map (·.entity)).Nodup := List.nodup_nil
  exact (nodesFrom_entities 0 start).1

theorem mem_nodesOf_entities {e : EntityKind × String} :
    e ∈ (nodesOf p).map (·.entity) ↔ e ∈ entities p := by
  have start : (([] : List DependencyNode).map (·.entity)).Nodup := List.nodup_nil
  have listed : e ∈ (nodesOf p).map (·.entity) ↔
      e ∈ ([] : List DependencyNode).map (·.entity) ∨ e ∈ entities p :=
    (nodesFrom_entities 0 start).2 e
  rwa [List.map_nil, or_iff_right List.not_mem_nil] at listed

theorem exists_tableNode {a : String} (present : a ∈ p.tables.map (·.id)) :
    ∃ n ∈ (build p).nodes, n.kind = .table ∧ n.id = a := by
  obtain ⟨t, member, rfl⟩ := List.mem_map.mp present
  have listed : (EntityKind.table, t.id) ∈ entities p :=
    List.mem_append_left _ (List.mem_append_left _ (List.mem_map_of_mem member))
  obtain ⟨n, inside, same⟩ := List.mem_map.mp (mem_nodesOf_entities.mpr listed)
  obtain ⟨kind, id⟩ := Prod.mk.inj same
  exact ⟨n, inside, kind, id⟩

theorem tableNode_listed (inside : n ∈ (build p).nodes) (kind : n.kind = .table) :
    n.id ∈ p.tables.map (·.id) := by
  have known := mem_nodesOf_entities.mp (List.mem_map_of_mem (f := (·.entity)) inside)
  rw [DependencyNode.entity, kind] at known
  simpa [entities] using known

theorem node?_eq_some_iff (distinct : (nodes.map (·.entity)).Nodup) :
    node? nodes kind id = some n ↔ n ∈ nodes ∧ n.kind = kind ∧ n.id = id := by
  have located : node? nodes kind id = nodes.find? fun n => n.entity == (kind, id) := rfl
  rw [located, find?_eq_some_iff_mem distinct, DependencyNode.entity, Prod.mk.injEq]

/-! ### Edges -/

theorem nodup_eraseDups {α : Type} [BEq α] [LawfulBEq α] : (items : List α) → items.eraseDups.Nodup
  | [] => List.nodup_nil
  | x :: rest => by
    rw [List.eraseDups_cons, List.nodup_cons]
    exact ⟨fun again => by simp [List.mem_eraseDups] at again, nodup_eraseDups _⟩
termination_by items => items.length
decreasing_by exact Nat.lt_succ_of_le (List.length_filter_le _ rest)

theorem edge?_eq_some_iff {dependency : (EntityKind × String) × String}
    (distinct : (nodes.map (·.entity)).Nodup) :
    edge? nodes dependency = some (n, m) ↔
      n ∈ nodes ∧ m ∈ nodes ∧ m.kind = .table ∧ dependency = (n.entity, m.id) := by
  obtain ⟨⟨kind, id⟩, table⟩ := dependency
  simp only [edge?, Option.bind_eq_bind, Option.bind_eq_some_iff, node?_eq_some_iff distinct,
    Option.some_inj, Prod.mk.injEq]
  constructor
  · rintro ⟨_, ⟨dependent, rfl, rfl⟩, _, ⟨needed, isTable, rfl⟩, rfl, rfl⟩
    exact ⟨dependent, needed, isTable, rfl, rfl⟩
  · rintro ⟨dependent, needed, isTable, same, rfl⟩
    obtain ⟨rfl, rfl⟩ := Prod.mk.inj same
    exact ⟨n, ⟨dependent, rfl, rfl⟩, m, ⟨needed, isTable, rfl⟩, rfl, rfl⟩

theorem dependsOn_build_iff :
    (build p).DependsOn n m ↔ n ∈ (build p).nodes ∧ m ∈ (build p).nodes ∧ m.kind = .table ∧
      (n.entity, m.id) ∈ dependencies p := by
  simp only [DependsOn, build, List.mem_eraseDups, List.mem_filterMap,
    edge?_eq_some_iff (nodesOf_entities_nodup p)]
  constructor
  · rintro ⟨_, known, dependent, needed, isTable, rfl⟩
    exact ⟨dependent, needed, isTable, known⟩
  · rintro ⟨dependent, needed, isTable, known⟩
    exact ⟨_, known, dependent, needed, isTable, rfl⟩

theorem mem_tablePairs {a b : String} :
    (a, b) ∈ tablePairs p ↔ a ≠ b ∧
      ((∃ r ∈ p.relationships, r.dependent.table = a ∧ r.sourceTable = b) ∨
        ∃ t ∈ p.tables, t.id = a ∧ ∃ f ∈ t.fields, f.refersInto b) := by
  have referring : ∀ (t : Table) (f : Field),
      f.reference.map (fun r => (t.id, r.table)) = some (a, b) ↔ t.id = a ∧ f.refersInto b := by
    intro t f
    rw [Field.refersInto]
    cases f.reference <;> simp
  simp only [tablePairs, List.mem_filter, List.mem_append, List.mem_map, List.mem_flatMap,
    List.mem_filterMap, referring, Prod.mk.injEq, bne_iff_ne]
  rw [and_comm]
  simp only [and_left_comm, exists_and_left]

/-- Tables depend on the other tables that they refer to, through relationships or fields. -/
theorem mem_dependencies_table {a b : String} :
    ((.table, a), b) ∈ dependencies p ↔ (a, b) ∈ tablePairs p := by
  simp [dependencies]

theorem build_wellFormed (p : Project) : (build p).WellFormed where
  distinct := (nodesOf_entities_nodup p).of_map _
  ascending := nodesOf_ascending p
  tablesFirst := nodesOf_tablesFirst p
  once := nodup_eraseDups _
  dependent depends := (dependsOn_build_iff.mp depends).1
  needed depends := (dependsOn_build_iff.mp depends).2.1
  table depends := (dependsOn_build_iff.mp depends).2.2.1
  irrefl {n} depends := by
    obtain ⟨_, _, kind, known⟩ := dependsOn_build_iff.mp depends
    rw [DependencyNode.entity, kind, mem_dependencies_table, mem_tablePairs] at known
    exact known.1 rfl

end DependencyGraph
end LakeSchema
