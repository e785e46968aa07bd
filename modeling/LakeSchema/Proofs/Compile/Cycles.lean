import LakeSchema.Proofs.Check.Consistency
import LakeSchema.Proofs.Compile.Reach

/-!
# Tables that depend on each other

However the components of a graph are listed, those of two tables and more are reported in project
order (`sortBy_sublist`, `cyclesAmong_sublist`). Read by identifiers, these are the sets of tables of
which each reaches the others through relationships and references (`cyclesAmong_are`).
-/

namespace LakeSchema

open Relation

namespace DependencyGraph

variable {g : DependencyGraph} {p : Project} {n m k : DependencyNode}

/-! ### Order -/

theorem WellFormed.order_inj (wellFormed : g.WellFormed) (inside : n ∈ g.nodes) (other : m ∈ g.nodes)
    (same : n.order = m.order) : n = m := by
  have distinct : (g.nodes.map (·.order)).Nodup :=
    (List.pairwise_map.mpr wellFormed.ascending).imp Nat.ne_of_lt
  exact List.inj_on_of_nodup_map distinct inside other same

/-- Nodes stand as in the graph if they ascend by their places. -/
theorem WellFormed.sublist (wellFormed : g.WellFormed) {items : List DependencyNode}
    (ascending : items.Pairwise fun n m => n.order < m.order) (subset : items ⊆ g.nodes) :
    items.Sublist g.nodes := by
  have : Std.Antisymm fun n m : DependencyNode => n.order < m.order :=
    ⟨fun _ _ less more => absurd less (Nat.lt_asymm more)⟩
  have distinct : items.Nodup := ascending.imp fun less same => Nat.ne_of_lt less (congrArg _ same)
  exact List.sublist_of_subperm_of_pairwise (List.subperm_of_subset distinct subset) ascending
    wellFormed.ascending

section Listed

variable {components : List (List DependencyNode)} {c : List DependencyNode}
  (strong : g.StronglyConnected components) (wellFormed : g.WellFormed)

include strong wellFormed

theorem sortBy_sublist (listed : c ∈ components) : (sortBy (·.order) c).Sublist g.nodes := by
  have inside : sortBy (·.order) c ⊆ g.nodes := fun n member =>
    have within := (sortBy_perm _ c).mem_iff.mp member
    ((strong.linked c listed n within n).mp within).1
  refine wellFormed.sublist ?_ inside
  have distinct : (sortBy (·.order) c).Nodup := (sortBy_perm _ c).nodup_iff.mpr (strong.distinct c listed)
  refine ((sortBy_ascending _ c).and distinct).imp_of_mem fun {n m} first second ⟨less, other⟩ => ?_
  exact Nat.lt_of_le_of_ne less fun same =>
    other (wellFormed.order_inj (inside first) (inside second) same)

omit wellFormed in
theorem cyclesAmong_apart : (cyclesAmong components).Pairwise List.Disjoint := by
  rw [cyclesAmong, (sortBy_perm _ _).pairwise_iff List.disjoint_comm.mp]
  refine List.Pairwise.filter _ (List.pairwise_map.mpr ?_)
  refine (strong.apart.filter _).imp fun apart n here there => ?_
  have left := List.mem_of_mem_filter ((sortBy_perm _ _).mem_iff.mp here)
  exact apart left (List.mem_of_mem_filter ((sortBy_perm _ _).mem_iff.mp there))

/-- The first nodes of what is reported stand as in the graph. -/
theorem cyclesAmong_sublist : ((cyclesAmong components).filterMap List.head?).Sublist g.nodes := by
  have heads {n} (first : n ∈ (cyclesAmong components).filterMap List.head?) : n ∈ g.nodes := by
    obtain ⟨c, member, head⟩ := List.mem_filterMap.mp first
    obtain ⟨d, listed, -, rfl⟩ := (strong.mem_cyclesAmong wellFormed).mp member
    exact (sortBy_sublist strong wellFormed listed).subset (List.mem_of_head? head)
  refine wellFormed.sublist (List.pairwise_filterMap.mpr ?_) fun _ => heads
  refine ((sortBy_ascending firstPlace _).and (cyclesAmong_apart strong)).imp_of_mem
    fun {c d} first second ⟨less, apart⟩ n head m head' => ?_
  rw [firstPlace_of_head? head, firstPlace_of_head? head',
    Nat.add_le_add_iff_right] at less
  refine Nat.lt_of_le_of_ne less fun same => ?_
  obtain rfl := wellFormed.order_inj (heads (List.mem_filterMap.mpr ⟨c, first, head⟩))
    (heads (List.mem_filterMap.mpr ⟨d, second, head'⟩)) same
  exact apart (List.mem_of_head? head) (List.mem_of_head? head')

end Listed

/-! ### Nodes of tables -/

/-- The nodes of the tables stand in the order of the tables. -/
theorem nodesFrom_tables {order : Nat} {found : List DependencyNode}
    {entries : List (EntityKind × String)}
    (distinct : ((found.map (·.entity) ++ entries).filter (·.1 == .table)).Nodup) :
    ((nodesFrom order found entries).map (·.entity)).filter (·.1 == .table) =
      (found.map (·.entity) ++ entries).filter (·.1 == .table) := by
  induction entries generalizing order found with
  | nil => rw [nodesFrom, List.append_nil]
  | cons entry rest ih =>
    obtain ⟨kind, id⟩ := entry
    rw [nodesFrom]
    split
    · rename_i present
      have known := any_entity.mp present
      -- A table that has a node would be there twice, so the entry is a view.
      have view : (kind == .table) = false := by
        by_contra table
        rw [Bool.not_eq_false] at table
        rw [List.filter_append, List.nodup_append] at distinct
        exact distinct.2.2 _ (List.mem_filter.mpr ⟨known, table⟩) _
          (List.mem_filter.mpr ⟨List.mem_cons_self, table⟩) rfl
      rw [List.filter_append, List.filter_cons_of_neg (by simp [view]), ← List.filter_append] at distinct
      rw [ih distinct, List.filter_append, List.filter_append,
        List.filter_cons_of_neg (by simp [view])]
    · have shifted : (found ++ [DependencyNode.mk kind id order]).map (·.entity) ++ rest =
          found.map (·.entity) ++ (kind, id) :: rest := by
        simp [DependencyNode.entity]
      rw [ih (by rwa [shifted]), shifted]

theorem tableNodes_ids (distinct : (p.tables.map (·.id)).Nodup) :
    ((build p).nodes.filter (·.kind == .table)).map (·.id) = p.tables.map (·.id) := by
  have tables : (entities p).filter (·.1 == .table) = p.tables.map fun t => (.table, t.id) := by
    simp [entities, List.filter_map, Function.comp_def]
  have once : ((entities p).filter (·.1 == .table)).Nodup := by
    rw [tables]
    refine List.Nodup.of_map Prod.snd ?_
    rwa [List.map_map]
  have listed : ((nodesOf p).map (·.entity)).filter (·.1 == .table) =
      ((([] : List DependencyNode).map (·.entity)) ++ entities p).filter (·.1 == .table) :=
    nodesFrom_tables once
  rw [List.map_nil, List.nil_append, tables, List.filter_map] at listed
  have ids := congrArg (List.map Prod.snd) listed
  rwa [List.map_map, List.map_map] at ids

/-- A table has one node. -/
theorem tableNode_inj (inside : n ∈ (build p).nodes) (other : m ∈ (build p).nodes)
    (kind : n.kind = .table) (same : m.kind = .table) (id : n.id = m.id) : n = m :=
  List.inj_on_of_nodup_map (nodesOf_entities_nodup p) inside other
    (Prod.ext (kind.trans same.symm) id)

end DependencyGraph

namespace Project
open DependencyGraph

variable {p : Project} {n m : DependencyNode} {a b : String}

/-- A table depends on another one that it refers to, through a relationship or a field. -/
def Needs (p : Project) (a b : String) : Prop :=
  a ≠ b ∧ a ∈ p.tables.map (·.id) ∧ b ∈ p.tables.map (·.id) ∧
    ((∃ r ∈ p.relationships, r.dependent.table = a ∧ r.source.table = b) ∨
      ∃ t ∈ p.tables, t.id = a ∧ ∃ f ∈ t.fields, ∃ r, f.reference = some r ∧ r.table = b)

theorem dependsOn_iff_needs (inside : n ∈ (build p).nodes) (other : m ∈ (build p).nodes)
    (kind : n.kind = .table) (same : m.kind = .table) :
    (build p).DependsOn n m ↔ p.Needs n.id m.id := by
  rw [dependsOn_build_iff, DependencyNode.entity, kind, mem_dependencies_table, mem_tablePairs, Needs]
  simp only [inside, other, same, tableNode_listed inside kind, tableNode_listed other same, true_and,
    Field.refersInto, Option.any_eq_true, beq_iff_eq]
  rfl

theorem reflTransGen_needs (inside : n ∈ (build p).nodes) (kind : n.kind = .table)
    (path : ReflTransGen (build p).DependsOn n m) :
    m ∈ (build p).nodes ∧ m.kind = .table ∧ ReflTransGen p.Needs n.id m.id := by
  induction path with
  | refl => exact ⟨inside, kind, .refl⟩
  | tail _ edge ih =>
    obtain ⟨before, table, path⟩ := ih
    have after := (build_wellFormed p).needed edge
    have ends := (build_wellFormed p).table edge
    exact ⟨after, ends, path.tail ((dependsOn_iff_needs before after table ends).mp edge)⟩

theorem exists_reflTransGen (inside : n ∈ (build p).nodes) (kind : n.kind = .table)
    (path : ReflTransGen p.Needs n.id b) :
    ∃ m ∈ (build p).nodes, m.kind = .table ∧ m.id = b ∧ ReflTransGen (build p).DependsOn n m := by
  induction path with
  | refl => exact ⟨n, inside, kind, rfl, .refl⟩
  | tail _ edge ih =>
    obtain ⟨k, before, table, rfl, path⟩ := ih
    obtain ⟨m, after, ends, rfl⟩ := exists_tableNode edge.2.2.1
    exact ⟨m, after, ends, rfl, path.tail ((dependsOn_iff_needs before after table ends).mpr edge)⟩

/-- The paths between tables are those between their nodes. -/
theorem reflTransGen_iff_needs (inside : n ∈ (build p).nodes) (other : m ∈ (build p).nodes)
    (kind : n.kind = .table) (same : m.kind = .table) :
    ReflTransGen (build p).DependsOn n m ↔ ReflTransGen p.Needs n.id m.id := by
  constructor
  · exact fun path => (reflTransGen_needs inside kind path).2.2
  · intro path
    obtain ⟨k, after, ends, id, path⟩ := exists_reflTransGen inside kind path
    rwa [← tableNode_inj after other ends same id]

theorem transGen_iff_needs (inside : n ∈ (build p).nodes) (kind : n.kind = .table) :
    TransGen (build p).DependsOn n n ↔ TransGen p.Needs n.id n.id := by
  rw [TransGen.head'_iff, TransGen.head'_iff]
  constructor
  · rintro ⟨m, edge, back⟩
    have after := (build_wellFormed p).needed edge
    have ends := (build_wellFormed p).table edge
    exact ⟨m.id, (dependsOn_iff_needs inside after kind ends).mp edge,
      (reflTransGen_iff_needs after inside ends kind).mp back⟩
  · rintro ⟨_, edge, back⟩
    obtain ⟨m, after, ends, rfl⟩ := exists_tableNode edge.2.2.1
    exact ⟨m, (dependsOn_iff_needs inside after kind ends).mpr edge,
      (reflTransGen_iff_needs after inside ends kind).mpr back⟩

/-! ### Cycles of tables -/

/-- The lists hold the tables on cycles. Tables share a list exactly if each reaches the other, tables
stand in the order of the project, and the lists go by their first tables. -/
structure CyclesAre (p : Project) (cycles : List (List String)) : Prop where
  covered : ∀ a, (∃ c ∈ cycles, a ∈ c) ↔ TransGen p.Needs a a
  disjoint : cycles.Pairwise List.Disjoint
  shared : ∀ c ∈ cycles, ∀ a ∈ c, ∀ b,
    b ∈ c ↔ ReflTransGen p.Needs a b ∧ ReflTransGen p.Needs b a
  several : ∀ c ∈ cycles, 2 ≤ c.length
  ordered : ∀ c ∈ cycles, c.Sublist (p.tables.map (·.id))
  byFirst : (cycles.filterMap List.head?).Sublist (p.tables.map (·.id))

section Listed

variable {components : List (List DependencyNode)} {c : List DependencyNode}
  (strong : (build p).StronglyConnected components)

include strong

theorem table_of_mem_component (listed : c ∈ components) (several : 1 < c.length) (inside : n ∈ c) :
    n ∈ (build p).nodes ∧ n.kind = .table := by
  have kind : n ∈ c.filter (·.kind == .table) := by
    rwa [strong.filter_table listed (build_wellFormed p) several]
  exact ⟨((strong.linked c listed n inside n).mp inside).1,
    beq_iff_eq.mp (List.mem_filter.mp kind).2⟩

theorem mem_componentIds_iff (listed : c ∈ components) (several : 1 < c.length) (inside : n ∈ c) :
    b ∈ c.map (·.id) ↔ ReflTransGen p.Needs n.id b ∧ ReflTransGen p.Needs b n.id := by
  obtain ⟨present, kind⟩ := table_of_mem_component strong listed several inside
  rw [List.mem_map]
  constructor
  · rintro ⟨m, within, rfl⟩
    obtain ⟨there, ends⟩ := table_of_mem_component strong listed several within
    obtain ⟨-, out, back⟩ := (strong.linked c listed n inside m).mp within
    exact ⟨(reflTransGen_iff_needs present there kind ends).mp out,
      (reflTransGen_iff_needs there present ends kind).mp back⟩
  · rintro ⟨out, back⟩
    obtain ⟨m, there, ends, rfl, path⟩ := exists_reflTransGen present kind out
    exact ⟨m, (strong.linked c listed n inside m).mpr ⟨there, path,
      (reflTransGen_iff_needs there present ends kind).mpr back⟩, rfl⟩

/-- Whatever the order is in which the components are listed, what is reported are the cycles. -/
theorem cyclesAmong_are (distinct : (p.tables.map (·.id)).Nodup) :
    p.CyclesAre ((cyclesAmong components).map fun c => c.map (·.id)) := by
  have wellFormed := build_wellFormed p
  have reported {c : List DependencyNode} :
      c ∈ cyclesAmong components ↔ ∃ d ∈ components, 1 < d.length ∧ sortBy (·.order) d = c :=
    strong.mem_cyclesAmong wellFormed
  have tables {c : List DependencyNode} (member : c ∈ cyclesAmong components) :
      ∀ n ∈ c, n ∈ (build p).nodes ∧ n.kind = .table := by
    obtain ⟨d, listed, several, rfl⟩ := reported.mp member
    exact fun n inside =>
      table_of_mem_component strong listed several ((sortBy_perm _ d).mem_iff.mp inside)
  have stands {items : List DependencyNode} (sub : items.Sublist (build p).nodes)
      (isTable : ∀ n ∈ items, n.kind = .table) :
      (items.map (·.id)).Sublist (p.tables.map (·.id)) := by
    rw [← tableNodes_ids distinct,
      ← List.filter_eq_self.mpr fun n member => beq_iff_eq.mpr (isTable n member)]
    exact (sub.filter _).map _
  refine ⟨fun a => ⟨?_, fun cycle => ?_⟩, ?_, ?_, ?_, ?_, ?_⟩
  case refine_1 =>
    rintro ⟨_, mapped, member⟩
    obtain ⟨c, among, rfl⟩ := List.mem_map.mp mapped
    obtain ⟨n, inside, rfl⟩ := List.mem_map.mp member
    obtain ⟨present, kind⟩ := tables among n inside
    obtain ⟨d, listed, several, rfl⟩ := reported.mp among
    rw [← transGen_iff_needs present kind]
    exact (strong.several_iff listed wellFormed ((sortBy_perm _ d).mem_iff.mp inside)).mp several
  case refine_2 =>
    obtain ⟨_, edge, _⟩ := TransGen.head'_iff.mp cycle
    obtain ⟨n, present, kind, rfl⟩ := exists_tableNode edge.2.1
    obtain ⟨c, listed, inside⟩ := strong.covered n present
    have several := (strong.several_iff listed wellFormed inside).mpr
      ((transGen_iff_needs present kind).mpr cycle)
    exact ⟨_, List.mem_map_of_mem (reported.mpr ⟨c, listed, several, rfl⟩),
      List.mem_map_of_mem ((sortBy_perm _ c).mem_iff.mpr inside)⟩
  case refine_3 =>
    rw [List.pairwise_map]
    refine (cyclesAmong_apart strong).imp_of_mem fun {c d} first second apart => ?_
    intro a left right
    obtain ⟨n, inside, rfl⟩ := List.mem_map.mp left
    obtain ⟨m, within, id⟩ := List.mem_map.mp right
    obtain ⟨present, kind⟩ := tables first n inside
    obtain ⟨there, ends⟩ := tables second m within
    exact apart inside (tableNode_inj there present ends kind id ▸ within)
  case refine_4 =>
    intro _ mapped a member b
    obtain ⟨c, among, rfl⟩ := List.mem_map.mp mapped
    obtain ⟨n, inside, rfl⟩ := List.mem_map.mp member
    obtain ⟨d, listed, several, rfl⟩ := reported.mp among
    rw [((sortBy_perm _ d).map _).mem_iff]
    exact mem_componentIds_iff strong listed several ((sortBy_perm _ d).mem_iff.mp inside)
  case refine_5 =>
    intro _ mapped
    obtain ⟨c, member, rfl⟩ := List.mem_map.mp mapped
    obtain ⟨d, _, several, rfl⟩ := reported.mp member
    rwa [List.length_map, (sortBy_perm _ d).length_eq]
  case refine_6 =>
    intro _ mapped
    obtain ⟨c, member, rfl⟩ := List.mem_map.mp mapped
    refine stands ?_ fun n inside => (tables member n inside).2
    obtain ⟨d, listed, _, rfl⟩ := reported.mp member
    exact sortBy_sublist strong wellFormed listed
  case refine_7 =>
    have heads : ((cyclesAmong components).map fun c => c.map (·.id)).filterMap List.head? =
        ((cyclesAmong components).filterMap List.head?).map (·.id) := by
      rw [List.filterMap_map, List.map_filterMap]
      exact List.filterMap_congr fun c _ => List.head?_map
    rw [heads]
    refine stands (cyclesAmong_sublist strong wellFormed) fun n first => ?_
    obtain ⟨c, member, head⟩ := List.mem_filterMap.mp first
    exact (tables member n (List.mem_of_head? head)).2

end Listed

/-- The cycles of a graph are the sets of tables that depend on each other. -/
theorem build_cycles (p : Project) (distinct : (p.tables.map (·.id)).Nodup) :
    p.CyclesAre (build p).cycles :=
  cyclesAmong_are (components_stronglyConnected (build_wellFormed p)) distinct

/-- Two rings of tables; one leads to the other, and a further table leads to a ring. -/
def twoRings : Project :=
  { Project.empty "P" "shop" "main" "sales" newYear with
    tables :=
      [ { Table.plain "T" "sales" newYear with
          fields := [(Field.plain "N" "return" .int).referring ⟨"U", "O"⟩] },
        { Table.plain "R" "regions" newYear with
          fields := [(Field.plain "K" "flagship" .int).referring ⟨"S", "L"⟩] },
        { Table.plain "U" "returns" newYear with fields := [Field.plain "O" "sale" .int] },
        { Table.plain "S" "stores" newYear with
          fields := [(Field.plain "L" "region" .int).referring ⟨"R", "K"⟩,
            (Field.plain "M" "last_sale" .int).referring ⟨"T", "N"⟩] },
        { Table.plain "V" "notes" newYear with
          fields := [(Field.plain "Q" "region" .int).referring ⟨"R", "K"⟩] } ]
    relationships := [.between "TU" ⟨"T", "N"⟩ ⟨"U", "O"⟩ newYear] }

theorem twoRings_cycles :
    (twoRings.tables.map (·.id)).Nodup ∧ (build twoRings).cycles = [["T", "U"], ["R", "S"]] ∧
      twoRings.CyclesAre [["T", "U"], ["R", "S"]] := by
  have distinct : (twoRings.tables.map (·.id)).Nodup := by decide
  have found : (build twoRings).cycles = [["T", "U"], ["R", "S"]] := by decide +kernel
  exact ⟨distinct, found, found ▸ build_cycles twoRings distinct⟩

end Project
end LakeSchema
