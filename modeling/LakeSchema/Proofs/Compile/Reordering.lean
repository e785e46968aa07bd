import LakeSchema.Proofs.Compile.Agreement
import LakeSchema.Proofs.Compile.CreationOrder
import LakeSchema.Proofs.Compile.Statements

/-!
# The order of collections

What a project compiles to does not depend on the order in which its tables, relationships and views
are listed. A reordered project passes the same checks (`Reordered.compilable`), as its graph has
the same edges between entities. Where the checks are passed, names and identifiers are distinct; if
no two relationships have the same ends either, every look-up has one answer (`Reordered.agrees`),
and each entity the same statements. Only the order of statements follows that of tables and views;
that of relationships leaves no trace.
-/

namespace LakeSchema.Project

open DependencyGraph Relation

variable {p q : Project} {options : CompileOptions}

/-- The projects list the same tables, relationships and views, if in another order, and are
otherwise the same. -/
structure Reordered (p q : Project) : Prop where
  tables : p.tables.Perm q.tables
  relationships : p.relationships.Perm q.relationships
  metricViews : p.metricViews.Perm q.metricViews
  traditionalViews : p.traditionalViews.Perm q.traditionalViews
  rest : q = { p with
    tables := q.tables
    relationships := q.relationships
    metricViews := q.metricViews
    traditionalViews := q.traditionalViews }

namespace Reordered

theorem symm (reordered : p.Reordered q) : q.Reordered p where
  tables := reordered.tables.symm
  relationships := reordered.relationships.symm
  metricViews := reordered.metricViews.symm
  traditionalViews := reordered.traditionalViews.symm
  rest := by rw [reordered.rest]

/-! ### The graph -/

theorem entities_perm (reordered : p.Reordered q) : (entities p).Perm (entities q) :=
  ((reordered.tables.map _).append (reordered.metricViews.map _)).append
    (reordered.traditionalViews.map _)

theorem dependencies_perm (reordered : p.Reordered q) :
    (dependencies p).Perm (dependencies q) := by
  have pairs : (tablePairs p).Perm (tablePairs q) :=
    ((reordered.relationships.map _).append (reordered.tables.flatMap_right _)).filter _
  exact ((pairs.map _).append (reordered.metricViews.flatMap_right _)).append
    (reordered.traditionalViews.flatMap_right _)

variable {n m k : DependencyNode}

/-- A node may have another place in the reordered project, but it is there. -/
theorem exists_node (reordered : p.Reordered q) (inside : n ∈ (build p).nodes) :
    ∃ m ∈ (build q).nodes, m.entity = n.entity := by
  have listed := mem_nodesOf_entities.mp (List.mem_map_of_mem inside)
  exact List.mem_map.mp (mem_nodesOf_entities.mpr (reordered.entities_perm.mem_iff.mp listed))

theorem exists_edge (reordered : p.Reordered q) (edge : (build p).DependsOn n m)
    (inside : k ∈ (build q).nodes) (same : k.entity = n.entity) :
    ∃ l, l.entity = m.entity ∧ (build q).DependsOn k l := by
  obtain ⟨_, needed, isTable, known⟩ := dependsOn_build_iff.mp edge
  obtain ⟨l, there, equal⟩ := reordered.exists_node needed
  obtain ⟨kind, id⟩ := Prod.mk.inj equal
  refine ⟨l, equal, dependsOn_build_iff.mpr ⟨inside, there, kind.trans isTable, ?_⟩⟩
  rw [same, id]
  exact reordered.dependencies_perm.mem_iff.mp known

theorem exists_path (reordered : p.Reordered q) (path : TransGen (build p).DependsOn n m)
    (inside : k ∈ (build q).nodes) (same : k.entity = n.entity) :
    ∃ l, l.entity = m.entity ∧ TransGen (build q).DependsOn k l := by
  induction path with
  | single edge =>
    obtain ⟨l, equal, there⟩ := reordered.exists_edge edge inside same
    exact ⟨l, equal, .single there⟩
  | tail _ edge ih =>
    obtain ⟨l, equal, there⟩ := ih
    obtain ⟨_, _, last⟩ := TransGen.tail'_iff.mp there
    have reached := (build_wellFormed q).needed last
    obtain ⟨next, equal', beyond⟩ := reordered.exists_edge edge reached equal
    exact ⟨next, equal', there.tail beyond⟩

theorem acyclic (reordered : p.Reordered q) (acyclic : (build p).Acyclic) :
    (build q).Acyclic := by
  intro n cycle
  obtain ⟨m, first, _⟩ := TransGen.head'_iff.mp cycle
  obtain ⟨k, inside, same⟩ := reordered.symm.exists_node ((build_wellFormed q).dependent first)
  obtain ⟨l, equal, path⟩ := reordered.symm.exists_path cycle inside same
  obtain ⟨_, _, last⟩ := TransGen.tail'_iff.mp path
  have there := (build_wellFormed p).needed last
  -- A path back to the same entity ends in the same node, as no entity has two.
  obtain rfl := List.inj_on_of_nodup_map (nodesOf_entities_nodup p) there inside
    (equal.trans same.symm)
  exact acyclic _ path

/-! ### The checks -/

theorem has (reordered : p.Reordered q) {l : Location} (present : p.Has l) : q.Has l := by
  obtain ⟨t, member, found⟩ := present
  exact ⟨t, reordered.tables.mem_iff.mp member, found⟩

theorem consistent (reordered : p.Reordered q) (consistent : p.Consistent) : q.Consistent where
  tables := (reordered.tables.map _).nodup_iff.mp consistent.tables
  fields t member := consistent.fields t (reordered.tables.mem_iff.mpr member)
  references t member f present r refers := by
    obtain ⟨flagged, there⟩ :=
      consistent.references t (reordered.tables.mem_iff.mpr member) f present r refers
    exact ⟨flagged, reordered.has there⟩
  relationships := (reordered.relationships.map _).nodup_iff.mp consistent.relationships
  endpoints r member := by
    obtain ⟨source, fallback, dependent⟩ :=
      consistent.endpoints r (reordered.relationships.mem_iff.mpr member)
    exact ⟨reordered.has source, reordered.has fallback, reordered.has dependent⟩
  links m member := by
    rw [reordered.rest] at member
    obtain ⟨⟨t, inside, named⟩, v, shown, called⟩ := consistent.links m member
    exact ⟨⟨t, reordered.tables.mem_iff.mp inside, named⟩, v,
      reordered.metricViews.mem_iff.mp shown, called⟩

theorem readers_perm (reordered : p.Reordered q) : p.readers.Perm q.readers :=
  (reordered.metricViews.map _).append (reordered.traditionalViews.map _)

theorem createdNames_perm (reordered : p.Reordered q) : p.createdNames.Perm q.createdNames :=
  ((reordered.tables.map _).append (reordered.metricViews.map _)).append
    (reordered.traditionalViews.map _)

theorem viewSourceProblems (reordered : p.Reordered q) (none : p.viewSourceProblems = []) :
    q.viewSourceProblems = [] := by
  rw [viewSourceProblems_eq_nil_iff] at none ⊢
  obtain ⟨distinct, sources⟩ := none
  refine ⟨(reordered.readers_perm.map _).nodup_iff.mp distinct, fun r member table read => ?_⟩
  have present := sources r (reordered.readers_perm.mem_iff.mpr member) table read
  obtain ⟨t, there, named⟩ := find?_isSome_iff_mem.mp present
  exact find?_isSome_iff_mem.mpr ⟨t, reordered.tables.mem_iff.mp there, named⟩

theorem nameCollisions (reordered : p.Reordered q) (none : p.nameCollisions = []) :
    q.nameCollisions = [] := by
  rw [nameCollisions_eq_nil_iff] at none ⊢
  exact (reordered.createdNames_perm.map _).nodup_iff.mp none

theorem compilable (reordered : p.Reordered q) (compilable : p.Compilable) : q.Compilable where
  consistent := reordered.consistent compilable.consistent
  readers := reordered.viewSourceProblems compilable.readers
  tables t member := compilable.tables t (reordered.tables.mem_iff.mpr member)
  names := reordered.nameCollisions compilable.names
  metricViews v member := compilable.metricViews v (reordered.metricViews.mem_iff.mpr member)
  traditionalViews v member :=
    compilable.traditionalViews v (reordered.traditionalViews.mem_iff.mpr member)
  acyclic := reordered.acyclic compilable.acyclic

/-! ### Look-ups -/

theorem agrees (reordered : p.Reordered q) (compilable : p.Compilable)
    (apart : (p.relationships.map fun r => (r.dependent, r.source)).Nodup) : p.Agrees q where
  catalog := (congrArg Project.catalogName reordered.rest).symm
  schema := (congrArg Project.schemaName reordered.rest).symm
  table := by
    funext id
    exact find?_perm reordered.tables compilable.consistent.tables id
  named := by
    funext name
    exact find?_perm reordered.tables (tableNames_distinct compilable.names) (Text.asciiLowered name)
  relationship := by
    funext dependent source
    exact find?_perm reordered.relationships apart (dependent, source)

/-! ### Scripts -/

theorem compiles (reordered : p.Reordered q)
    (compiled : ∃ statements, p.compile options = .ok statements) :
    ∃ statements, q.compile options = .ok statements := by
  obtain ⟨statements, compiled⟩ := compiled
  have compilable := problems_eq_nil_iff.mp (compile_eq_ok_iff.mp compiled).1
  exact (reordered.compilable compilable).compiles options

/-- The order of relationships decides in which order edges are found, but not where tables stand. -/
theorem orderedTables_eq_ok_iff (reordered : p.Reordered q) (agrees : p.Agrees q)
    (only : q = { p with relationships := q.relationships }) {tables : List Table} :
    p.orderedTables = .ok tables ↔ q.orderedTables = .ok tables := by
  have nodes : (build p).nodes = (build q).nodes := by
    rw [only]
    rfl
  have edges : ∀ n m, (build p).DependsOn n m ↔ (build q).DependsOn n m := by
    intro n m
    rw [dependsOn_build_iff, dependsOn_build_iff, nodes, reordered.dependencies_perm.mem_iff]
  have stands : p.tableOf? = q.tableOf? := by
    funext n
    rw [tableOf?, tableOf?, agrees.table]
  simp only [Project.orderedTables_eq_ok_iff, stands,
    order?_congr (build_wellFormed p) (build_wellFormed q) nodes edges]

end Reordered

/-- What is made of each item on its own follows the order of the items. -/
theorem forall₂_perm {α β : Type} {R : α → β → Prop} {items others : List α} {made made' : List β}
    (unique : Relator.RightUnique R) (perm : items.Perm others) (first : List.Forall₂ R items made)
    (second : List.Forall₂ R others made') : made.Perm made' := by
  obtain ⟨sorted, listed, same⟩ := List.perm_comp_forall₂ perm second
  obtain rfl := List.right_unique_forall₂' unique first listed
  exact same

/-- Projects that list the same things in another order compile alike: if one compiles then so does
the other, and the statements are the same but for their places. If the projects differ in the order
of relationships only, the places are the same as well. -/
theorem compile_reordered (reordered : p.Reordered q)
    (apart : (p.relationships.map fun r => (r.dependent, r.source)).Nodup)
    (options : CompileOptions) :
    ((∃ statements, p.compile options = .ok statements) ↔
        ∃ statements, q.compile options = .ok statements) ∧
      ∀ statements statements', p.compile options = .ok statements →
        q.compile options = .ok statements' →
          (statements.map (·.toContent)).Perm (statements'.map (·.toContent)) ∧
          (q = { p with relationships := q.relationships } → statements = statements') := by
  refine ⟨⟨reordered.compiles, reordered.symm.compiles⟩, ?_⟩
  intro statements statements' compiled compiled'
  obtain ⟨none, tables, views, ordered, created, rfl⟩ := compile_eq_ok_iff.mp compiled
  obtain ⟨none', tables', views', ordered', created', rfl⟩ := compile_eq_ok_iff.mp compiled'
  have compilable := problems_eq_nil_iff.mp none
  have compilable' := problems_eq_nil_iff.mp none'
  have agrees := reordered.agrees compilable apart
  rw [← agrees.target] at created' ⊢
  rw [← agrees.metricViewStatements] at created'
  rw [← agrees.keyStatements, ← agrees.traditionalViewStatements]
  have unique : Relator.RightUnique fun (v : MetricView) created =>
      p.metricViewStatements options (p.target options) v = .ok created :=
    fun _ _ _ first second => Except.ok.inj (first.symm.trans second)
  rw [Statement.map_toContent_numbered, Statement.map_toContent_numbered]
  constructor
  · have sameTables : tables.Perm tables' :=
      (orderedTables_spec compilable ordered).1.trans
        (reordered.tables.trans (orderedTables_spec compilable' ordered').1.symm)
    have sameViews : views.Perm views' := forall₂_perm unique reordered.metricViews created created'
    exact (((sameTables.flatMap_right _).append (sameTables.flatMap_right _)).append
      sameViews.flatten).append (reordered.traditionalViews.flatMap_right _)
  · intro only
    rw [reordered.orderedTables_eq_ok_iff agrees only] at ordered
    obtain rfl := Except.ok.inj (ordered.symm.trans ordered')
    have sameMetricViews : q.metricViews = p.metricViews := by rw [only]
    have sameViews : q.traditionalViews = p.traditionalViews := by rw [only]
    rw [sameMetricViews] at created'
    obtain rfl := List.right_unique_forall₂' unique created created'
    rw [sameViews]

/-- All collections listed backwards. -/
def reversed (p : Project) : Project :=
  { p with
    tables := p.tables.reverse
    relationships := p.relationships.reverse
    metricViews := p.metricViews.reverse
    traditionalViews := p.traditionalViews.reverse }

theorem reordered_reversed (p : Project) : p.Reordered p.reversed where
  tables := p.tables.reverse_perm.symm
  relationships := p.relationships.reverse_perm.symm
  metricViews := p.metricViews.reverse_perm.symm
  traditionalViews := p.traditionalViews.reverse_perm.symm
  rest := rfl

theorem salesViews_reversed :
    ∃ statements statements', salesViews.compile .standard = .ok statements ∧
      salesViews.reversed.compile .standard = .ok statements' ∧
      (statements.map (·.toContent)).Perm (statements'.map (·.toContent)) := by
  have reordered := reordered_reversed salesViews
  obtain ⟨statements, compiled⟩ := salesViews_compilable.compiles .standard
  obtain ⟨both, same⟩ := compile_reordered reordered (by decide) .standard
  obtain ⟨statements', compiled'⟩ := both.mp ⟨statements, compiled⟩
  obtain ⟨perm, _⟩ := same statements statements' compiled compiled'
  exact ⟨statements, statements', compiled, compiled', perm⟩

end LakeSchema.Project
