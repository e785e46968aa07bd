import LakeSchema.Compile.Script
import LakeSchema.Proofs.Check.Consistency
import LakeSchema.Proofs.Compile.Countdown
import LakeSchema.Proofs.Except

/-!
# What compiles

A project compiles if and only if no problem is reported for it, and the errors of a compilation are
the problems reported. The later steps of the compiler can fail as well, when there is no creation
order or a metric view has nothing to read from, but the problems cover these cases.
-/

namespace LakeSchema

variable {p : Project} {options : CompileOptions} {v : MetricView}

/-! ### Numbers -/

namespace Statement

theorem foldl_push (contents : List Content) (script : List Statement) :
    (contents.foldl push script).map (·.toContent) = script.map (·.toContent) ++ contents ∧
      (contents.foldl push script).map (·.sequence) =
        script.map (·.sequence) ++ List.range' (script.length + 1) contents.length := by
  induction contents generalizing script with
  | nil => simp
  | cons content rest ih =>
    obtain ⟨kept, places⟩ := ih (push script content)
    constructor
    · rw [List.foldl_cons, kept]
      simp [push]
    · rw [List.foldl_cons, places]
      simp [push, List.range'_succ]

/-- Numbering leaves statements what they are. -/
theorem map_toContent_numbered (contents : List Content) :
    (numbered contents).map (·.toContent) = contents :=
  (foldl_push contents []).1

theorem map_sequence_numbered (contents : List Content) :
    (numbered contents).map (·.sequence) = List.range' 1 contents.length :=
  (foldl_push contents []).2

theorem length_numbered (contents : List Content) : (numbered contents).length = contents.length := by
  rw [← List.length_map (·.toContent), map_toContent_numbered]

theorem map_filter_numbered {α : Type} (keep : Content → Bool) (f : Content → α)
    {contents : List Content} :
    (contents.filter keep).map f =
      ((numbered contents).filter fun s => keep s.toContent).map fun s => f s.toContent := by
  nth_rewrite 1 [← map_toContent_numbered contents]
  rw [List.filter_map, List.map_map]
  rfl

theorem forall_mem_numbered_iff {contents : List Content} {P : Content → Prop} :
    (∀ s ∈ numbered contents, P s.toContent) ↔ ∀ content ∈ contents, P content := by
  rw [← List.forall_mem_map (f := fun s : Statement => s.toContent), map_toContent_numbered]

end Statement

namespace Project

/-- What has to hold of a project to be compiled. -/
structure Compilable (p : Project) : Prop where
  consistent : p.Consistent
  readers : p.viewSourceProblems = []
  tables : ∀ t ∈ p.tables, t.problems = []
  names : p.nameCollisions = []
  metricViews : ∀ v ∈ p.metricViews, metricViewProblems v = []
  traditionalViews : ∀ v ∈ p.traditionalViews, traditionalViewProblems v = []
  acyclic : (DependencyGraph.build p).Acyclic

theorem eraseDups_eq_nil_iff {α : Type} [BEq α] [LawfulBEq α] {items : List α} :
    items.eraseDups = [] ↔ items = [] := by
  simp [List.eq_nil_iff_forall_not_mem, List.mem_eraseDups]

theorem problems_eq_nil_iff : p.problems = [] ↔ p.Compilable := by
  have cycles : (DependencyGraph.build p).cycleErrors = [] ↔ (DependencyGraph.build p).Acyclic := by
    rw [DependencyGraph.cycleErrors, List.map_eq_nil_iff,
      DependencyGraph.cycles_eq_nil_iff (DependencyGraph.build_wellFormed p)]
  simp only [problems, eraseDups_eq_nil_iff, List.append_eq_nil_iff, inconsistencies_eq_nil_iff,
    List.flatMap_eq_nil_iff, cycles, and_assoc]
  exact ⟨fun ⟨a, b, c, d, e, f, g⟩ => ⟨a, b, c, d, e, f, g⟩,
    fun ⟨a, b, c, d, e, f, g⟩ => ⟨a, b, c, d, e, f, g⟩⟩

/-! ### Tables in creation order -/

theorem Compilable.orderedTables (compilable : p.Compilable) :
    ∃ tables, p.orderedTables = .ok tables := by
  obtain ⟨order, found, _⟩ := DependencyGraph.order?_of_acyclic
    (DependencyGraph.build_wellFormed p) compilable.acyclic
  exact ⟨_, by rw [Project.orderedTables, found]; rfl⟩

/-! ### Sources of metric views -/

/-- Joined tables are noted behind the source. -/
theorem sourceTable_mem_tables {id : String} (source : v.sourceTable = some id) : id ∈ v.tables := by
  have kept : ∀ (joined seen : List String), id ∈ seen → id ∈ joined.foldl (fun seen id =>
      if seen.contains id then seen else seen ++ [id]) seen := by
    intro joined
    induction joined with
    | nil => exact fun _ known => known
    | cons next rest ih =>
      intro seen known
      rw [List.foldl_cons]
      split
      · exact ih seen known
      · exact ih _ (List.mem_append_left _ known)
  exact kept _ _ (by simp [source])

theorem readerProblems_eq_nil_iff (earlier : List Reader) (r : Reader) :
    p.readerProblems earlier r = [] ↔
      (∀ other ∈ earlier, other.id ≠ r.id) ∧ ∀ table ∈ r.tables, (p.table? table).isSome := by
  simp [readerProblems, table?]

theorem viewSourceProblems_eq_nil_iff :
    p.viewSourceProblems = [] ↔ (p.readers.map (·.id)).Nodup ∧
      ∀ r ∈ p.readers, ∀ table ∈ r.tables, (p.table? table).isSome :=
  withEarlier_eq_nil_iff readerProblems_eq_nil_iff p.readers

/-- A view that passes the checks has a table or SQL to read from. -/
theorem Compilable.source (compilable : p.Compilable) (member : v ∈ p.metricViews) :
    (v.sourceTable.bind p.table?).isSome ∨ (nonBlank? v.sourceSql).isSome := by
  cases source : v.sourceTable with
  | none =>
    have checked := (List.append_eq_nil_iff.mp (compilable.metricViews v member)).2
    refine .inr (Option.ne_none_iff_isSome.mp fun missing => ?_)
    simp [source, missing] at checked
  | some id =>
    have reader : ⟨"metric view", v.id, v.name, v.tables⟩ ∈ p.readers :=
      List.mem_append_left _ (List.mem_map_of_mem member)
    exact .inl ((viewSourceProblems_eq_nil_iff.mp compilable.readers).2 _ reader id
      (sourceTable_mem_tables source))

theorem definition_eq_ok_iff {target : Target} :
    (∃ d, v.definition p target = .ok d) ↔
      (v.sourceTable.bind p.table?).isSome ∨ (nonBlank? v.sourceSql).isSome := by
  cases table : v.sourceTable.bind p.table? <;> cases sql : nonBlank? v.sourceSql <;>
    simp [MetricView.definition, table, sql, bind, Except.bind, pure, Except.pure]

theorem metricViewStatements_eq_ok_iff {target : Target} :
    (∃ statements, p.metricViewStatements options target v = .ok statements) ↔
      (v.sourceTable.bind p.table?).isSome ∨ (nonBlank? v.sourceSql).isSome := by
  rw [← definition_eq_ok_iff]
  simp only [metricViewStatements, MetricView.createStatement, bind_eq_ok_iff]
  constructor
  · rintro ⟨_, _, ⟨d, defined, _⟩, _⟩
    exact ⟨d, defined⟩
  · rintro ⟨d, defined⟩
    exact ⟨_, _, ⟨d, defined, rfl⟩, rfl⟩

/-! ### Compilation -/

/-- A compilation succeeds when nothing is in its way; it numbers the statements of tables in creation
order, of their keys, and of the views. -/
theorem compile_eq_ok_iff {statements : List Statement} :
    p.compile options = .ok statements ↔
      p.problems = [] ∧ ∃ tables views, p.orderedTables = .ok tables ∧
        List.Forall₂ (fun v created =>
          p.metricViewStatements options (p.target options) v = .ok created) p.metricViews views ∧
        statements = Statement.numbered (
          tables.flatMap (tableStatements options (p.target options)) ++
            tables.flatMap (p.keyStatements (p.target options)) ++ views.flatten ++
            p.traditionalViews.flatMap (p.traditionalViewStatements options (p.target options))) := by
  rw [compile]
  by_cases none : p.problems = []
  · rw [if_pos (List.isEmpty_iff.mpr none)]
    simp only [bind_eq_ok_iff, mapError_eq_ok_iff, mapM_eq_ok_iff, none, true_and]
    constructor
    · rintro ⟨tables, ordered, views, created, done⟩
      exact ⟨tables, views, ordered, created, (Except.ok.inj done).symm⟩
    · rintro ⟨tables, views, ordered, created, rfl⟩
      exact ⟨tables, ordered, views, created, rfl⟩
  · simp [none]

theorem Compilable.compiles (compilable : p.Compilable) (options : CompileOptions) :
    ∃ statements, p.compile options = .ok statements := by
  obtain ⟨tables, ordered⟩ := compilable.orderedTables
  obtain ⟨views, created⟩ : ∃ views,
      p.metricViews.mapM (p.metricViewStatements options (p.target options)) = .ok views :=
    exists_mapM_eq_ok fun v member =>
      metricViewStatements_eq_ok_iff.mpr (compilable.source member)
  exact ⟨_, compile_eq_ok_iff.mpr
    ⟨problems_eq_nil_iff.mpr compilable, tables, views, ordered, mapM_eq_ok_iff.mp created,
      rfl⟩⟩

/-- A project compiles exactly if no problem is reported for it, and else fails with the problems
reported. -/
theorem compile_reports (p : Project) (options : CompileOptions) :
    ((∃ statements, p.compile options = .ok statements) ↔ p.problems = []) ∧
      ∀ errors, p.compile options = .error errors ↔ errors = p.problems ∧ errors ≠ [] := by
  have compiles : p.problems = [] → ∃ statements, p.compile options = .ok statements :=
    fun none => (problems_eq_nil_iff.mp none).compiles options
  refine ⟨⟨fun ⟨_, done⟩ => (compile_eq_ok_iff.mp done).1, compiles⟩, fun errors => ?_⟩
  by_cases none : p.problems = []
  · obtain ⟨statements, done⟩ := compiles none
    simp [done, none]
  · rw [compile, if_neg (mt List.isEmpty_iff.mp none), Except.error.injEq]
    constructor
    · rintro rfl
      exact ⟨rfl, none⟩
    · exact fun ⟨same, _⟩ => same.symm

end Project
end LakeSchema
