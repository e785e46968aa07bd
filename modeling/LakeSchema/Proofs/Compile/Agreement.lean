import LakeSchema.Compile.Script

/-!
# What statements depend on

A statement reads the project that it belongs to only by looking things up: tables by identifier and
by name, relationships by their ends. `Agrees` says that two projects have one catalog and schema
and give the same answers to these look-ups. Such projects have the same statements for a table, a
key or a view, wherever it stands.
-/

namespace LakeSchema

namespace Project

/-- The projects create in one schema, and nothing is found in one and not in the other. -/
structure Agrees (p q : Project) : Prop where
  catalog : p.catalogName = q.catalogName
  schema : p.schemaName = q.schemaName
  table : p.table? = q.table?
  named : p.tableNamed? = q.tableNamed?
  relationship : p.relationshipOf? = q.relationshipOf?

end Project

variable {p q : Project}

namespace Project.Agrees

theorem target (agrees : p.Agrees q) (options : CompileOptions) :
    p.target options = q.target options := by
  rw [Project.target, Project.target, agrees.catalog, agrees.schema]

/-! ### Keys -/

theorem keyStatement? (agrees : p.Agrees q) (target : Target) (t : Table) :
    p.keyStatement? target t = q.keyStatement? target t := by
  funext f
  rw [Project.keyStatement?, Project.keyStatement?, agrees.table, agrees.relationship]

theorem keyStatements (agrees : p.Agrees q) (target : Target) :
    p.keyStatements target = q.keyStatements target := by
  funext t
  rw [Project.keyStatements, Project.keyStatements, agrees.keyStatement?]

/-! ### Metric views -/

section Joins

variable {target : Target} {source : Option String}

theorem joinSource (agrees : p.Agrees q) (name : String) (tableId tableName : Option String) :
    joinSource p target name tableId tableName = joinSource q target name tableId tableName := by
  rw [LakeSchema.joinSource, LakeSchema.joinSource, agrees.table]

mutual

theorem join (agrees : p.Agrees q) : (j : ViewJoin) →
    j.definition p target source = j.definition q target source
  | ⟨_, name, tableId, tableName, condition, columns, kind, joins⟩ => by
    simp only [ViewJoin.definition]
    rw [agrees.joinSource, agrees.joins joins]

theorem joins (agrees : p.Agrees q) : (joins : List ViewJoin) →
    ViewJoin.definitions p target source joins = ViewJoin.definitions q target source joins
  | [] => by simp only [ViewJoin.definitions]
  | j :: rest => by
    simp only [ViewJoin.definitions]
    rw [agrees.join j, agrees.joins rest]

end

end Joins

theorem definition (agrees : p.Agrees q) (target : Target) (v : MetricView) :
    v.definition p target = v.definition q target := by
  have joined : ∀ source, ViewJoin.definitions p target source v.joins =
      ViewJoin.definitions q target source v.joins := fun _ => agrees.joins v.joins
  simp only [MetricView.definition, agrees.table, joined]

theorem metricViewStatements (agrees : p.Agrees q) (options : CompileOptions) (target : Target) :
    p.metricViewStatements options target = q.metricViewStatements options target := by
  funext v
  rw [Project.metricViewStatements, Project.metricViewStatements, MetricView.createStatement,
    MetricView.createStatement, agrees.definition]

/-! ### Plain views -/

theorem projectTable? (agrees : p.Agrees q) (reference : String) :
    Query.projectTable? p reference = Query.projectTable? q reference := by
  simp only [Query.projectTable?, agrees.catalog, agrees.schema, agrees.named]

theorem qualified (agrees : p.Agrees q) (qualify : String → String) :
    Query.Segment.qualified p qualify = Query.Segment.qualified q qualify := by
  funext segment
  cases segment with
  | other c => rfl
  | table lead reference =>
    rw [Query.Segment.qualified, Query.Segment.qualified, agrees.projectTable?]

theorem traditionalViewStatements (agrees : p.Agrees q) (options : CompileOptions)
    (target : Target) :
    p.traditionalViewStatements options target = q.traditionalViewStatements options target := by
  funext v
  rw [Project.traditionalViewStatements, Project.traditionalViewStatements, Target.createView,
    Target.createView, Query.qualify, Query.qualify, agrees.qualified]

end Project.Agrees
end LakeSchema
