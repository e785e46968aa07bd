import LakeSchema.Check.Consistency
import LakeSchema.Check.Table
import LakeSchema.Compile.Graph
import LakeSchema.Compile.MetricDefinition

/-!
# Scripts

`Project.compile` turns a project into the ordered statements that create its schema: tables in
dependency order with their tags, then foreign keys, then views. `Project.problems` lists everything
that keeps it from doing so.
-/

namespace LakeSchema

structure CompileOptions where
  mode : CreateMode
  includeTags : Bool
  catalogName : Option String
  schemaName : Option String
deriving DecidableEq

def CompileOptions.standard : CompileOptions :=
  ⟨.createOrReplace, true, none, none⟩

inductive StatementKind where
  | createTable
  | setTag
  | addConstraint
  | createView
  | createMetricView
deriving DecidableEq

def StatementKind.name : StatementKind → String
  | createTable => "CREATE_TABLE"
  | setTag => "SET_TAG"
  | addConstraint => "ADD_CONSTRAINT"
  | createView => "CREATE_VIEW"
  | createMetricView => "CREATE_METRIC_VIEW"

/-- What a statement does: the entity that it comes from, the object that it changes, and its text. -/
structure Statement.Content where
  entity : String
  entityKind : EntityKind
  kind : StatementKind
  object : String
  sql : String
deriving DecidableEq

/-- A statement at its place in a script, counted from one. -/
structure Statement extends Statement.Content where
  sequence : Nat
deriving DecidableEq

namespace Statement

/-- Puts a statement at the end of a script. -/
def push (script : List Statement) (content : Content) : List Statement :=
  script ++ [{ content with sequence := script.length + 1 }]

def numbered (contents : List Content) : List Statement :=
  contents.foldl push []

end Statement

namespace Project

/-! ### Problems -/

def metricViewProblems (v : MetricView) : List SchemaError :=
  Table.nameErrors v.id (Name.tableProblem? v.name) ++
    if v.sourceTable.isNone && (nonBlank? v.sourceSql).isNone then [v.sourceMissing] else []

def traditionalViewProblems (v : TraditionalView) : List SchemaError :=
  Table.nameErrors v.id (Name.tableProblem? v.name) ++
    (Query.problem? v.query).toList.map fun problem =>
      .validation v.id ("view '" ++ v.name ++ "': " ++ problem.message)

/-- Everything that keeps a project from being compiled, each error once. -/
def problems (p : Project) : List SchemaError :=
  (p.inconsistencies ++ p.viewSourceProblems ++ p.tables.flatMap Table.problems ++
    p.nameCollisions ++ p.metricViews.flatMap metricViewProblems ++
    p.traditionalViews.flatMap traditionalViewProblems ++
    (DependencyGraph.build p).cycleErrors).eraseDups

/-! ### Statements -/

def target (p : Project) (options : CompileOptions) : Target :=
  ⟨options.catalogName.getD p.catalogName, options.schemaName.getD p.schemaName, options.mode⟩

def tableStatements (options : CompileOptions) (target : Target) (t : Table) : List Statement.Content :=
  ⟨t.id, .table, .createTable, target.qualified t.name, target.createTable t⟩ ::
    if options.includeTags then
      (target.tableTags t).map fun sql =>
        ⟨t.id, .table, .setTag, target.qualified t.name, sql⟩
    else []

/-- The relationship that stands for a reference, if the project has one. -/
def relationshipOf? (p : Project) (dependent source : Location) : Option Relationship :=
  p.relationships.find? fun r => r.dependent == dependent && r.source == source

def keyStatement? (p : Project) (target : Target) (t : Table) (f : Field) : Option Statement.Content := do
  let reference ← f.reference
  let keyTable ← p.table? reference.table
  let key ← keyTable.field? reference.field
  let relationship := p.relationshipOf? ⟨t.id, f.id⟩ reference.target
  let sql := target.foreignKey t f reference keyTable key (relationship.bind (·.constraintName))
  match relationship with
  | some r => some ⟨r.id, .relationship, .addConstraint, target.qualified t.name, sql⟩
  | none => some ⟨f.id, .field, .addConstraint, target.qualified t.name, sql⟩

def keyStatements (p : Project) (target : Target) (t : Table) : List Statement.Content :=
  t.fields.filterMap (p.keyStatement? target t)

def viewTagStatements (options : CompileOptions) (target : Target) (kind : EntityKind)
    (id name : String) (tags : TagMap) (logicalName : Option String) : List Statement.Content :=
  if options.includeTags then
    (target.viewTags? name tags logicalName).toList.map fun sql =>
      ⟨id, kind, .setTag, target.qualified name, sql⟩
  else []

def metricViewStatements (p : Project) (options : CompileOptions) (target : Target)
    (v : MetricView) : Except SchemaError (List Statement.Content) := do
  let sql ← v.createStatement p target
  pure (⟨v.id, .metricView, .createMetricView, target.qualified v.name, sql⟩ ::
    viewTagStatements options target .metricView v.id v.name v.tags none)

def traditionalViewStatements (p : Project) (options : CompileOptions) (target : Target)
    (v : TraditionalView) : List Statement.Content :=
  ⟨v.id, .traditionalView, .createView, target.qualified v.name, target.createView p v⟩ ::
    viewTagStatements options target .traditionalView v.id v.name v.tags v.logicalName

def orderedTables (p : Project) : Except (List SchemaError) (List Table) :=
  (DependencyGraph.build p).order?.map fun order =>
    (order.filter (·.kind == .table)).filterMap fun n => p.table? n.id

def compile (p : Project) (options : CompileOptions) :
    Except (List SchemaError) (List Statement) := do
  if p.problems.isEmpty then
    let tables ← p.orderedTables
    let target := p.target options
    let metricViews ←
      (p.metricViews.mapM (p.metricViewStatements options target)).mapError fun e => [e]
    pure <| Statement.numbered <|
      tables.flatMap (tableStatements options target) ++ tables.flatMap (p.keyStatements target) ++
        metricViews.flatten ++ p.traditionalViews.flatMap (p.traditionalViewStatements options target)
  else .error p.problems

end Project

/-- The text of a script: its statements apart from each other by semicolons and empty lines. -/
def Statement.script (statements : List Statement) : String :=
  let text := ";\n\n".intercalate (statements.map (·.sql))
  if text.isEmpty then "" else text ++ ";\n"

end LakeSchema
