import LakeSchema.Edit.TableEdit
import LakeSchema.Sql.Query

/-!
# Editing views

Metric views may only read tables of the project. The tables that a traditional view reads are found
in its query unless they are given.
-/

namespace LakeSchema.Project

def checkNewView (p : Project) (id name : String) : Except SchemaError Unit := do
  Name.accept id (Name.tableProblem? name)
  if p.metricViews.any (·.id == id) || p.traditionalViews.any (·.id == id) then
    .error (.duplicateEntity id "view id already exists")

/-! ### Metric views -/

def checkSources (p : Project) (v : MetricView) : Except SchemaError Unit :=
  match v.tables.find? fun table => (p.table? table).isNone with
  | some table =>
    .error (.referentialIntegrity v.id
      ("metric view '" ++ v.name ++ "' reads missing table " ++ table))
  | none => .ok ()

def requireMetricView (p : Project) (id : String) : Except SchemaError MetricView :=
  match p.metricView? id with
  | some v => .ok v
  | none => .error (.notFound .metricView id)

def addMetricView (p : Project) (v : MetricView) (now : Timestamp) :
    Except SchemaError (MetricView × Project) := do
  p.checkNewView v.id v.name
  p.checkSources v
  let v := { v with createdAt := now, updatedAt := now }
  pure (v, { p with metricViews := p.metricViews ++ [v] })

def updateMetricView (p : Project) (id : String) (patch : MetricViewPatch) (now : Timestamp) :
    Except SchemaError (MetricView × Project) := do
  let v ← p.requireMetricView id
  let v := { patch.apply v with updatedAt := now }
  if patch.name.isSet then Name.accept id (Name.tableProblem? v.name)
  p.checkSources v
  pure (v, { p with metricViews := updateFirst (·.id == id) (fun _ => v) p.metricViews })

/-- Deletes a metric view with the links to it. -/
def deleteMetricView (p : Project) (id : String) : Except SchemaError (MetricView × Project) := do
  let v ← p.requireMetricView id
  pure (v, { p with
    metricViews := p.metricViews.eraseP (·.id == id)
    metricRelationships := p.metricRelationships.filter (·.metricView != id) })

/-! ### Traditional views -/

def requireTraditionalView (p : Project) (id : String) : Except SchemaError TraditionalView :=
  match p.traditionalView? id with
  | some v => .ok v
  | none => .error (.notFound .traditionalView id)

def withQueryTables (p : Project) (v : TraditionalView) : TraditionalView :=
  { v with referencedTables := Query.tables p v.query }

def addTraditionalView (p : Project) (v : TraditionalView) (now : Timestamp) :
    Except SchemaError (TraditionalView × Project) := do
  p.checkNewView v.id v.name
  let v := if v.referencedTables.isEmpty then p.withQueryTables v else v
  let v := { v with createdAt := now, updatedAt := now }
  pure (v, { p with traditionalViews := p.traditionalViews ++ [v] })

def updateTraditionalView (p : Project) (id : String) (patch : TraditionalViewPatch)
    (now : Timestamp) : Except SchemaError (TraditionalView × Project) := do
  let v ← p.requireTraditionalView id
  let v := { patch.apply v with updatedAt := now }
  if patch.name.isSet then Name.accept id (Name.tableProblem? v.name)
  let v := if patch.query.isSet && !patch.referencedTables.isSet then p.withQueryTables v else v
  pure (v, { p with traditionalViews := updateFirst (·.id == id) (fun _ => v) p.traditionalViews })

def deleteTraditionalView (p : Project) (id : String) :
    Except SchemaError (TraditionalView × Project) := do
  let v ← p.requireTraditionalView id
  pure (v, { p with traditionalViews := p.traditionalViews.eraseP (·.id == id) })

/-! ### Links from tables to metric views -/

def addMetricRelationship (p : Project) (id table view : String) (now : Timestamp) :
    Except SchemaError (MetricRelationship × Project) := do
  let _ ← p.requireTable table
  let _ ← p.requireMetricView view
  match p.metricRelationships.find? fun r => r.sourceTable == table && r.metricView == view with
  | some r => .error (.duplicateEntity r.id "table is already linked to this metric view")
  | none =>
    let r := MetricRelationship.between id table view now
    pure (r, { p with metricRelationships := p.metricRelationships ++ [r] })

def deleteMetricRelationship (p : Project) (id : String) :
    Except SchemaError (MetricRelationship × Project) :=
  match p.metricRelationships.find? (·.id == id) with
  | none => .error (.notFound .metricRelationship id)
  | some r =>
    .ok (r, { p with metricRelationships := p.metricRelationships.eraseP (·.id == id) })

end LakeSchema.Project
