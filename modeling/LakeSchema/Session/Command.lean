import LakeSchema.Edit.Import
import LakeSchema.Edit.Linking
import LakeSchema.Edit.ViewEdit
import LakeSchema.Session.Basic

/-!
# Commands

The edits of a session as data. `Session.execute` carries a command out on the current session: the
project is edited on the side, and the session takes it over once it is known to be consistent.
-/

namespace LakeSchema

inductive Command where
  | addTable (spec : TableSpec)
  | updateTable (table : String) (patch : TablePatch)
  | deleteTable (table : String)
  | addField (table : String) (field : Field)
  | updateField (table field : String) (patch : FieldPatch)
  | deleteField (table field : String)
  | addRelationship (spec : RelationshipSpec)
  | updateRelationship (id : String) (patch : RelationshipPatch)
  | deleteRelationship (id : String)
  | removeLine (id : String)
  | connect (connection : Connection)
  | addMetricView (view : MetricView)
  | updateMetricView (id : String) (patch : MetricViewPatch)
  | deleteMetricView (id : String)
  | addTraditionalView (view : TraditionalView)
  | updateTraditionalView (id : String) (patch : TraditionalViewPatch)
  | deleteTraditionalView (id : String)
  | addMetricRelationship (id table view : String)
  | deleteMetricRelationship (id : String)
  | merge (incoming : Import)
  | reset (project : Project)

inductive Outcome where
  | table (t : Table)
  | tableDeletion (deletion : TableDeletion)
  | field (f : Field)
  | relationship (r : Relationship)
  | reconciled (r : Relationship) (outcome : Reconciliation)
  | metricView (v : MetricView)
  | traditionalView (v : TraditionalView)
  | metricRelationship (r : MetricRelationship)
  | summary (summary : ImportSummary)
  | done
deriving DecidableEq

/-- A deleted relationship, with what became of the field that depended on it. -/
def Outcome.ofDeletion (answer : Relationship × Reconciliation) : Outcome :=
  .reconciled answer.1 answer.2

namespace Session

/-- What works on the current session, and leaves one whether it answers or fails. -/
abbrev Operation := ExceptT SchemaError (StateM Session)

/-- The answer of an operation that succeeds, with the session that it leaves. -/
def Operation.result {α : Type} (operation : Operation α) (s : Session) :
    Except SchemaError (α × Session) :=
  let (answer, next) := operation.run.run s
  answer.map (·, next)

/-- Edits the project, commits it, and shows the answer as an outcome. -/
def apply {α : Type} (now : Timestamp) (shown : α → Outcome)
    (op : Session → Except SchemaError (α × Project)) : Operation Outcome := do
  let s ← get
  let (answer, candidate) ← op s
  let next ← s.commit candidate now
  set next
  pure (shown answer)

/-- Goes over to another project. -/
def replace (p : Project) : Operation Outcome := do
  let s ← get
  let next ← open? s.policy p
  set next
  pure .done

def execute (now : Timestamp) : Command → Operation Outcome
  | .addTable spec => apply now .table fun s => s.project.addTable spec now
  | .updateTable table patch =>
    apply now .table fun s => s.project.patchTable s.policy table patch now
  | .deleteTable table => apply now .tableDeletion fun s => s.project.deleteTable s.policy table now
  | .addField table f => apply now .field fun s => s.project.addField s.policy table f now
  | .updateField table id patch =>
    apply now .field fun s => s.project.updateField s.policy table id patch now
  | .deleteField table id => apply now .field fun s => s.project.deleteField s.policy table id now
  | .addRelationship spec => apply now .relationship fun s => s.project.link spec now
  | .updateRelationship id patch =>
    apply now .relationship fun s => s.project.updateRelationship id patch now
  | .deleteRelationship id =>
    apply now .ofDeletion fun s => s.project.deleteRelationship s.policy id now
  | .removeLine id => apply now .relationship fun s => s.project.removeLine id
  | .connect connection => apply now .relationship fun s => s.project.connect connection now
  | .addMetricView v => apply now .metricView fun s => s.project.addMetricView v now
  | .updateMetricView id patch =>
    apply now .metricView fun s => s.project.updateMetricView id patch now
  | .deleteMetricView id => apply now .metricView fun s => s.project.deleteMetricView id
  | .addTraditionalView v => apply now .traditionalView fun s => s.project.addTraditionalView v now
  | .updateTraditionalView id patch =>
    apply now .traditionalView fun s => s.project.updateTraditionalView id patch now
  | .deleteTraditionalView id =>
    apply now .traditionalView fun s => s.project.deleteTraditionalView id
  | .addMetricRelationship id table view =>
    apply now .metricRelationship fun s => s.project.addMetricRelationship id table view now
  | .deleteMetricRelationship id =>
    apply now .metricRelationship fun s => s.project.deleteMetricRelationship id
  | .merge incoming => apply now .summary fun s => s.project.merge incoming now
  | .reset p => replace p

def run (s : Session) (now : Timestamp) (command : Command) :
    Except SchemaError (Outcome × Session) :=
  (execute now command).result s

/-- The session that a command leaves, whether it succeeds or fails. -/
def after (s : Session) (now : Timestamp) (command : Command) : Session :=
  ((execute now command).run.run s).2

def afterAll (s : Session) (commands : List (Timestamp × Command)) : Session :=
  commands.foldl (fun s entry => s.after entry.1 entry.2) s

end Session
end LakeSchema
