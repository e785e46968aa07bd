import LakeSchema.Check.Consistency
import LakeSchema.Document.Decode
import LakeSchema.Document.Format
import LakeSchema.Document.Normalise
import LakeSchema.Json.Reader
import LakeSchema.Yaml.Reader

/-!
# Loading projects

`Document.load` normalises a raw document, reads it, and makes the project consistent: references
to missing fields are dropped with a warning, and relationships without both their ends are set
aside.
-/

namespace LakeSchema

namespace Project

/-- A field whose reference resolves is flagged as a foreign key; any other reference is dropped. -/
def repairField (p : Project) (table : String) (f : Field) : Field × List Warning :=
  match f.reference with
  | none => (f, [])
  | some reference =>
    if p.holds reference.target then ({ f with isForeignKey := true }, [])
    else (f.detach, [.referenceDropped table f.name reference.target])

def repairTable (p : Project) (t : Table) : Table × List Warning :=
  let results := t.fields.map (p.repairField t.name)
  ({ t with fields := results.map Prod.fst }, results.flatMap Prod.snd)

def repairReferences (p : Project) : Project × List Warning :=
  let results := p.tables.map p.repairTable
  ({ p with tables := results.map Prod.fst }, results.flatMap Prod.snd)

/-- Whether all three ends of a relationship are fields of the project. -/
def anchors (p : Project) (r : Relationship) : Bool :=
  p.holds r.source && p.holds r.fallback && p.holds r.dependent

def anchorsMetric (p : Project) (r : MetricRelationship) : Bool :=
  p.tables.any (·.id == r.sourceTable) && p.metricViews.any (·.id == r.metricView)

end Project

structure Loaded where
  project : Project
  orphans : List Relationship
  metricOrphans : List MetricRelationship
  warnings : List Warning
deriving DecidableEq

/-- Makes a project consistent that was read from a normalised document. -/
def Loaded.ofProject (project : Project) (warnings : List Warning) : Loaded :=
  let (repaired, dropped) := project.repairReferences
  { project :=
      { repaired with
        relationships := repaired.relationships.filter repaired.anchors
        metricRelationships := repaired.metricRelationships.filter repaired.anchorsMetric }
    orphans := repaired.relationships.filter (!repaired.anchors ·)
    metricOrphans := repaired.metricRelationships.filter (!repaired.anchorsMetric ·)
    warnings := warnings ++ dropped }

inductive LoadError where
  | notInFormat (format : DocumentFormat)
  | notAProject (error : DecodeError)
deriving DecidableEq

def Document.load (now : Timestamp) (document : Json) (supply : IdSupply) :
    Except DecodeError (Loaded × IdSupply) := do
  let (document, warnings, supply) := normalise now document supply
  let (project, supply) ← (Project.decode document).run supply
  pure (Loaded.ofProject project warnings, supply)

def Document.read? (format : DocumentFormat) (text : String) : Option Json :=
  match format with
  | .json => Json.read? text
  | .yaml => Yaml.read? text

def Document.loadText (now : Timestamp) (format : DocumentFormat) (text : String)
    (supply : IdSupply) : Except LoadError (Loaded × IdSupply) :=
  match read? format text with
  | some document => (load now document supply).mapError .notAProject
  | none => .error (.notInFormat format)

end LakeSchema
