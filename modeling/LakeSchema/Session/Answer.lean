import LakeSchema.Document.Encode
import LakeSchema.Session.Command

/-!
# Answers as JSON

The JSON forms of what commands and the functions below them answer.
-/

namespace LakeSchema

def SyncedField.toJson (s : SyncedField) : Json :=
  .object
    [("table_id", .string s.table), ("field_id", .string s.field),
      ("origin", .string s.origin.name), ("renamed", .bool s.renamed)]

def TableDeletion.toJson (d : TableDeletion) : Json :=
  .object
    [("table", d.table.toJson), ("removed_relationships", .strings d.relationships),
      ("reconciled", .array (d.reconciled.map fun entry => .strings [entry.1, entry.2.name]))]

def ImportSummary.toJson (s : ImportSummary) : Json :=
  .object
    [("tables_added", .strings s.tables), ("relationships_added", .strings s.relationships)]

def NamingConflict.toJson (c : NamingConflict) : Json :=
  .object
    [("new_table_id", .string c.newId), ("new_table_name", .string c.newName),
      ("existing_table_id", .string c.existingId), ("existing_table_name", .string c.existingName),
      ("reason", .string c.reason.name)]

def Outcome.toJson : Outcome → Json
  | table t => t.toJson
  | tableDeletion d => d.toJson
  | field f => f.toJson
  | relationship r => r.toJson
  | reconciled r outcome => .array [r.toJson, .string outcome.name]
  | metricView v => v.toJson
  | traditionalView v => v.toJson
  | metricRelationship r => r.toJson
  | summary s => s.toJson
  | done => .null

end LakeSchema
