import LakeSchema.Compile.Script
import LakeSchema.Document.Decode

/-!
# Execution

The JSON forms of what compilation answers and of the options that it takes, and what comes of the
statements of a script when they are executed: one result for each statement in their order.
-/

namespace LakeSchema

namespace SchemaError

def toJson (error : SchemaError) : Json :=
  .object <| ("kind", .string error.kindName) ::
    match error with
    | validation entity problem | referentialIntegrity entity problem
    | duplicateEntity entity problem =>
      [("entity_id", .string entity), ("message", .string problem)]
    | cyclicDependency tables => [("table_ids", .strings tables)]
    | notFound kind id => [("entity", .string kind.name), ("id", .string id)]

end SchemaError

namespace Statement

def toJson (s : Statement) : Json :=
  .object
    [("sequence", .ofNat s.sequence), ("entity_id", .string s.entity),
      ("entity_kind", .string s.entityKind.name), ("kind", .string s.kind.name),
      ("object_name", .string s.object), ("sql", .string s.sql)]

def listToJson (statements : List Statement) : Json :=
  .array (statements.map toJson)

end Statement

def CompileOptions.decode : Json → Decode CompileOptions :=
  Fields.decode "CompileOptions" <|
    (Fields.of CompileOptions.mk)
      |>.apply (Fields.orElse "create_mode" (Decode.choice CreateMode.spellings) .createOrReplace)
      |>.apply (Fields.orElse "include_tags" Decode.bool true)
      |>.apply (Fields.optional "catalog_name" Decode.string)
      |>.apply (Fields.optional "schema_name" Decode.string)

/-! ### Results -/

structure StatementResult where
  sequence : Nat
  entity : String
  failure : Option String
deriving DecidableEq

def StatementResult.toJson (r : StatementResult) : Json :=
  .object <|
    [("sequence", .ofNat r.sequence), ("entity_id", .string r.entity),
      ("success", .bool r.failure.isNone)] ++
    Json.optionalString "message" r.failure

/-- Executes statements by a judge that says why a statement fails, if it does. -/
def Statement.executeAll (judge : Statement → Option String) (statements : List Statement) :
    List StatementResult :=
  statements.map fun s => ⟨s.sequence, s.entity, judge s⟩

end LakeSchema
