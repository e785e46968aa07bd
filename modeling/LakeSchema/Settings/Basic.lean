import LakeSchema.Compile.Script
import LakeSchema.ForeignKey.Origin

/-!
# Settings

What a workspace decides for all its projects: where objects are created, how, and how the origins
of foreign keys are told. Variables of the environment override what is written in a file.
-/

namespace LakeSchema

structure Settings extends CompileOptions where
  originPolicy : OriginPolicy
deriving DecidableEq

namespace Settings

def standard : Settings :=
  ⟨.standard, .explicit⟩

def fileName : String :=
  ".schema-graph.toml"

/-! ### Variables of the environment -/

def catalogVariable : String :=
  "SCHEMA_GRAPH_CATALOG"

def schemaVariable : String :=
  "SCHEMA_GRAPH_SCHEMA"

def modeVariable : String :=
  "SCHEMA_GRAPH_CREATE_MODE"

def policyVariable : String :=
  "SCHEMA_GRAPH_FK_ORIGIN_POLICY"

def variableNames : List String :=
  [catalogVariable, schemaVariable, modeVariable, policyVariable]

/-- The settings under the variables of an environment. A mode or policy that is none changes
nothing. -/
def override (s : Settings) (env : String → Option String) : Settings :=
  let mode := (env modeVariable).bind fun text => (CreateMode.read text).toOption
  let policy := (env policyVariable).bind fun text => (OriginPolicy.read text).toOption
  { s with
    catalogName := (env catalogVariable).or s.catalogName
    schemaName := (env schemaVariable).or s.schemaName
    mode := mode.getD s.mode
    originPolicy := policy.getD s.originPolicy }

def toJson (s : Settings) : Json :=
  .object
    [ ("target", .object (Json.optionalString "catalog" s.catalogName ++
        Json.optionalString "schema" s.schemaName)),
      ("ddl", .object [("create_mode", .string s.mode.name),
        ("include_tags", .bool s.includeTags)]),
      ("foreign_keys", .object [("origin_policy", .string s.originPolicy.name)]) ]

end Settings
end LakeSchema
