import LakeSchema.Compile.Ddl
import LakeSchema.Document.Encode
import LakeSchema.Schema.Measure
import LakeSchema.Schema.Error
import LakeSchema.Yaml.Printer

/-!
# Metric view definitions

The YAML body of a metric view: its source, joins, dimensions and measures with all names resolved
against the project.
-/

namespace LakeSchema

structure NamedExpression where
  name : String
  expr : String
deriving DecidableEq

/-- A resolved join; a condition and shared columns exclude each other. -/
structure JoinDefinition where
  name : String
  source : String
  condition : Option String
  columns : List String
  kind : Option String
  joins : List JoinDefinition

structure MetricDefinition where
  version : String
  source : String
  filter : Option String
  joins : List JoinDefinition
  dimensions : List NamedExpression
  measures : List NamedExpression

/-! ### Sources and conditions -/

def lastThreeParts (name : String) : String :=
  let parts := Text.pieces '.' name
  ".".intercalate (parts.drop (parts.length - 3))

/-- The name that a condition uses for the source, if one with its dot begins here at a word
boundary. -/
def afterAlias? (source : Option String) (before : Option Char) (cs : List Char) :
    Option (List Char) :=
  if before.any Text.isWordChar == cs.head?.any Text.isWordChar then none
  else
    (Text.after? "base.".toList cs).or
      (source.bind fun name => Text.after? (name.toList ++ ['.']) cs)

/-- Replaces the names of the source; every round takes at least one character. -/
def aliasedFrom (source : Option String) : (rounds : Nat) → (before : Option Char) → List Char →
    List Char
  | 0, _, cs => cs
  | _, _, [] => []
  | rounds + 1, before, c :: rest =>
    match afterAlias? source before (c :: rest) with
    | some after => "source.".toList ++ aliasedFrom source rounds (some '.') after
    | none => c :: aliasedFrom source rounds (some c) rest

/-- A join condition in which the source table, also when it is called `base`, is called
`source`. -/
def sourceAliased (source : Option String) (condition : String) : String :=
  String.ofList (aliasedFrom source condition.length none condition.toList)

/-- What a join joins: a project table, another table by name, or one named like the join. -/
def joinSource (p : Project) (target : Target) (name : String) (tableId tableName : Option String) :
    String :=
  match tableId.bind p.table?, nonBlank? tableName with
  | some t, _ => target.qualified t.name
  | none, some other => lastThreeParts (Text.trimmed other)
  | none, none => target.qualified name

mutual

def ViewJoin.definition (p : Project) (target : Target) (source : Option String) :
    ViewJoin → JoinDefinition
  | ⟨_, name, tableId, tableName, condition, columns, kind, joins⟩ =>
    { name
      source := joinSource p target name tableId tableName
      condition :=
        if columns.isEmpty then
          (nonBlank? condition).map fun text => sourceAliased source (Text.trimmed text)
        else none
      columns
      kind := if kind = .left then none else some kind.lowerName
      joins := ViewJoin.definitions p target source joins }

def ViewJoin.definitions (p : Project) (target : Target) (source : Option String) :
    List ViewJoin → List JoinDefinition
  | [] => []
  | join :: rest =>
    ViewJoin.definition p target source join :: ViewJoin.definitions p target source rest

end

namespace MetricView

/-- A metric view needs a table or SQL to read from. -/
def sourceMissing (v : MetricView) : SchemaError :=
  .validation v.id ("metric view '" ++ v.name ++ "' has no source table or source SQL")

def definition (v : MetricView) (p : Project) (target : Target) :
    Except SchemaError MetricDefinition := do
  let table := v.sourceTable.bind p.table?
  let source ← match table, nonBlank? v.sourceSql with
    | some t, _ => .ok (target.qualified t.name)
    | none, some sql => .ok (Text.trimmed sql)
    | none, none => .error v.sourceMissing
  pure
    { version := v.version
      source
      filter := nonBlank? v.filter
      joins := ViewJoin.definitions p target (table.map (·.name)) v.joins
      dimensions := v.dimensions.map fun d => ⟨d.name, d.expr⟩
      measures := v.measures.map fun m =>
        ⟨Measure.catalogName m.name, Measure.withCatalogNames m.expression⟩ }

end MetricView

/-! ### Text -/

def NamedExpression.toJson (e : NamedExpression) : Json :=
  .object [("name", .string e.name), ("expr", .string e.expr)]

mutual

def JoinDefinition.toJson : JoinDefinition → Json
  | ⟨name, source, condition, columns, kind, joins⟩ =>
    .object <|
      [("name", .string name), ("source", .string source)] ++
      Json.optionalString "on" condition ++
      Json.listMember "using" (columns.map .string) ++
      Json.optionalString "type" kind ++
      Json.listMember "joins" (JoinDefinition.listToJson joins)

def JoinDefinition.listToJson : List JoinDefinition → List Json
  | [] => []
  | join :: rest => JoinDefinition.toJson join :: JoinDefinition.listToJson rest

end

namespace MetricDefinition

def members (d : MetricDefinition) : Json.Members :=
  [("version", .string d.version), ("source", .string d.source)] ++
    Json.optionalString "filter" d.filter ++
    Json.listMember "joins" (JoinDefinition.listToJson d.joins) ++
    Json.listMember "dimensions" (d.dimensions.map NamedExpression.toJson) ++
    Json.listMember "measures" (d.measures.map NamedExpression.toJson)

end MetricDefinition

namespace MetricView

def createStatement (v : MetricView) (p : Project) (target : Target) : Except SchemaError String :=
  do
    let definition ← v.definition p target
    pure (target.metricViewHeader v.name ++ " $$\n" ++ Yaml.document definition.members ++ "$$")

end MetricView
end LakeSchema
