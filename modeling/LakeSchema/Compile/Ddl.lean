import LakeSchema.Schema.Project
import LakeSchema.Sql.Identifier
import LakeSchema.Sql.Query

/-!
# Statements

The SQL of tables, tags, foreign keys and plain views. Names are quoted and texts are literals
wherever they come from; only nested types, default expressions and view queries stand as they were
given.
-/

namespace LakeSchema

inductive CreateMode where
  | create
  | createOrReplace
  | ifNotExists
deriving DecidableEq

namespace CreateMode

def name : CreateMode → String
  | create => "create"
  | createOrReplace => "create_or_replace"
  | ifNotExists => "if_not_exists"

def spellings : List (CreateMode × List String) :=
  [ (create, ["create"]), (createOrReplace, ["create_or_replace"]),
    (ifNotExists, ["if_not_exists"]) ]

/-- A mode as a user may write it, or the name that is none. -/
def read (text : String) : Except String CreateMode :=
  let name := String.ofList ((Text.lower (Text.trim text.toList)).map fun c =>
    if c == '-' then '_' else c)
  match name with
  | "create" => .ok .create
  | "create_or_replace" | "replace" => .ok .createOrReplace
  | "if_not_exists" => .ok .ifNotExists
  | other => .error ("Unknown create mode: " ++ other)

/-- The words in front of the name of a new object. -/
def opening (mode : CreateMode) (object : String) : String :=
  match mode with
  | create => "CREATE " ++ object
  | createOrReplace => "CREATE OR REPLACE " ++ object
  | ifNotExists => "CREATE " ++ object ++ " IF NOT EXISTS"

end CreateMode

/-- The schema in which objects are created, and how. -/
structure Target where
  catalog : String
  schema : String
  mode : CreateMode
deriving DecidableEq

/-- A text that is more than white space. -/
def nonBlank? (text : Option String) : Option String :=
  text.filter fun s => !Text.isBlank s

/-! ### Columns -/

def nestedType (text : String) : String :=
  String.ofList (Text.upper (Text.trim text.toList))

def StructMember.text (m : StructMember) : String :=
  Sql.quoteIdentifier m.name ++ ": " ++ nestedType m.dataType

namespace Field

/-- The type of the column; parameters of another type's shape are left out. -/
def columnType (f : Field) : String :=
  match f.dataType, f.typeParameters with
  | .decimal, some (.decimal precision scale) =>
    f.dataType.keyword ++ "(" ++ toString precision.toNat ++ "," ++ toString scale.toNat ++ ")"
  | .varchar, some (.length n) | .char, some (.length n) =>
    f.dataType.keyword ++ "(" ++ toString n.toNat ++ ")"
  | .array, some (.element type) => "ARRAY<" ++ nestedType type ++ ">"
  | .map, some (.keyValue key value) =>
    "MAP<" ++ nestedType key ++ ", " ++ nestedType value ++ ">"
  | .struct, some (.struct members) =>
    "STRUCT<" ++ ", ".intercalate (members.map StructMember.text) ++ ">"
  | .interval, some (.qualifier text) => "INTERVAL " ++ nestedType text
  | .geography, some (.srid id) | .geometry, some (.srid id) =>
    f.dataType.keyword ++ "(" ++ toString id.toNat ++ ")"
  | _, _ => f.dataType.keyword

/-- A clause with a text behind it, when there is one. -/
def clause (words : String) (text : Option String) : String :=
  match text with
  | some text => words ++ text
  | none => ""

def columnDefinition (f : Field) : String :=
  Sql.quoteIdentifier f.name ++ " " ++ f.columnType ++ (if f.nullable then "" else " NOT NULL") ++
    clause " DEFAULT " ((nonBlank? f.defaultValue).map Text.trimmed) ++
    clause " COMMENT " ((nonBlank? f.comment).map Sql.stringLiteral)

end Field

/-! ### Constraint names -/

namespace ConstraintName

/-- One more character of a name that is written last character first: letters and digits in lower
case, all else as single underscores between them. -/
def push (name : List Char) (c : Char) : List Char :=
  if c.isAlphanum then c.toLower :: name
  else if name.isEmpty || name.head? == some '_' then name
  else '_' :: name

/-- A part of the name, and the underscore that keeps it apart from the next. -/
def pushPart (name : List Char) (part : String) : List Char :=
  push (part.toList.foldl push name) '_'

def ofParts (parts : List String) : String :=
  String.ofList ((parts.foldl pushPart []).dropWhile (· == '_')).reverse

end ConstraintName

/-! ### Tags -/

def logicalNameTag : String :=
  "logical_name"

/-- Tags with the logical name among them, unless a tag of that name is there. -/
def TagMap.withLogicalName (tags : TagMap) (logicalName : Option String) : TagMap :=
  match nonBlank? logicalName with
  | some name => if (tags.get? logicalNameTag).isSome then tags else tags.insert logicalNameTag name
  | none => tags

/-- The clause that sets tags; nothing when there are none. -/
def TagMap.clause? (tags : TagMap) : Option String :=
  if tags.isEmpty then none
  else
    some ("SET TAGS (" ++ ", ".intercalate (tags.entries.map fun entry =>
      Sql.stringLiteral entry.1 ++ " = " ++ Sql.stringLiteral entry.2) ++ ")")

namespace Target

def qualified (target : Target) (name : String) : String :=
  Sql.quoteQualified [target.catalog, target.schema, name]

/-! ### Tables -/

def keyConstraint? (t : Table) : Option String :=
  if t.primaryKey.isEmpty then none
  else
    some ("CONSTRAINT " ++ Sql.quoteIdentifier (ConstraintName.ofParts ["pk", t.name]) ++
      " PRIMARY KEY (" ++
      ", ".intercalate (t.primaryKey.map fun f => Sql.quoteIdentifier f.name) ++ ")")

def createTable (target : Target) (t : Table) : String :=
  target.mode.opening "TABLE" ++ " " ++ target.qualified t.name ++ " (\n  " ++
    ",\n  ".intercalate (t.fields.map Field.columnDefinition ++ (keyConstraint? t).toList) ++
    "\n)" ++
    (if t.storageFormat = .delta then "" else "\nUSING " ++ t.storageFormat.name) ++
    Field.clause "\nLOCATION " ((nonBlank? t.storageLocation).map Sql.stringLiteral) ++
    Field.clause "\nCOMMENT " ((nonBlank? t.comment).map Sql.stringLiteral)

def columnTags? (target : Target) (t : Table) (f : Field) : Option String :=
  (f.tags.withLogicalName f.logicalName).clause?.map fun tags =>
    "ALTER TABLE " ++ target.qualified t.name ++ " ALTER COLUMN " ++ Sql.quoteIdentifier f.name ++
      " " ++ tags

def tableTags (target : Target) (t : Table) : List String :=
  (((t.tags.withLogicalName t.logicalName).clause?.map fun tags =>
    "ALTER TABLE " ++ target.qualified t.name ++ " " ++ tags).toList) ++
    t.fields.filterMap (target.columnTags? t)

/-! ### Foreign keys -/

/-- The referential actions that a constraint spells out. -/
def actionClause (words : String) (action : ReferentialAction) : String :=
  if action = .noAction then "" else words ++ action.name

/-- The constraint of a foreign key. Its name is that of the reference, else `fallback`, else made
from the names of table and field. -/
def foreignKey (target : Target) (t : Table) (f : Field) (reference : Reference)
    (keyTable : Table) (key : Field) (fallback : Option String) : String :=
  let name := ((nonBlank? reference.constraintName).or (nonBlank? fallback)).getD
    (ConstraintName.ofParts ["fk", t.name, f.name])
  "ALTER TABLE " ++ target.qualified t.name ++ " ADD CONSTRAINT " ++ Sql.quoteIdentifier name ++
    " FOREIGN KEY (" ++ Sql.quoteIdentifier f.name ++ ") REFERENCES " ++
    target.qualified keyTable.name ++ " (" ++ Sql.quoteIdentifier key.name ++ ")" ++
    actionClause " ON DELETE " reference.onDelete ++ actionClause " ON UPDATE " reference.onUpdate

/-! ### Views -/

/-- The query of a view without white space and semicolons at its end. -/
def queryText (query : String) : String :=
  let cs := Text.trim query.toList
  String.ofList (Text.trimEnd (cs.reverse.dropWhile (· == ';')).reverse)

def createView (target : Target) (p : Project) (v : TraditionalView) : String :=
  target.mode.opening "VIEW" ++ " " ++ target.qualified v.name ++
    Field.clause "\nCOMMENT " ((nonBlank? v.description).map Sql.stringLiteral) ++
    "\nAS " ++ Query.qualify p (queryText v.query) target.qualified

def viewTags? (target : Target) (name : String) (tags : TagMap) (logicalName : Option String) :
    Option String :=
  (tags.withLogicalName logicalName).clause?.map fun tags =>
    "ALTER VIEW " ++ target.qualified name ++ " " ++ tags

def metricViewHeader (target : Target) (name : String) : String :=
  target.mode.opening "VIEW" ++ " " ++ target.qualified name ++
    "\nWITH METRICS\nLANGUAGE YAML\nAS"

end Target
end LakeSchema
