import LakeSchema.Schema.Error
import LakeSchema.Schema.Name
import LakeSchema.Schema.Project

/-!
# Checks on tables

What keeps a table from being created: bad or repeated names, missing fields, and type parameters
that do not fit the type. Names count as equal when their lower case forms are. Like many checks, that
for repeated names judges an item of a list by the items in front of it (`withEarlier`).
-/

namespace LakeSchema

/-- What `judge` says of each item, given the items before it, nearest first. -/
def withEarlierFrom {α β : Type} (judge : List α → α → List β) :
    (earlier : List α) → List α → List β
  | _, [] => []
  | earlier, x :: rest => judge earlier x ++ withEarlierFrom judge (x :: earlier) rest

def withEarlier {α β : Type} (judge : List α → α → List β) (items : List α) : List β :=
  withEarlierFrom judge [] items

/-! ### Type parameters -/

namespace Field

def maxCharLength : UInt32 :=
  65535

def maxDecimalPrecision : UInt32 :=
  38

def lengthProblem? (f : Field) (length : UInt32) : Option String :=
  if length == 0 || length > maxCharLength then
    some (f.dataType.keyword ++ " length of '" ++ f.name ++ "' must be between 1 and " ++
      toString maxCharLength.toNat ++ " (got " ++ toString length.toNat ++ ")")
  else none

def decimalProblem? (f : Field) (precision scale : UInt32) : Option String :=
  if precision == 0 || precision > maxDecimalPrecision then
    some ("DECIMAL precision of '" ++ f.name ++ "' must be between 1 and " ++
      toString maxDecimalPrecision.toNat ++ " (got " ++ toString precision.toNat ++ ")")
  else if scale > precision then
    some ("DECIMAL scale of '" ++ f.name ++ "' must not exceed precision (" ++
      toString scale.toNat ++ " > " ++ toString precision.toNat ++ ")")
  else none

def parameterProblem? (f : Field) : Option String :=
  match f.dataType, f.typeParameters with
  | .varchar, some (.length n) | .char, some (.length n) => f.lengthProblem? n
  | .varchar, _ | .char, _ =>
    some (f.dataType.keyword ++ " field '" ++ f.name ++ "' requires a length")
  | .decimal, some (.decimal precision scale) => f.decimalProblem? precision scale
  | .array, some (.element type) =>
    if Text.isBlank type then some ("ARRAY field '" ++ f.name ++ "' requires an element type")
    else none
  | .array, _ => some ("ARRAY field '" ++ f.name ++ "' requires an element type")
  | .map, some (.keyValue key value) =>
    if Text.isBlank key || Text.isBlank value then
      some ("MAP field '" ++ f.name ++ "' requires key and value types")
    else none
  | .map, _ => some ("MAP field '" ++ f.name ++ "' requires key and value types")
  | .struct, some (.struct members) =>
    if members.isEmpty then some ("STRUCT field '" ++ f.name ++ "' requires members") else none
  | .struct, _ => some ("STRUCT field '" ++ f.name ++ "' requires members")
  | .interval, some (.qualifier _) => none
  | .geography, some (.srid _) | .geometry, some (.srid _) => none
  | _, none | _, some (.other _) => none
  | _, some _ =>
    some ("type parameters of '" ++ f.name ++ "' do not match " ++ f.dataType.keyword)

end Field

/-! ### Tables -/

namespace Table

def nameErrors (id : String) (problem : Option NameError) : List SchemaError :=
  problem.toList.map fun problem => .validation id problem.message

/-- Whether an earlier field with an acceptable name has this name. -/
def nameTaken (earlier : List Field) (name : String) : Bool :=
  earlier.any fun other =>
    (Name.fieldProblem? other.name).isNone && Text.lowered other.name == Text.lowered name

def fieldNameProblems (t : Table) (earlier : List Field) (f : Field) : List SchemaError :=
  match Name.fieldProblem? f.name with
  | some problem => [.validation f.id problem.message]
  | none =>
    if nameTaken earlier f.name then
      [.duplicateEntity f.id
        ("field name '" ++ f.name ++ "' appears twice in table '" ++ t.name ++ "'")]
    else []

def fieldProblems (t : Table) (earlier : List Field) (f : Field) : List SchemaError :=
  (if earlier.any (·.id == f.id) then
      [.duplicateEntity f.id ("field id appears twice in table '" ++ t.name ++ "'")]
    else []) ++
    t.fieldNameProblems earlier f ++
    f.parameterProblem?.toList.map fun problem => .validation f.id problem

def problems (t : Table) : List SchemaError :=
  nameErrors t.id (Name.tableProblem? t.name) ++
    nameErrors t.id (t.comment.bind Name.commentProblem?) ++
    (if t.fields.isEmpty then [.validation t.id ("table '" ++ t.name ++ "' has no fields")]
      else []) ++
    withEarlier t.fieldProblems t.fields

end Table

/-! ### Names across tables and views -/

namespace Project

/-- The identifiers and names of everything that is created in the schema. -/
def createdNames (p : Project) : List (String × String) :=
  p.tables.map (fun t => (t.id, t.name)) ++ p.metricViews.map (fun v => (v.id, v.name)) ++
    p.traditionalViews.map (fun v => (v.id, v.name))

def nameCollision (earlier : List (String × String)) (entry : String × String) :
    List SchemaError :=
  match earlier.reverse.find? fun other => Text.lowered other.2 == Text.lowered entry.2 with
  | some first =>
    [.duplicateEntity entry.1 ("name '" ++ entry.2 ++ "' is already used by " ++ first.1)]
  | none => []

def nameCollisions (p : Project) : List SchemaError :=
  withEarlier nameCollision p.createdNames

end Project

/-! ### Tables that join a project -/

inductive ConflictReason where
  | sameId
  | sameName
deriving DecidableEq

def ConflictReason.name : ConflictReason → String
  | sameId => "same_id"
  | sameName => "same_name"

structure NamingConflict where
  newId : String
  newName : String
  existingId : String
  existingName : String
  reason : ConflictReason
deriving DecidableEq

namespace NamingConflict

def error (c : NamingConflict) : SchemaError :=
  .duplicateEntity c.newId <|
    match c.reason with
    | .sameId => "table id already used by '" ++ c.existingName ++ "'"
    | .sameName =>
      "table name '" ++ c.newName ++ "' collides with existing table " ++ c.existingId ++ " ('" ++
        c.existingName ++ "')"

/-- The conflict of a table with those known, latest first. -/
def find? (known : List Table) (t : Table) : Option NamingConflict :=
  match known.find? (·.id == t.id) with
  | some other => some ⟨t.id, t.name, other.id, other.name, .sameId⟩
  | none =>
    (known.find? fun other => Text.lowered other.name == Text.lowered t.name).map fun other =>
      ⟨t.id, t.name, other.id, other.name, .sameName⟩

/-- The conflicts of new tables with those known and with each other; a table in conflict does not
become known. -/
def among (known : List Table) : List Table → List NamingConflict
  | [] => []
  | t :: rest =>
    match find? known t with
    | some conflict => conflict :: among known rest
    | none => among (t :: known) rest

def all (existing incoming : List Table) : List NamingConflict :=
  among existing.reverse incoming

end NamingConflict
end LakeSchema
