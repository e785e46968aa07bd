import LakeSchema.Document.Encode
import LakeSchema.Document.LegacyType
import LakeSchema.Schema.LegacyTag
import LakeSchema.Time.Reader

/-!
# Normalising documents

Older project documents differ from the canonical form in their timestamps, type parameters,
foreign keys, tags and missing identifiers. `Document.normalise` brings a raw document into that
form and lists a warning for every value that could not be kept.
-/

namespace LakeSchema

inductive Warning where
  | notAnObject
  | timestampReplaced (label member text : String)
  | parametersDropped (table field text keyword : String)
  | keyTextDropped (table field text : String)
  | referenceDropped (table field : String) (target : Location)
deriving DecidableEq

def Warning.message : Warning → String
  | notAnObject => "project document is not an object"
  | timestampReplaced label member text =>
    label ++ ": unreadable " ++ member ++ " '" ++ text ++ "' replaced"
  | parametersDropped table field text keyword =>
    table ++ "." ++ field ++ ": dropped type parameters '" ++ text ++ "' not valid for " ++ keyword
  | keyTextDropped table field text =>
    table ++ "." ++ field ++ ": foreign key '" ++ text ++ "' does not resolve and was dropped"
  | referenceDropped table field target =>
    table ++ "." ++ field ++ ": foreign key to missing field " ++ target.table ++ "." ++
      target.field ++ " was dropped"

namespace Document

open Json (Members)

/-- The text of a member; nothing when it is missing or no text. -/
def textOf? (name : String) (value : Json) : Option String :=
  (value.member? name).bind Json.asString?

def memberText (name : String) (members : Members) : String :=
  ((members.get? name).bind Json.asString?).getD ""

def inItems (name : String) (change : Json → Json × List Warning) (members : Members) :
    Members × List Warning :=
  match members.get? name with
  | some (.array items) =>
    let results := items.map change
    (members.put name (.array (results.map Prod.fst)), results.flatMap Prod.snd)
  | _ => (members, [])

def inObject (change : Members → Members × List Warning) : Json → Json × List Warning
  | .object members => (.object (change members).1, (change members).2)
  | value => (value, [])

/-! ### Timestamps -/

/-- The canonical text of a timestamp member. An unreadable one is replaced with a warning, one
that is missing or no text without. -/
def timestamp (now : Timestamp) (label name : String) (members : Members) :
    Members × List Warning :=
  match members.get? name with
  | some (.string text) =>
    match Timestamp.read? text with
    | some t => (members.put name (.time t), [])
    | none => (members.put name (.time now), [.timestampReplaced label name text])
  | _ => (members.put name (.time now), [])

def timestamps (now : Timestamp) (label : String) (members : Members) : Members × List Warning :=
  let (members, created) := timestamp now label "created_at" members
  let (members, updated) := timestamp now label "updated_at" members
  (members, created ++ updated)

/-- Both timestamps of an entry, which warnings call by its identifier. -/
def entryTimestamps (now : Timestamp) (members : Members) : Members × List Warning :=
  timestamps now (((members.get? "id").bind Json.asString?).getD "?") members

/-! ### Tags -/

/-- Tags listed as texts become a map, and null stands for no tags. -/
def tags (members : Members) : Members :=
  match members.get? "tags" with
  | some (.array entries) =>
    members.put "tags" (LegacyTag.mapOf (entries.filterMap Json.asString?)).toJson
  | some .null => members.erase "tags"
  | _ => members

/-! ### Identifiers -/

def assignId (members : Members) (supply : IdSupply) : Members × IdSupply :=
  match members.get? "id" with
  | some _ => (members, supply)
  | none => (members.put "id" (.string supply.fresh.1), supply.fresh.2)

def assignFieldIds : List Json → IdSupply → List Json × IdSupply
  | [], supply => ([], supply)
  | .object members :: rest, supply =>
    let (members, supply) := assignId members supply
    let (others, supply) := assignFieldIds rest supply
    (.object members :: others, supply)
  | value :: rest, supply =>
    let (others, supply) := assignFieldIds rest supply
    (value :: others, supply)

/-- Gives a table and its fields the identifiers that they lack. -/
def assignTableIds (members : Members) (supply : IdSupply) : Members × IdSupply :=
  let (members, supply) := assignId members supply
  match members.get? "fields" with
  | some (.array fields) =>
    let (fields, supply) := assignFieldIds fields supply
    (members.put "fields" (.array fields), supply)
  | _ => (members, supply)

def assignIds : List Json → IdSupply → List Json × IdSupply
  | [], supply => ([], supply)
  | .object members :: rest, supply =>
    let (members, supply) := assignTableIds members supply
    let (others, supply) := assignIds rest supply
    (.object members :: others, supply)
  | value :: rest, supply =>
    let (others, supply) := assignIds rest supply
    (value :: others, supply)

/-! ### Foreign keys -/

/-- Identifiers of a table and of its fields under their names in lower case. -/
structure TableNames where
  name : String
  id : String
  fields : List (String × String)
deriving DecidableEq

def fieldName? (field : Json) : Option (String × String) := do
  let name ← textOf? "name" field
  let id ← textOf? "id" field
  some (Text.lowered name, id)

def tableNames? (table : Json) : Option TableNames := do
  let id ← textOf? "id" table
  let name ← textOf? "name" table
  let fields := ((table.member? "fields").bind Json.asArray?).getD []
  some ⟨Text.lowered name, id, fields.filterMap fieldName?⟩

/-- A name without the backticks around it. -/
def bare (cs : List Char) : String :=
  let isTick := fun c : Char => c == '\x60'
  String.ofList ((cs.dropWhile isTick).reverse.dropWhile isTick).reverse

def lastTwo? (text : String) : Option (String × String) :=
  match ((Text.trim text.toList).splitOn '.').reverse with
  | field :: table :: _ => some (bare table, bare field)
  | _ => none

/-- The field that a dotted text names: of tables with one name the first counts, of fields the
last. -/
def resolve? (index : List TableNames) (text : String) : Option Location := do
  let (table, field) ← lastTwo? text
  let names ← index.find? (·.name == Text.lowered table)
  let entry ← names.fields.reverse.find? (·.1 == Text.lowered field)
  some ⟨names.id, entry.2⟩

/-- A reference written as dotted text becomes one by identifiers, or is dropped. -/
def foreignKey (index : List TableNames) (table field : String) (members : Members) :
    Members × List Warning :=
  match members.get? "foreign_key_reference" with
  | some (.string text) =>
    match resolve? index text with
    | some target =>
      let reference : Json :=
        .object [("referenced_field_id", .string target.field),
          ("referenced_table_id", .string target.table)]
      ((members.put "foreign_key_reference" reference).put "is_foreign_key" (.bool true), [])
    | none =>
      ((members.erase "foreign_key_reference").put "is_foreign_key" (.bool false),
        [.keyTextDropped table field text])
  | _ => (members, [])

/-! ### Types -/

/-- The parameter text of a field before its type text is looked at. -/
def parameterText? (members : Members) : Option String :=
  (members.get? "type_parameters").bind Json.asString?

/-- A type text becomes a keyword; the parameters inside it count when the field has no parameter
text of its own. -/
def dataType (members : Members) : Members × Option String :=
  match members.get? "data_type" with
  | some (.string text) =>
    let type := TypeText.ofText text
    (members.put "data_type" (.string type.keyword), (parameterText? members).or type.parameters)
  | _ => (members, parameterText? members)

/-- A parameter text becomes structured parameters, or is dropped with a warning unless blank. -/
def typeParameters (table field : String) (text : Option String) (members : Members) :
    Members × List Warning :=
  match text with
  | none => (members, [])
  | some text =>
    let keyword := memberText "data_type" members
    match TypeParameters.ofText? keyword text with
    | some parameters => (members.put "type_parameters" parameters.toJson, [])
    | none =>
      (members.erase "type_parameters",
        if Text.isBlank text then [] else [.parametersDropped table field text keyword])

/-! ### Tables and documents -/

def field (index : List TableNames) (table : String) (members : Members) :
    Members × List Warning :=
  let members := tags members
  let name := memberText "name" members
  let (members, text) := dataType members
  let (members, dropped) := typeParameters table name text members
  let (members, unresolved) := foreignKey index table name members
  (members, dropped ++ unresolved)

def table (index : List TableNames) (members : Members) : Members × List Warning :=
  let members := tags members
  inItems "fields" (inObject (field index (memberText "name" members))) members

/-- Normalises the tables of a document once they all have identifiers. -/
def tables (members : Members) (supply : IdSupply) : Members × List Warning × IdSupply :=
  match members.get? "tables" with
  | some (.array items) =>
    let (items, supply) := assignIds items supply
    let (members, warnings) :=
      inItems "tables" (inObject (table (items.filterMap tableNames?)))
        (members.put "tables" (.array items))
    (members, warnings, supply)
  | _ => (members, [], supply)

/-- The lists of a document whose entries carry timestamps. -/
def timestamped : List String :=
  ["tables", "relationships", "metric_views", "traditional_views", "metric_relationships"]

def viewTags (members : Members) : Members :=
  ["metric_views", "traditional_views"].foldl
    (fun members name => (inItems name (inObject fun entry => (tags entry, [])) members).1) members

def listTimestamps (now : Timestamp) : List String → Members → Members × List Warning
  | [], members => (members, [])
  | name :: rest, members =>
    let (members, first) := inItems name (inObject (entryTimestamps now)) members
    let (members, others) := listTimestamps now rest members
    (members, first ++ others)

/-- The canonical form of a raw document, with the warnings in the order in which they arose. -/
def normalise (now : Timestamp) (document : Json) (supply : IdSupply) :
    Json × List Warning × IdSupply :=
  match document with
  | .object members =>
    let (members, root) := timestamps now "project" members
    let (members, inTables, supply) := tables members supply
    let (members, inLists) := listTimestamps now timestamped (viewTags members)
    (.object members, root ++ inTables ++ inLists, supply)
  | value => (value, [.notAnObject], supply)

end Document
end LakeSchema
