import LakeSchema.Settings.Basic
import LakeSchema.Toml.Reader

/-!
# Settings files

Settings are written in three sections. Whatever a file does not set keeps its standard, and names
that mean nothing are passed over; a value of the wrong kind spoils the file.
-/

namespace LakeSchema

namespace Toml.Value

/-- The parts of a value by their names, if it has parts. The items of an array go by the names in
the order given, and none of the names is a part of a moment. -/
def parts? (names : List String) : Value → Option Entries
  | .table _ entries => some entries
  | .array items => some (names.zip items)
  | .rows tables => some (names.zip (tables.map (.table .header)))
  | .moment => some []
  | .string _ | .boolean _ | .integer _ | .real => none

/-- A section of a document, which is empty when it is not written. -/
def section? (document : Entries) (name : String) (names : List String) : Option Entries :=
  match document.get? name with
  | some value => value.parts? names
  | none => some []

def string? : Value → Option String
  | .string s => some s
  | _ => none

def boolean? : Value → Option Bool
  | .boolean b => some b
  | _ => none

def isEmpty : Value → Bool
  | .table _ entries => entries.isEmpty
  | .array items => items.isEmpty
  | _ => false

/-- A choice is written as its name, or as the only name in a table that is given no content. -/
def choice? {α : Type} (choices : List (α × List String)) (value : Value) : Option α := do
  let name ← match value with
    | .string s => some s
    | .table _ [(name, content)] => if content.isEmpty then some name else none
    | _ => none
  let choice ← choices.find? fun choice => choice.2.contains name
  some choice.1

/-- A part of a section, or what stands for it when it is not written. -/
def partOr {α : Type} (entries : Entries) (name : String) (read : Value → Option α) (absent : α) :
    Option α :=
  match entries.get? name with
  | some value => read value
  | none => some absent

end Toml.Value

namespace Settings

open Toml.Value in
def ofDocument? (document : Toml.Entries) : Option Settings := do
  let target ← section? document "target" ["catalog", "schema"]
  let ddl ← section? document "ddl" ["create_mode", "include_tags"]
  let keys ← section? document "foreign_keys" ["origin_policy"]
  let catalogName ← partOr target "catalog" (fun v => v.string?.map some) standard.catalogName
  let schemaName ← partOr target "schema" (fun v => v.string?.map some) standard.schemaName
  let mode ← partOr ddl "create_mode" (choice? CreateMode.spellings) standard.mode
  let includeTags ← partOr ddl "include_tags" boolean? standard.includeTags
  let originPolicy ←
    partOr keys "origin_policy" (choice? OriginPolicy.spellings) standard.originPolicy
  some { mode, includeTags, catalogName, schemaName, originPolicy }

def read? (text : String) : Option Settings :=
  (Toml.read? text).bind ofDocument?

/-- The line of a setting that has a value. -/
def line (name : String) (value : Option String) : String :=
  match value with
  | some text => name ++ " = " ++ text ++ "\n"
  | none => ""

def text (s : Settings) : String :=
  "[target]\n" ++
    line "catalog" (s.catalogName.map Toml.Quotes.written) ++
    line "schema" (s.schemaName.map Toml.Quotes.written) ++
  "\n[ddl]\n" ++
    line "create_mode" (Toml.Quotes.written s.mode.name) ++
    line "include_tags" (if s.includeTags then "true" else "false") ++
  "\n[foreign_keys]\n" ++
    line "origin_policy" (Toml.Quotes.written s.originPolicy.name)

/-- A file to begin with. It sets what holds anyway. -/
def sample : String :=
  "\n".intercalate [
    "# Schema Graph SDK Configuration",
    "",
    "[target]",
    "# Override the catalog and schema stored in the project",
    "# catalog = \"main\"",
    "# schema = \"sales\"",
    "",
    "[ddl]",
    "# \"create\", \"create_or_replace\" (default) or \"if_not_exists\"",
    "create_mode = \"create_or_replace\"",
    "",
    "# Emit ALTER ... SET TAGS statements for tags and logical names",
    "include_tags = true",
    "",
    "[foreign_keys]",
    "# \"explicit\" (default): trust the origin recorded on each foreign key",
    "# \"name_match\": treat a foreign key as linked while its name equals the primary key's",
    "origin_policy = \"explicit\"",
    ""]

end Settings
end LakeSchema
