import LakeSchema.Document.Encode
import LakeSchema.Text.Words
import LakeSchema.Yaml.Printer

/-!
# Document formats

Project documents are kept as JSON or YAML, as the path of a file tells. Paths are names between
slashes; empty names and single dots lead nowhere and do not count. `Project.render` writes the
canonical text of a project.
-/

namespace LakeSchema.Path

def pieces (path : String) : List (List Char) :=
  path.toList.splitOn '/'

def isAbsolute (path : String) : Bool :=
  path.toList.head? == some '/'

def names (path : String) : List (List Char) :=
  (pieces path).filter fun name => name != [] && name != ['.']

def fileName (path : String) : List Char :=
  (names path).getLast?.getD []

/-- What stands after the last dot of a file name that does not begin with it. -/
def extension? (path : String) : Option String :=
  let name := fileName path
  let ending := name.reverse.takeWhile (· != '.')
  if name == ['.', '.'] || ending.length + 1 ≥ name.length then none
  else some (String.ofList ending.reverse)

/-- The path of a file beside the one at `path`. Beside the root there is nothing, so the working
directory takes its place. -/
def beside (path file : String) : String :=
  let names := names path
  let root := if isAbsolute path && !names.isEmpty then [[]] else [['.']]
  String.ofList (['/'].intercalate (root ++ names.dropLast ++ [file.toList]))

end LakeSchema.Path

namespace LakeSchema

inductive DocumentFormat where
  | json
  | yaml
deriving DecidableEq

namespace DocumentFormat

def name : DocumentFormat → String
  | json => "json"
  | yaml => "yaml"

def spellings : List (DocumentFormat × List String) :=
  [(json, ["json"]), (yaml, ["yaml"])]

/-- A format as a user may write it. -/
def read (text : String) : Except String DocumentFormat :=
  match Text.lowered text with
  | "json" => .ok .json
  | "yaml" | "yml" => .ok .yaml
  | _ => .error ("Unknown project format: " ++ text ++ ". Use 'json' or 'yaml'.")

/-- The format that the extension of a path implies, which is JSON unless it stands for YAML. -/
def ofPath (path : String) : DocumentFormat :=
  match Path.extension? path with
  | some ending =>
    if Text.sameIgnoringCase ending "yaml" || Text.sameIgnoringCase ending "yml" then .yaml
    else .json
  | none => .json

end DocumentFormat

def Project.render (p : Project) : DocumentFormat → String
  | .json => p.toJson.pretty
  | .yaml => Yaml.document (p.toJson.asObject?.getD [])

end LakeSchema
