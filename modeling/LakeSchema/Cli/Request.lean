import LakeSchema.Cli.Help
import LakeSchema.Compile.Ddl
import LakeSchema.Document.Format

/-!
# Requests

What the arguments of the program ask for: checking, compiling or formatting a project, or help.
-/

namespace LakeSchema.Cli

inductive Source where
  | file (path : String)
  | standardInput
deriving DecidableEq

namespace Source

def read (operand : String) : Source :=
  if operand == "-" then standardInput else file operand

def format : Source → DocumentFormat
  | file path => .ofPath path
  | standardInput => .json

end Source

structure Input where
  source : Source
  format : DocumentFormat
deriving DecidableEq

inductive ScriptFormat where
  | sql
  /-- The statements one by one. -/
  | json
deriving DecidableEq

/-- What a call decides about compilation in place of the settings. -/
structure Overrides where
  catalog : Option String
  schema : Option String
  mode : Option CreateMode
  withoutTags : Bool
deriving DecidableEq

inductive Task where
  | validate (input : Input)
  | compile (input : Input) (format : ScriptFormat) (overrides : Overrides)
      (output : Option String)
  | format (input : Input) (format : DocumentFormat) (output : Option String)
deriving DecidableEq

structure Call where
  settings : Option String
  task : Task
deriving DecidableEq

inductive Request where
  | call (call : Call)
  | tell (text : String)
deriving DecidableEq

namespace Request

/-! ### Commands -/

def programName : String :=
  "schema-graph"

def version : String :=
  "0.4.0"

def settingsSwitch : Switch :=
  .named "config" .path "Configuration file (defaults to .schema-graph.toml next to the input)"

def yamlSwitch : Switch :=
  .named "yaml" .flag "Read the input as YAML"

def outputSwitch : Switch :=
  ⟨"output", some 'o', .path, "Write to a file instead of stdout", none⟩

def helpSwitch : Switch :=
  ⟨"help", some 'h', .stop .help, "Print help", none⟩

def versionSwitch : Switch :=
  ⟨"version", some 'V', .stop .version, "Print version", none⟩

def inputOperand : String × String :=
  ("INPUT", "Project file, or '-' for stdin")

def formats : List (String × ScriptFormat) :=
  [("sql", .sql), ("json", .json)]

def modes : List (String × CreateMode) :=
  [ ("create", .create), ("create-or-replace", .createOrReplace),
    ("if-not-exists", .ifNotExists) ]

def programForm : Form where
  name := programName
  about := "Validate, compile and format schema graph projects"
  switches := [settingsSwitch, helpSwitch, versionSwitch]
  operand := none

def validateForm : Form where
  name := "validate"
  about := "Check a project for every problem that would stop compilation"
  switches := [settingsSwitch, yamlSwitch, helpSwitch]
  operand := some inputOperand

def compileForm : Form where
  name := "compile"
  about := "Compile a project into ordered DDL"
  switches :=
    [ settingsSwitch, yamlSwitch,
      ⟨"format", some 'f', .choice (formats.map Prod.fst), "Output format", some "sql"⟩,
      .named "catalog" .text "Target catalog, overriding the project and configuration",
      .named "schema" .text "Target schema, overriding the project and configuration",
      .named "create-mode" (.choice (modes.map Prod.fst))
        "How CREATE statements treat existing objects",
      .named "no-tags" .flag "Skip SET TAGS statements",
      outputSwitch, helpSwitch ]
  operand := some inputOperand

def formatForm : Form where
  name := "fmt"
  about := "Rewrite a project in canonical form"
  switches :=
    [ settingsSwitch, yamlSwitch, .named "to-yaml" .flag "Emit YAML instead of JSON", outputSwitch,
      helpSwitch ]
  operand := some inputOperand

def helpForm : Form where
  name := "help"
  about := "Print this message or the help of the given subcommand(s)"
  switches := []
  operand := none

def taskForms : List Form :=
  [validateForm, compileForm, formatForm]

/-! ### Help -/

def programHelp : String :=
  programForm.help (programName ++ " [OPTIONS] <COMMAND>")
    ((taskForms ++ [helpForm]).map fun form => (form.name, form.about))

def taskHelp (form : Form) : String :=
  form.help (programName ++ " " ++ form.name ++ " [OPTIONS] <INPUT>") []

def helpHelp : String :=
  helpForm.help (programName ++ " help [COMMAND]...") [] ++
    part "Arguments" [("[COMMAND]...", "Print help for the subcommand(s)")]

/-- The help that the words behind the help command ask for. -/
def explain : List String → Except Mistake String
  | [] => .ok programHelp
  | [name] =>
    if name == helpForm.name then .ok helpHelp
    else match taskForms.find? (·.name == name) with
      | some form => .ok (taskHelp form)
      | none => .error (.unknownCommand name)
  | name :: other :: _ =>
    .error (.unknownCommand (if (taskForms.map Form.name).contains name then other else name))

/-! ### Reading -/

/-- The answer to arguments whose reading ended early. -/
def ofStop (help : String) : Stop → Except Mistake Request
  | .help => .ok (.tell help)
  | .version => .ok (.tell (programName ++ " " ++ version ++ "\n"))
  | .mistake mistake => .error mistake

def input (found : Found) (operand : String) : Input :=
  let source := Source.read operand
  ⟨source, if found.has yamlSwitch.name then .yaml else source.format⟩

def overrides (found : Found) : Overrides where
  catalog := found.value? "catalog"
  schema := found.value? "schema"
  mode := (found.value? "create-mode").bind fun name => modes.lookup name
  withoutTags := found.has "no-tags"

def task (form : Form) (found : Found) (operand : String) : Task :=
  let input := input found operand
  let output := found.value? outputSwitch.name
  if form.name == compileForm.name then
    let format := (found.value? "format").bind fun name => formats.lookup name
    .compile input (format.getD .sql) (overrides found) output
  else if form.name == formatForm.name then
    .format input (if found.has "to-yaml" then .yaml else .json) output
  else .validate input

/-- Reads the arguments behind the name of a command. A settings file named there comes before one
named in front of the command. -/
def readTask (form : Form) (settings : Option String) (arguments : List String) :
    Except Mistake Request :=
  match form.read .nothing arguments with
  | .error stop => ofStop (taskHelp form) stop
  | .ok (found, _) =>
    match found.operands with
    | operand :: _ =>
      .ok (.call ⟨(found.value? settingsSwitch.name).or settings, task form found operand⟩)
    | [] => .error .missingOperand

def read (arguments : List String) : Except Mistake Request :=
  match programForm.read .nothing arguments with
  | .error stop => ofStop programHelp stop
  | .ok (_, []) => .error .missingCommand
  | .ok (found, name :: rest) =>
    if name == helpForm.name then (explain rest).map .tell
    else match taskForms.find? (·.name == name) with
      | some form => readTask form (found.value? settingsSwitch.name) rest
      | none => .error (.unknownCommand name)

end Request
end LakeSchema.Cli
