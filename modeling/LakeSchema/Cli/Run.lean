import LakeSchema.Cli.Request
import LakeSchema.Cli.Surroundings
import LakeSchema.Document.Load
import LakeSchema.Service.Execution
import LakeSchema.Settings.Text

/-!
# Runs

Carries out a call: reads the settings and the project, does the task, and prints or writes what it
came to. Whatever goes wrong ends the run with one error; notes are printed either way.
-/

namespace LakeSchema.Cli

/-! ### Errors -/

inductive SettingsError where
  | unreadable (fault : FileFault)
  | malformed
deriving DecidableEq

inductive RunError where
  | unreadable (path : String) (fault : FileFault)
  | unwritable (path : String) (fault : FileFault)
  | unreadableInput (fault : FileFault)
  | invalidProject (problems : Nat)
  | load (error : LoadError)
  /-- An error in the settings, which may come from a file that was named. -/
  | settings (path : Option String) (error : SettingsError)
  | compile (errors : List SchemaError)
deriving DecidableEq

def SettingsError.message : SettingsError → String
  | unreadable fault => "IO error: Failed to read config: " ++ fault.message
  | malformed => "Invalid configuration: Failed to parse config"

/-- The message and those of the causes behind it, which say more and more of the same. -/
def loadMessage : LoadError → String
  | .notInFormat .json => "Load error: Invalid JSON"
  | .notInFormat .yaml => "Load error: Invalid YAML"
  | .notAProject error =>
    let cause := "Invalid JSON: " ++ error.message
    "Load error: " ++ cause ++ ": " ++ cause ++ ": " ++ error.message

def RunError.message : RunError → String
  | unreadable path fault => "Failed to read file " ++ path ++ ": " ++ fault.message
  | unwritable path fault => "Failed to write file " ++ path ++ ": " ++ fault.message
  | unreadableInput fault => "Invalid argument: Failed to read stdin: " ++ fault.message
  | invalidProject problems =>
    "Project is invalid: " ++ toString problems ++ " problem(s) found"
  | load error => loadMessage error
  | settings none error => error.message
  | settings (some path) error => "reading configuration " ++ path ++ ": " ++ error.message
  | compile errors => SchemaError.report errors

structure Report where
  status : Nat
  output : String
  notes : String
deriving DecidableEq

namespace Report

def success (output : String) (notes : List String) : Report :=
  ⟨0, output, String.join (notes.map (· ++ "\n"))⟩

/-- Ends with an error, which stands behind the notes. `activity` says what failed by it. -/
def failure (activity : Option String) (error : RunError) (notes : List String) : Report :=
  let lead := match activity with
    | some activity => activity ++ " failed: "
    | none => ""
  ⟨1, "", String.join ((notes ++ ["Error: " ++ lead ++ error.message]).map (· ++ "\n"))⟩

end Report

/-! ### Settings -/

namespace Source

/-- The settings file of the workspace that a source belongs to. -/
def settingsFile : Source → String
  | file path => Path.beside path Settings.fileName
  | standardInput => Settings.fileName

end Source

variable {m : Type → Type} [Monad m]

abbrev Run (m : Type → Type) := ExceptT RunError m

namespace Surroundings

def valuesOf (around : Surroundings m) : List String → m (List (String × String))
  | [] => pure []
  | name :: rest => do
    let value ← around.getVariable name
    let values ← valuesOf around rest
    pure (match value with
      | some text => (name, text) :: values
      | none => values)

def parseSettings (named : Option String) (text : String) : Run m Settings :=
  match Settings.read? text with
  | some s => pure s
  | none => throw (.settings named .malformed)

/-- The settings in a file that was named, or in the one beside the source if it is there. -/
def readSettings (around : Surroundings m) (source : Source) : (named : Option String) →
    Run m Settings
  | some path => do
    match ← around.textOfFile path with
    | .ok text => parseSettings (some path) text
    | .error fault => throw (.settings (some path) (.unreadable fault))
  | none => do
    match ← around.textOfFile source.settingsFile with
    | .ok text => parseSettings none text
    | .error fault =>
      if fault.isAbsence then pure .standard else throw (.settings none (.unreadable fault))

/-- The settings as the environment overrides them. -/
def settings (around : Surroundings m) (source : Source) (named : Option String) :
    Run m Settings := do
  let s ← around.readSettings source named
  let values ← around.valuesOf Settings.variableNames
  pure (s.override fun name => values.lookup name)

/-! ### Projects -/

def readSource (around : Surroundings m) : Source → Run m String
  | .file path => do
    match ← around.textOfFile path with
    | .ok text => pure text
    | .error fault => throw (.unreadable path fault)
  | .standardInput => do
    match ← around.textOfInput with
    | .ok text => pure text
    | .error fault => throw (.unreadableInput fault)

def loadInput (around : Surroundings m) (now : Timestamp) (supply : IdSupply) (input : Input) :
    Run m Loaded := do
  let text ← around.readSource input.source
  match Document.loadText now input.format text supply with
  | .ok (loaded, _) => pure loaded
  | .error error => throw (.load error)

def deliver (around : Surroundings m) (output : Option String) (content : String) : Run m String :=
  match output with
  | none => pure content
  | some path => do
    match ← around.replaceFile path content with
    | .ok () => pure ""
    | .error fault => throw (.unwritable path fault)

end Surroundings

/-! ### Tasks -/

/-- The options of a compilation: what the call overrides counts before the settings. -/
def Overrides.apply (o : Overrides) (options : CompileOptions) : CompileOptions where
  mode := o.mode.getD options.mode
  includeTags := options.includeTags && !o.withoutTags
  catalogName := o.catalog.or options.catalogName
  schemaName := o.schema.or options.schemaName

def ScriptFormat.render : ScriptFormat → List Statement → String
  | sql, statements => Statement.script statements
  | json, statements => (Statement.listToJson statements).pretty ++ "\n"

def warningNotes (loaded : Loaded) : List String :=
  loaded.warnings.map fun warning => "warning: " ++ warning.message

def validLine (p : Project) : String :=
  "Validation successful: " ++ toString p.tables.length ++ " table(s), " ++
    toString p.relationships.length ++ " relationship(s), " ++
    toString (p.metricViews.length + p.traditionalViews.length) ++ " view(s)\n"

def closedLine (text : String) : String :=
  if text.toList.getLast? == some '\n' then text else text ++ "\n"

namespace Surroundings

variable (around : Surroundings m) (now : Timestamp) (supply : IdSupply)

def validate (settings : Option String) (input : Input) : m Report := do
  let start : Run m Loaded := do
    let _ ← around.settings input.source settings
    around.loadInput now supply input
  match ← start with
  | .error error => pure (.failure none error [])
  | .ok loaded =>
    let notes := warningNotes loaded
    match loaded.project.problems with
    | [] => pure (.success (validLine loaded.project) notes)
    | problems =>
      pure (.failure none (.invalidProject problems.length)
        (notes ++ problems.map fun problem => "  - " ++ problem.message))

/-- Loads, compiles and delivers a project under settings that have been read. -/
def compileUnder (s : Settings) (input : Input) (format : ScriptFormat) (overrides : Overrides)
    (output : Option String) : Run m String := do
  let loaded ← around.loadInput now supply input
  match loaded.project.compile (overrides.apply s.toCompileOptions) with
  | .ok statements => around.deliver output (format.render statements)
  | .error errors => throw (.compile errors)

def compile (settings : Option String) (input : Input) (format : ScriptFormat)
    (overrides : Overrides) (output : Option String) : m Report := do
  match ← around.settings input.source settings with
  | .error error => pure (.failure none error [])
  | .ok s =>
    match ← around.compileUnder now supply s input format overrides output with
    | .error error => pure (.failure (some "compilation") error [])
    | .ok text => pure (.success text [])

def reformat (input : Input) (format : DocumentFormat) (output : Option String) : m Report := do
  match ← around.loadInput now supply input with
  | .error error => pure (.failure none error [])
  | .ok loaded =>
    let notes := warningNotes loaded
    match ← around.deliver output (closedLine (loaded.project.render format)) with
    | .error error => pure (.failure none error notes)
    | .ok text => pure (.success text notes)

def run (call : Call) : m Report :=
  match call.task with
  | .validate input => around.validate now supply call.settings input
  | .compile input format overrides output =>
    around.compile now supply call.settings input format overrides output
  | .format input format output => around.reformat now supply input format output

end Surroundings

def usageStatus : Nat :=
  2

def answer (around : Surroundings m) (now : Timestamp) (supply : IdSupply)
    (arguments : List String) : m Report :=
  match Request.read arguments with
  | .ok (.call call) => around.run now supply call
  | .ok (.tell text) => pure (.success text [])
  | .error mistake =>
    pure ⟨usageStatus, "", "error: " ++ mistake.message ++
      "\n\nFor more information, try '--help'.\n"⟩

end LakeSchema.Cli
