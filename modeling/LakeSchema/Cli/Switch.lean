/-!
# Switches

How the arguments of a command are read: switches by name or letter, some of them with a value, and
operands between them. Arguments are read from left to right, and the first that does not fit, or
that asks for help, ends the reading.
-/

namespace LakeSchema.Cli

inductive Mistake where
  | unknown (argument : String)
  | missingValue (switch : String)
  | badValue (switch value : String)
  | unwantedValue (switch : String)
  | repeated (switch : String)
  | surplus (operand : String)
  | missingOperand
  | missingCommand
  | unknownCommand (name : String)
deriving DecidableEq

namespace Mistake

def message : Mistake → String
  | unknown argument => "unexpected argument '" ++ argument ++ "' found"
  | missingValue switch => "a value is required for '--" ++ switch ++ "' but none was supplied"
  | badValue switch value => "invalid value '" ++ value ++ "' for '--" ++ switch ++ "'"
  | unwantedValue switch => "unexpected value for '--" ++ switch ++ "' found; no more were expected"
  | repeated switch => "the argument '--" ++ switch ++ "' cannot be used multiple times"
  | surplus operand => "unexpected argument '" ++ operand ++ "' found"
  | missingOperand => "the following required arguments were not provided:\n  <INPUT>"
  | missingCommand => "a subcommand is required but one was not provided"
  | unknownCommand name => "unrecognized subcommand '" ++ name ++ "'"

end Mistake

/-- Why reading ends before the last argument. -/
inductive Stop where
  | help
  | version
  | mistake (mistake : Mistake)
deriving DecidableEq

inductive Effect where
  | stop (reason : Stop)
  | flag
  | text
  /-- A path, which is not empty. -/
  | path
  | choice (names : List String)
deriving DecidableEq

structure Switch where
  name : String
  letter : Option Char
  effect : Effect
  purpose : String
  /-- What holds without the switch, where help tells it. -/
  fallback : Option String

/-- A switch without a letter. -/
def Switch.named (name : String) (effect : Effect) (purpose : String) : Switch :=
  ⟨name, none, effect, purpose, none⟩

namespace Switch

def takesValue (s : Switch) : Bool :=
  match s.effect with
  | .stop _ | .flag => false
  | .text | .path | .choice _ => true

def accepts (s : Switch) (value : String) : Bool :=
  match s.effect with
  | .stop _ | .flag => value == ""
  | .text => true
  | .path => value != ""
  | .choice names => names.contains value

end Switch

/-- The switches and operands read so far; a flag has an empty value. -/
structure Found where
  values : List (String × String)
  operands : List String

namespace Found

def nothing : Found :=
  ⟨[], []⟩

def value? (found : Found) (name : String) : Option String :=
  found.values.lookup name

def has (found : Found) (name : String) : Bool :=
  (found.value? name).isSome

/-- Adds a switch, which may be given once. -/
def give (found : Found) (s : Switch) (value : String) : Except Stop Found :=
  match s.effect with
  | .stop reason => .error reason
  | _ =>
    if found.has s.name then .error (.mistake (.repeated s.name))
    else if s.accepts value then .ok { found with values := (s.name, value) :: found.values }
    else .error (.mistake (.badValue s.name value))

end Found

/-- The arguments that a command takes. A command without an operand leaves all from the first word
on to another. -/
structure Form where
  name : String
  about : String
  switches : List Switch
  operand : Option (String × String)

namespace Form

/-- A switch by its name, with the value behind an equals sign. A switch that still wants a value is
handed back. -/
def long (form : Form) (found : Found) (argument : List Char) :
    Except Stop (Found × Option Switch) := do
  let name := String.ofList (argument.takeWhile (· != '='))
  let behind := argument.dropWhile (· != '=')
  let some s := form.switches.find? (·.name == name)
    | .error (.mistake (.unknown ("--" ++ String.ofList argument)))
  if s.takesValue then
    if behind.isEmpty then .ok (found, some s)
    else do
      let found ← found.give s (String.ofList (behind.drop 1))
      .ok (found, none)
  else if behind.isEmpty then do
    let found ← found.give s ""
    .ok (found, none)
  else .error (.mistake (.unwantedValue name))

/-- Switches by their letters; what follows the letter of one with a value is the value. -/
def short (form : Form) : (found : Found) → List Char → Except Stop (Found × Option Switch)
  | found, [] => .ok (found, none)
  | found, c :: rest => do
    let some s := form.switches.find? (·.letter == some c)
      | .error (.mistake (.unknown (String.ofList ['-', c])))
    if s.takesValue then
      if rest.isEmpty then .ok (found, some s)
      else do
        let value := if rest.head? == some '=' then rest.drop 1 else rest
        let found ← found.give s (String.ofList value)
        .ok (found, none)
    else do
      let found ← found.give s ""
      form.short found rest

/-- Whether an argument is a switch and not a word; a single dash is a word. -/
def isSwitch (argument : String) : Bool :=
  argument.toList.head? == some '-' && argument != "-"

def switch (form : Form) (found : Found) (argument : String) :
    Except Stop (Found × Option Switch) :=
  match argument.toList with
  | '-' :: '-' :: rest => form.long found rest
  | rest => form.short found (rest.drop 1)

/-- Adds operands, of which a command takes one. -/
def operands (found : Found) : List String → Except Stop Found
  | [] => .ok found
  | word :: rest =>
    if found.operands.isEmpty then operands { found with operands := [word] } rest
    else .error (.mistake (.surplus word))

/-- Reads arguments. Behind a double dash all are operands. -/
def read (form : Form) : (found : Found) → List String → Except Stop (Found × List String)
  | found, [] => .ok (found, [])
  | found, argument :: rest =>
    if argument == "--" || !isSwitch argument then
      if form.operand.isNone then .ok (found, argument :: rest)
      else if argument == "--" then do
        let found ← operands found rest
        .ok (found, [])
      else do
        let found ← operands found [argument]
        form.read found rest
    else do
      match ← form.switch found argument, rest with
      | (found, none), rest => form.read found rest
      | (found, some s), value :: rest =>
        if isSwitch value then .error (.mistake (.missingValue s.name))
        else do
          let found ← found.give s value
          form.read found rest
      | (_, some s), [] => .error (.mistake (.missingValue s.name))

end Form
end LakeSchema.Cli
