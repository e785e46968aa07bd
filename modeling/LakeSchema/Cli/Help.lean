import LakeSchema.Cli.Switch

/-!
# Help

The help of a command, drawn from its form.
-/

namespace LakeSchema.Cli

/-- Two columns, the first as wide as its widest text. -/
def columns (lines : List (String × String)) : String :=
  let width := (lines.map fun line => line.1.length).foldl max 0
  String.join <| lines.map fun (left, right) =>
    let space := String.ofList (List.replicate (width - left.length) ' ')
    "  " ++ left ++ space ++ "  " ++ right ++ "\n"

/-- A part of the help under its title; one without lines is left out. -/
def part (title : String) (lines : List (String × String)) : String :=
  if lines.isEmpty then "" else "\n" ++ title ++ ":\n" ++ columns lines

namespace Switch

def valueName (s : Switch) : String :=
  String.ofList (s.name.toList.map fun c => if c == '-' then '_' else c.toUpper)

def usage (s : Switch) : String :=
  (match s.letter with
    | some c => String.ofList ['-', c, ',', ' ']
    | none => "    ") ++ "--" ++ s.name ++
    if s.takesValue then " <" ++ s.valueName ++ ">" else ""

def explanation (s : Switch) : String :=
  s.purpose ++
    (match s.fallback with
      | some value => " [default: " ++ value ++ "]"
      | none => "") ++
    match s.effect with
    | .choice names => " [possible values: " ++ ", ".intercalate names ++ "]"
    | _ => ""

end Switch

def Form.help (form : Form) (usage : String) (commands : List (String × String)) : String :=
  let operands := form.operand.toList.map fun (name, purpose) => ("<" ++ name ++ ">", purpose)
  form.about ++ "\n\nUsage: " ++ usage ++ "\n" ++ part "Commands" commands ++
    part "Arguments" operands ++
    part "Options" (form.switches.map fun s => (s.usage, s.explanation))

end LakeSchema.Cli
