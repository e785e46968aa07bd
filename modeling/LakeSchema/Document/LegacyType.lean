import LakeSchema.Schema.Field
import LakeSchema.Text.Case

/-!
# Type texts

Older documents write the parameters of a type as text, apart from the type (`10,2`) or inside it
(`DECIMAL(10,2)`, `ARRAY<STRING>`, `INTERVAL DAY TO SECOND`). `TypeParameters.ofText?` gives such a
text its structure, and `TypeText.ofText` takes a type text apart.
-/

namespace LakeSchema

namespace Text

/-- Cuts at the commas outside all parentheses and angle brackets. `current` holds the piece that
is being read, last character first. -/
def topLevelFrom (depth : Nat) (current : List Char) : List Char → List (List Char)
  | [] => [trim current.reverse]
  | c :: rest =>
    if c == '(' || c == '<' then topLevelFrom (depth + 1) (c :: current) rest
    else if c == ')' || c == '>' then topLevelFrom (depth - 1) (c :: current) rest
    else if c == ',' && depth == 0 then trim current.reverse :: topLevelFrom 0 [] rest
    else topLevelFrom depth (c :: current) rest

def topLevel (cs : List Char) : List (List Char) :=
  topLevelFrom 0 [] cs

/-- A number of decimal digits below `2 ^ 32`, with or without a plus sign in front. -/
def word32? (cs : List Char) : Option UInt32 :=
  let digits := (after? ['+'] cs).getD cs
  if !digits.all Char.isDigit then none
  else (digits? 10 digits).bind fun n => if n < Nat.pow 2 32 then some (UInt32.ofNat n) else none

def cutAtSpace? : List Char → Option (List Char × List Char)
  | [] => none
  | c :: rest =>
    if isSpace c then some ([], rest)
    else (cutAtSpace? rest).map fun (left, right) => (c :: left, right)

end Text

namespace StructMember

/-- A member written `name: type` or `name type`. -/
def ofText? (cs : List Char) : Option StructMember := do
  let (name, type) ← (Text.cutAt? ':' cs).or (Text.cutAtSpace? cs)
  let name := Text.trim name
  let type := Text.trim type
  if name.isEmpty || type.isEmpty then none
  else some ⟨String.ofList name, String.ofList (Text.upper type)⟩

end StructMember

namespace TypeParameters

/-- The structure of a parameter text for a type keyword; nothing when the text does not fit. -/
def ofText? (keyword text : String) : Option TypeParameters :=
  let cs := Text.trim text.toList
  if cs.isEmpty then none
  else
    match keyword with
    | "DECIMAL" | "DEC" | "NUMERIC" =>
      match Text.topLevel cs with
      | [precision] => (Text.word32? precision).map fun precision => .decimal precision 0
      | [precision, scale] => do
        let precision ← Text.word32? precision
        let scale ← Text.word32? scale
        some (.decimal precision scale)
      | _ => none
    | "VARCHAR" | "CHAR" => (Text.word32? cs).map .length
    | "ARRAY" => some (.element (String.ofList (Text.upper cs)))
    | "MAP" =>
      match Text.topLevel cs with
      | [key, value] =>
        some (.keyValue (String.ofList (Text.upper key)) (String.ofList (Text.upper value)))
      | _ => none
    | "STRUCT" => ((Text.topLevel cs).mapM StructMember.ofText?).map .struct
    | "INTERVAL" => some (.qualifier (String.ofList (Text.upper cs)))
    | "GEOGRAPHY" | "GEOMETRY" => (Text.word32? cs).map .srid
    | _ => none

end TypeParameters

structure TypeText where
  keyword : String
  parameters : Option String
deriving DecidableEq

namespace TypeText

def isOpening (c : Char) : Bool :=
  c == '(' || c == '<'

/-- A keyword with parameters in brackets at the end. -/
def bracketed? (cs : List Char) : Option TypeText :=
  match cs.dropWhile (!isOpening ·) with
  | [] => none
  | opening :: rest =>
    (Text.before? [if opening == '(' then ')' else '>'] rest).map fun inner =>
      { keyword := String.ofList (Text.upper (Text.trim (cs.takeWhile (!isOpening ·))))
        parameters := some (String.ofList (Text.trim inner)) }

/-- The parts of a type text. The qualifier of an interval stands after a blank. -/
def ofText (text : String) : TypeText :=
  let cs := Text.trim text.toList
  (bracketed? cs).getD <|
    let upper := Text.upper cs
    match Text.after? "INTERVAL ".toList upper with
    | some qualifier => ⟨"INTERVAL", some (String.ofList (Text.trim qualifier))⟩
    | none => ⟨String.ofList upper, none⟩

end TypeText
end LakeSchema
