import LakeSchema.Json.Value
import LakeSchema.Text.CharClass
import LakeSchema.Text.Words

/-!
# Plain scalars

What an unquoted YAML scalar denotes: null, a truth value, a number, or its own text. The printer
quotes a text that would not denote itself.
-/

namespace LakeSchema.Yaml

inductive Meaning where
  | text
  | value (value : Json)
  /-- A whole number that fits 128 bits but not 64, which JSON values do not hold. -/
  | tooLarge
deriving DecidableEq

def nullWords : List String :=
  ["", "~", "null", "Null", "NULL"]

def trueWords : List String :=
  ["true", "True", "TRUE"]

def falseWords : List String :=
  ["false", "False", "FALSE"]

/-! ### Whole numbers -/

/-- The base that the letters after a zero stand for. -/
def baseOf? : List Char → Option (Nat × List Char)
  | '0' :: 'x' :: rest => some (16, rest)
  | '0' :: 'o' :: rest => some (8, rest)
  | '0' :: 'b' :: rest => some (2, rest)
  | _ => none

/-- More than one digit, the first of them a zero; such a scalar is a text. -/
def isZeroPadded (cs : List Char) : Bool :=
  match (Text.sign cs).2 with
  | '0' :: rest => !rest.isEmpty && rest.all Char.isDigit
  | _ => false

/-- A whole number in decimal, hexadecimal, octal or binary digits. -/
def whole? (cs : List Char) : Option Int :=
  let (negative, digits) := Text.sign cs
  let size := match baseOf? digits with
    | some (base, rest) => Text.digits? base rest
    | none => if isZeroPadded cs then none else Text.digits? 10 digits
  size.map fun n => if negative then -n else n

/-! ### Doubles -/

def infinityWords : List String :=
  [".inf", ".Inf", ".INF"]

def nanWords : List String :=
  [".nan", ".NaN", ".NAN"]

/-- An infinity or a number that is none. -/
def isUnbounded (text : String) : Bool :=
  nanWords.contains text || infinityWords.any fun word =>
    text == word || text == "+" ++ word || text == "-" ++ word

/-- The exponent that a number text ends with. -/
def exponent? : List Char → Option Int
  | [] => some 0
  | c :: rest =>
    if c == 'e' || c == 'E' then
      let (negative, digits) := Text.sign rest
      if digits.isEmpty || !digits.all Char.isDigit then none
      else (Text.digits? 10 digits).map fun n => if negative then -n else n
    else none

/-- A number with a point or an exponent, or too large to be whole, as the nearest double. -/
def real? (cs : List Char) : Option Binary64 :=
  let (negative, rest) := Text.sign cs
  let before := rest.takeWhile Char.isDigit
  let rest := rest.dropWhile Char.isDigit
  let after := match rest with
    | '.' :: rest => rest.takeWhile Char.isDigit
    | _ => []
  let rest := match rest with
    | '.' :: rest => rest.dropWhile Char.isDigit
    | rest => rest
  if before.isEmpty && after.isEmpty then none
  else do
    let exponent ← exponent? rest
    let digits ← Text.digits? 10 (before ++ after)
    Binary64.ofDecimal? negative digits (exponent - after.length)

/-! ### Meaning -/

def wholeMeaning (n : Int) : Option Meaning :=
  if -(Nat.pow 2 63 : Int) ≤ n ∧ n < Nat.pow 2 64 then some (.value (.number (.whole n)))
  else if -(Nat.pow 2 127 : Int) ≤ n ∧ n < Nat.pow 2 128 then some .tooLarge
  else none

def meaning (text : String) : Meaning :=
  let cs := text.toList
  if nullWords.contains text then .value .null
  else if trueWords.contains text then .value (.bool true)
  else if falseWords.contains text then .value (.bool false)
  else
    match (whole? cs).bind wholeMeaning with
    | some meaning => meaning
    | none =>
      if isZeroPadded cs then .text
      else if isUnbounded text then .value .null
      else match real? cs with
        | some x => .value (.number (.real x))
        | none => .text

end LakeSchema.Yaml
