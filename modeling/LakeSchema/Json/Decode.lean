import LakeSchema.Json.Printer
import LakeSchema.Schema.Name

/-!
# Typed reading of JSON values

`Decode α` reads a value of type `α` and may take fresh identifiers on the way. `Fields α` describes
an object by its members: reading reports the first bad member in the order of names, and a missing
one only when all members present are good, in the order of declaration. The same description reads
an array that lists the members in the order of declaration.
-/

namespace LakeSchema

inductive DecodeError where
  | missingField (name : String)
  | invalidType (found : Json) (expected : String)
  | invalidValue (found : Json) (expected : String)
  | invalidLength (length : Nat) (expected : String)
  | unknownVariant (name : String) (known : List String)
  | unreadableTimestamp
deriving DecidableEq

namespace DecodeError

def foundText : Json → String
  | .null => "null"
  | .bool b => "boolean `" ++ (if b then "true" else "false") ++ "`"
  | .number (.whole n) => "integer `" ++ toString n ++ "`"
  | .number (.real x) => "floating point `" ++ Json.numberText (.real x) ++ "`"
  | .string s => "string " ++ Text.quoted s
  | .array _ => "sequence"
  | .object _ => "map"

def knownText (known : List String) : String :=
  match known.map fun name => "`" ++ name ++ "`" with
  | [a, b] => a ++ " or " ++ b
  | names => "one of " ++ ", ".intercalate names

def message : DecodeError → String
  | .missingField name => "missing field `" ++ name ++ "`"
  | .invalidType found expected =>
    "invalid type: " ++ foundText found ++ ", expected " ++ expected
  | .invalidValue found expected =>
    "invalid value: " ++ foundText found ++ ", expected " ++ expected
  | .invalidLength length expected =>
    "invalid length " ++ toString length ++ ", expected " ++ expected
  | .unknownVariant name known => "unknown variant `" ++ name ++ "`, expected " ++ knownText known
  | .unreadableTimestamp => "input contains invalid characters"

end DecodeError

/-- Reading that may take fresh identifiers. -/
abbrev Decode (α : Type) := StateT IdSupply (Except DecodeError) α

namespace Decode

variable {α β : Type}

def fail (error : DecodeError) : Decode α :=
  throw error

def freshId : Decode String :=
  fun supply => .ok supply.fresh

/-! ### Plain values -/

def string : Json → Decode String
  | .string s => pure s
  | found => fail (.invalidType found "a string")

def bool : Json → Decode Bool
  | .bool b => pure b
  | found => fail (.invalidType found "a boolean")

def word32 : Json → Decode UInt32
  | .number (.whole n) =>
    if 0 ≤ n ∧ n < Nat.pow 2 32 then pure (UInt32.ofNat n.toNat)
    else fail (.invalidValue (.number (.whole n)) "u32")
  | found => fail (.invalidType found "u32")

def binary64 : Json → Decode Binary64
  | .number (.whole n) => pure (Binary64.ofInt n)
  | .number (.real x) => pure x
  | found => fail (.invalidType found "f64")

def opaqueValue (value : Json) : Decode Json :=
  pure value

def items (item : Json → Decode α) : List Json → Decode (List α)
  | [] => pure []
  | value :: rest => do
    let first ← item value
    let others ← items item rest
    pure (first :: others)

def list (item : Json → Decode α) : Json → Decode (List α)
  | .array values => items item values
  | found => fail (.invalidType found "a sequence")

def members : Json → Decode Json.Members
  | .object members => pure members
  | found => fail (.invalidType found "a map")

def option (item : Json → Decode α) : Json → Decode (Option α)
  | .null => pure none
  | value => some <$> item value

/-! ### Choices -/

/-- One of the alternatives, each given with all its spellings. -/
def variant (choices : List (α × List String)) (name : String) : Decode α :=
  match choices.find? fun choice => choice.2.contains name with
  | some choice => pure choice.1
  | none => fail (.unknownVariant name (choices.flatMap Prod.snd))

/-- A choice is written as its name, or as the only member of an object with the value null. -/
def choice (choices : List (α × List String)) : Json → Decode α
  | .string name => variant choices name
  | .object [(name, content)] => do
    let chosen ← variant choices name
    match content with
    | .null => pure chosen
    | found => fail (.invalidType found "unit")
  | .object members => fail (.invalidValue (.object members) "map with a single key")
  | found => fail (.invalidType found "string or map")

end Decode

/-! ### Objects -/

inductive FieldsResult (α : Type) where
  | read (value : α)
  | bad (name : String) (error : DecodeError)
  | missing (name : String)

/-- A description of the members of an object, in the order of declaration. -/
structure Fields (α : Type) where
  count : Nat
  ofObject : Json.Members → IdSupply → FieldsResult (α × IdSupply)
  /-- Reads from an array at a position; `expected` describes the whole array in messages. -/
  ofArray : (expected : String) → (position : Nat) → List Json → Decode (α × List Json)

namespace Fields

variable {α β : Type}

def of (value : α) : Fields α where
  count := 0
  ofObject := fun _ supply => .read (value, supply)
  ofArray := fun _ _ values => pure (value, values)

/-- The members of `f` followed by those of `a`. Of two bad members the one with the smaller name
counts, of two missing ones the first. -/
def apply (f : Fields (α → β)) (a : Fields α) : Fields β where
  count := f.count + a.count
  ofObject := fun members supply =>
    match f.ofObject members supply with
    | .read (g, supply) =>
      match a.ofObject members supply with
      | .read (x, supply) => .read (g x, supply)
      | .bad name error => .bad name error
      | .missing name => .missing name
    | .bad name error =>
      match a.ofObject members supply with
      | .bad other error' => if other < name then .bad other error' else .bad name error
      | _ => .bad name error
    | .missing name =>
      match a.ofObject members supply with
      | .bad other error => .bad other error
      | _ => .missing name
  ofArray := fun expected position values => do
    let (g, values) ← f.ofArray expected position values
    let (x, values) ← a.ofArray expected (position + f.count) values
    pure (g x, values)

/-- A single member; `absent` says what stands for it when it is not written. -/
def member (name : String) (value : Json → Decode α) (absent : Option (Decode α)) : Fields α where
  count := 1
  ofObject := fun members supply =>
    match members.get? name, absent with
    | some found, _ =>
      match (value found).run supply with
      | .ok result => .read result
      | .error error => .bad name error
    | none, some absent =>
      match absent.run supply with
      | .ok result => .read result
      | .error error => .bad name error
    | none, none => .missing name
  ofArray := fun expected position values =>
    match values, absent with
    | found :: rest, _ => do
      let x ← value found
      pure (x, rest)
    | [], some absent => do
      let x ← absent
      pure (x, [])
    | [], none => Decode.fail (.invalidLength position expected)

def required (name : String) (value : Json → Decode α) : Fields α :=
  member name value none

/-- A member that takes a value of its own when it is not written. -/
def orElse (name : String) (value : Json → Decode α) (absent : α) : Fields α :=
  member name value (some (pure absent))

/-- A member that may be null or not written at all. -/
def optional (name : String) (value : Json → Decode α) : Fields (Option α) :=
  orElse name (Decode.option value) none

def idOrFresh (name : String) : Fields String :=
  member name Decode.string (some Decode.freshId)

/-- Reads an object or array by a description; `type` is its name in messages. -/
def decode (type : String) (fields : Fields α) : Json → Decode α
  | .object members => fun supply =>
    match fields.ofObject members supply with
    | .read result => .ok result
    | .bad _ error => .error error
    | .missing name => .error (.missingField name)
  | .array values => do
    let expected := "struct " ++ type ++ " with " ++ toString fields.count ++
      (if fields.count == 1 then " element" else " elements")
    let (x, rest) ← fields.ofArray expected 0 values
    if rest.isEmpty then pure x
    else Decode.fail (.invalidLength values.length "fewer elements in array")
  | found => Decode.fail (.invalidType found ("struct " ++ type))

end Fields

end LakeSchema
