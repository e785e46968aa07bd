import LakeSchema.Text.CharClass

/-!
# YAML tags

Tags and their parts as bytes. Most are texts, but the bytes that a tag encodes with percent signs
need not make up characters, and a zero byte ends it.
-/

namespace LakeSchema.Yaml

abbrev Tag := List UInt8

namespace Tag

def ofText (s : String) : Tag :=
  s.toList.flatMap String.utf8EncodeChar

/-- What the tags of the standard begin with. -/
def standardLead : Tag :=
  ofText "tag:yaml.org,2002:"

def standard (name : String) : Tag :=
  standardLead ++ ofText name

/-- The part of a tag that counts. -/
def untilZero (tag : Tag) : Tag :=
  tag.takeWhile (· != 0)

/-- A tag that is local to a document begins with an exclamation mark. -/
def isLocal (tag : Tag) : Bool :=
  tag.head? == some 0x21

/-- Whether the bytes are UTF-8. -/
def isText (tag : Tag) : Bool :=
  (String.fromUTF8? ⟨tag.toArray⟩).isSome

/-! ### Percent encoding -/

/-- The byte that a percent sign and two digits encode. -/
def encodedByte? : List Char → Option Nat
  | '%' :: a :: b :: _ => Text.digits? 16 [a, b]
  | _ => none

/-- How many bytes the first byte of a character announces. -/
def width? (first : Nat) : Option Nat :=
  if first < 0x80 then some 1
  else if first / 0x20 == 0x06 then some 2
  else if first / 0x10 == 0x0E then some 3
  else if first / 0x08 == 0x1E then some 4
  else none

/-- The bytes encoded at the start of a text, where a first byte is followed by as many of the form
of continuations as it announces. Nothing else makes sure that they are a character. -/
def encoded? (cs : List Char) : Option Tag := do
  let first ← encodedByte? cs
  let width ← width? first
  let rest ← (List.range (width - 1)).mapM fun k =>
    (encodedByte? (cs.drop (3 * (k + 1)))).filter (· / 0x40 == 0x02)
  some ((first :: rest).map UInt8.ofNat)

end Tag
end LakeSchema.Yaml
