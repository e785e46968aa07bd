import LakeSchema.Text.CharClass
import LakeSchema.Text.CaseTable

/-!
# Letter case

Full case mapping of texts, with the final form of sigma at the end of a word, and comparison that
ignores the case of ASCII letters only.
-/

namespace LakeSchema.Text

def mapByRuns (runs : Array (Nat × Nat × Nat × Nat)) (c : Char) : Option Char :=
  let n := c.toNat
  (runs.find? fun (first, last, step, _) => first ≤ n && n ≤ last && (n - first) % step == 0).map
    fun (first, _, _, target) => Char.ofNat (target + (n - first))

def mapByExpansions (expansions : Array (Nat × List Nat)) (c : Char) : Option (List Char) :=
  (expansions.find? fun entry => entry.1 == c.toNat).map fun entry => entry.2.map Char.ofNat

/-- The lower case form of a character that stands alone. -/
def lowerChar (c : Char) : List Char :=
  if c.toNat < 128 then [c.toLower]
  else (mapByExpansions CaseTable.lowerExpansions c).getD
    [(mapByRuns CaseTable.lowerRuns c).getD c]

def upperChar (c : Char) : List Char :=
  if c.toNat < 128 then [c.toUpper]
  else (mapByExpansions CaseTable.upperExpansions c).getD
    [(mapByRuns CaseTable.upperRuns c).getD c]

/-- Whether the first character that case rules do not look through has a case. -/
def casedAhead (cs : List Char) : Bool :=
  (cs.dropWhile isCaseIgnorable).head?.any isCased

/-- Lower case of `cs`, where `before` holds the characters already passed, nearest first. -/
def lowerFrom (before : List Char) : List Char → List Char
  | [] => []
  | c :: rest =>
    let lowered :=
      if c == 'Σ' then if casedAhead before && !casedAhead rest then ['ς'] else ['σ']
      else lowerChar c
    lowered ++ lowerFrom (c :: before) rest

def lower (cs : List Char) : List Char :=
  lowerFrom [] cs

def upper (cs : List Char) : List Char :=
  cs.flatMap upperChar

/-- Lower case by the full mapping. -/
def lowered (s : String) : String :=
  String.ofList (lower s.toList)

/-- Upper case by the full mapping. -/
def uppered (s : String) : String :=
  String.ofList (upper s.toList)

/-- Lower case of the ASCII letters alone. -/
def asciiLowered (s : String) : String :=
  String.ofList (s.toList.map Char.toLower)

/-- Equality up to the case of ASCII letters. -/
def sameIgnoringCase (a b : String) : Bool :=
  asciiLowered a == asciiLowered b

end LakeSchema.Text
