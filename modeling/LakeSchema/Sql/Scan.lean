import LakeSchema.Text.CharClass

/-!
# Scanning SQL text

Word boundaries and keywords in any case, as the checks and the qualification of queries look for them.
-/

namespace LakeSchema.Sql

/-- Whether a word may begin behind a character, that is, no word runs through. -/
def wordEndsAt (before : Option Char) : Bool :=
  !before.any Text.isWordChar

/-- Whether a letter matches an upper case ASCII letter in any case. The long s and the Kelvin sign
are other forms of S and K. -/
def isLetter (letter c : Char) : Bool :=
  c.toUpper == letter || (letter == 'S' && c == 'ſ') || (letter == 'K' && c.toNat == 0x212A)

/-- The text of a keyword in any case and the rest after it. -/
def keyword? : (word cs : List Char) → Option (List Char × List Char)
  | [], cs => some ([], cs)
  | _ :: _, [] => none
  | letter :: word, c :: cs =>
    if isLetter letter c then (keyword? word cs).map fun (found, rest) => (c :: found, rest)
    else none

/-- A keyword after which no word character follows. -/
def wholeKeyword? (word : String) (cs : List Char) : Option (List Char × List Char) :=
  (keyword? word.toList cs).filter fun found => wordEndsAt found.2.head?

/-- The first keyword of a list that stands as a word of its own somewhere in the text. -/
def findKeyword? (words : List String) : (before : Option Char) → List Char → Option (List Char)
  | _, [] => none
  | before, c :: rest =>
    let here := if wordEndsAt before then words.findSome? (wholeKeyword? · (c :: rest)) else none
    (here.map Prod.fst).or (findKeyword? words (some c) rest)

/-- A letter or underscore that an unquoted name in a query may begin with. -/
def isQueryNameStart (c : Char) : Bool :=
  Text.isIdentifierStart c || c == 'ſ' || c.toNat == 0x212A

def isQueryNamePart (c : Char) : Bool :=
  isQueryNameStart c || c.isDigit

end LakeSchema.Sql
