import LakeSchema.Text.Words

/-!
# Names and identifiers

Which names tables, views and fields may have, how long comments may be, and the storage key under
which a project name is kept. Lengths count the bytes of UTF-8. New entities are numbered from a
supply, and every number gives another identifier in the form of a random UUID.
-/

namespace LakeSchema

/-- Why a name or comment is not accepted; `subject` says what it would have named. -/
inductive NameError where
  | empty (subject : String)
  | tooLong (subject : String) (most actual : Nat)
  | badCharacter (subject : String) (c : Char)
  | qualified (subject : String)
deriving DecidableEq

def NameError.message : NameError → String
  | empty subject => subject ++ " cannot be empty"
  | tooLong subject most actual =>
    subject ++ " exceeds maximum length (max: " ++ toString most ++ ", got: " ++ toString actual ++
      ")"
  | badCharacter subject c =>
    subject ++ " contains invalid characters: invalid character: " ++ Text.quotedChar c
  | qualified subject =>
    subject ++ " contains invalid characters: names must not be qualified"

namespace Name

/-- The longest names of tables, views and fields, and the longest storage keys. -/
def maxLength : Nat :=
  255

def maxCommentLength : Nat :=
  10000

def isForbidden (c : Char) : Bool :=
  Text.isControl c || c == '\x60'

def problem? (subject name : String) : Option NameError :=
  if Text.isBlank name then some (.empty subject)
  else if name.utf8ByteSize > maxLength then
    some (.tooLong subject maxLength name.utf8ByteSize)
  else (name.toList.find? isForbidden).map (.badCharacter subject)

/-- What is wrong with a name for a table or view; dots would qualify it. -/
def tableProblem? (name : String) : Option NameError :=
  (problem? "table name" name).or <|
    if name.toList.contains '.' then some (.qualified "table name") else none

def fieldProblem? (name : String) : Option NameError :=
  problem? "field name" name

def commentProblem? (comment : String) : Option NameError :=
  if comment.utf8ByteSize > maxCommentLength then
    some (.tooLong "comment" maxCommentLength comment.utf8ByteSize)
  else none

end Name

namespace StorageKey

/-- A key in the making, last character first, and whether a dot came last. -/
structure Growth where
  key : List Char
  afterDot : Bool
deriving DecidableEq

namespace Growth

def start : Growth :=
  ⟨[], false⟩

/-- Takes one more character of the name: letters, digits, dashes and underscores stay, of dots in a row
the first one stays, all else becomes an underscore unless the key ends in one. -/
def push (growth : Growth) (c : Char) : Growth :=
  if Text.isAlphanumeric c || c == '-' || c == '_' then ⟨c :: growth.key, false⟩
  else if c == '.' then if growth.afterDot then growth else ⟨c :: growth.key, true⟩
  else if growth.key.head? == some '_' then ⟨growth.key, false⟩
  else ⟨'_' :: growth.key, false⟩

/-- Pushes characters until the key is full. -/
def fill (growth : Growth) : List Char → Growth
  | [] => growth
  | c :: rest =>
    let growth := growth.push c
    if Text.byteSize growth.key ≥ Name.maxLength then growth else fill growth rest

end Growth

def isEdge (c : Char) : Bool :=
  c == '.' || c == '_'

def ofName (name : String) : String :=
  let key := ((Growth.start.fill name.toList).key.dropWhile isEdge).reverse.dropWhile isEdge
  if key.isEmpty then "project" else String.ofList key

end StorageKey

/-- The number of the next identifier. -/
structure IdSupply where
  next : Nat
deriving DecidableEq

namespace IdSupply

/-- The identifier of a number: its hexadecimal digits at the end of an otherwise empty UUID. -/
def idOf (n : Nat) : String :=
  let digits := Text.hexDigits n
  "00000000-0000-4000-8000-" ++
    String.ofList (List.replicate (12 - digits.length) '0' ++ digits)

def fresh (supply : IdSupply) : String × IdSupply :=
  (idOf supply.next, ⟨supply.next + 1⟩)

end IdSupply
end LakeSchema
