import LakeSchema.Text.Ranges

/-!
# Character classes and digits

Membership in the character classes that names, queries and messages are read with. Below 128 each
class is given by its ASCII definition; beyond that by the tables of `Text/Ranges.lean`. Digits have
a value, alone and in a row in a base up to sixteen.
-/

namespace LakeSchema.Text

def inRanges (table : Array (Nat × Nat)) (c : Char) : Bool :=
  table.any fun range => range.1 ≤ c.toNat && c.toNat ≤ range.2

/-- The White_Space property. -/
def isSpace (c : Char) : Bool :=
  let n := c.toNat
  (9 ≤ n && n ≤ 13) || n == 32 || n == 0x85 || n == 0xA0 || n == 0x1680 ||
    (0x2000 ≤ n && n ≤ 0x200A) || n == 0x2028 || n == 0x2029 || n == 0x202F || n == 0x205F ||
    n == 0x3000

/-- The general category Cc. -/
def isControl (c : Char) : Bool :=
  c.toNat < 32 || (127 ≤ c.toNat && c.toNat < 160)

/-- A letter or a number of any script. -/
def isAlphanumeric (c : Char) : Bool :=
  if c.toNat < 128 then c.isAlphanum else inRanges Ranges.alphanumeric c

/-- A character that may stand inside a word; word boundaries fall where this changes. -/
def isWordChar (c : Char) : Bool :=
  if c.toNat < 128 then c.isAlphanum || c == '_' else inRanges Ranges.word c

def isCased (c : Char) : Bool :=
  if c.toNat < 128 then c.isAlpha else inRanges Ranges.cased c

def isCaseIgnorable (c : Char) : Bool :=
  if c.toNat < 128 then c == '\'' || c == '.' || c == ':' || c == '^' || c.toNat == 96
  else inRanges Ranges.caseIgnorable c

/-- A character that a quoted text shows as itself. -/
def isVisible (c : Char) : Bool :=
  !inRanges Ranges.invisible c && !inRanges Ranges.graphemeExtend c

/-- An ASCII letter or underscore, the first character of a plain identifier. -/
def isIdentifierStart (c : Char) : Bool :=
  c.isAlpha || c == '_'

/-- An ASCII letter, digit or underscore. -/
def isIdentifierPart (c : Char) : Bool :=
  c.isAlphanum || c == '_'

/-! ### Digits -/

/-- The value of a hexadecimal digit of either case. -/
def digitValue? (c : Char) : Option Nat :=
  if c.isDigit then some (c.toNat - '0'.toNat)
  else if 'a' ≤ c && c ≤ 'f' then some (c.toNat - 'a'.toNat + 10)
  else if 'A' ≤ c && c ≤ 'F' then some (c.toNat - 'A'.toNat + 10)
  else none

/-- Whether a minus comes first, and the text behind the sign, which may be missing. -/
def sign : List Char → Bool × List Char
  | '-' :: rest => (true, rest)
  | '+' :: rest => (false, rest)
  | cs => (false, cs)

def decimalValue (digits : List Char) : Nat :=
  digits.foldl (fun n c => 10 * n + (c.toNat - '0'.toNat)) 0

/-- The number of at least one digit of a base. -/
def digits? (base : Nat) (cs : List Char) : Option Nat :=
  if cs.isEmpty then none
  else
    cs.foldl (fun n c => do
      let n ← n
      let d ← digitValue? c
      if d < base then some (base * n + d) else none) (some 0)

/-- The hexadecimal digits of a number, small letters and no leading zeros. -/
def hexDigits (n : Nat) : List Char :=
  Nat.toDigits 16 n

end LakeSchema.Text
