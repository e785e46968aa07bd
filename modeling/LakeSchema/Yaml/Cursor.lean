import LakeSchema.Text.Words

/-!
# Places in YAML text

Which characters a document may hold, which of them separate, and a cursor that knows its line, its
column and how many bytes are behind it.
-/

namespace LakeSchema.Yaml

/-! ### Characters -/

def isBreak (c : Char) : Bool :=
  c == '\n' || c == '\r' || c.toNat == 0x85 || c.toNat == 0x2028 || c.toNat == 0x2029

/-- White space within a line. -/
def isBlank (c : Char) : Bool :=
  c == ' ' || c == '\t'

/-- White space that separates indicators from what surrounds them. -/
def isSeparator (c : Char) : Bool :=
  isBlank c || isBreak c || c == '\x00'

def isPrintable (c : Char) : Bool :=
  let n := c.toNat
  c == '\n' || (0x20 ≤ n && n ≤ 0x7E) || (0xA0 ≤ n && n ≠ 0xFEFF && n ≠ 0xFFFE && n ≠ 0xFFFF)

/-- A character that may occur in a document at all. -/
def isAllowed (c : Char) : Bool :=
  let n := c.toNat
  n == 0x09 || n == 0x0A || n == 0x0D || (0x20 ≤ n && n ≤ 0x7E) || n == 0x85 ||
    (0xA0 ≤ n && n ≤ 0xFFFD) || 0x10000 ≤ n

def isByteOrderMark (c : Char) : Bool :=
  c.toNat == 0xFEFF

/-- A character of the names of anchors, handles and directives. -/
def isNamePart (c : Char) : Bool :=
  c.isAlphanum || c == '_' || c == '-'

def isFlowIndicator (c : Char) : Bool :=
  c == ',' || c == '[' || c == ']' || c == '\x7b' || c == '\x7d'

/-- A line break as it counts in a text; only the two breaks of Unicode stay themselves. -/
def breakText (c : Char) : Char :=
  if c.toNat == 0x2028 || c.toNat == 0x2029 then c else '\n'

/-! ### Cursors -/

/-- The rest of a document, and where it begins: the index counts bytes of UTF-8, the column
characters of the line. -/
structure Cursor where
  rest : List Char
  index : Nat
  line : Nat
  column : Nat

namespace Cursor

def start (text : String) : Cursor :=
  ⟨text.toList, 0, 0, 0⟩

def next? (c : Cursor) : Option Char :=
  c.rest.head?

def second? (c : Cursor) : Option Char :=
  c.rest[1]?

def atEnd (c : Cursor) : Bool :=
  c.rest.isEmpty

/-- Passes characters that do not end a line. -/
def skip (c : Cursor) (n : Nat) : Cursor :=
  ⟨c.rest.drop n, c.index + Text.byteSize (c.rest.take n), c.line, c.column + n⟩

/-- Passes characters of a class that holds no line break. -/
def skipWhile (c : Cursor) (inside : Char → Bool) : Cursor :=
  c.skip (c.rest.takeWhile inside).length

def skipLine (c : Cursor) : Cursor :=
  c.skipWhile (!isBreak ·)

/-- A line break as it counts in a text, and the cursor behind it. -/
def takeBreak (c : Cursor) : List Char × Cursor :=
  match c.rest with
  | '\r' :: '\n' :: rest => (['\n'], ⟨rest, c.index + 2, c.line + 1, 0⟩)
  | b :: rest => ([breakText b], ⟨rest, c.index + b.utf8Size, c.line + 1, 0⟩)
  | [] => ([], c)

def atBreak (c : Cursor) : Bool :=
  c.next?.any isBreak

/-- Whether white space, a line break or the end comes next. -/
def atSeparator (c : Cursor) : Bool :=
  c.next?.all isSeparator

/-- Whether a line begins here with three marks that stand alone. -/
def atLineOf (c : Cursor) (mark : Char) : Bool :=
  c.column == 0 && [mark, mark, mark].isPrefixOf c.rest && (c.rest[3]?).all isSeparator

/-- Whether the mark that begins or ends a document stands here. -/
def atDocumentMark (c : Cursor) : Bool :=
  c.atLineOf '-' || c.atLineOf '.'

/-- Passes blanks and a comment, which have to fill the rest of the line. -/
def finishLine? (c : Cursor) : Option Cursor :=
  let c := c.skipWhile isBlank
  let c := if c.next? == some '#' then c.skipLine else c
  if c.atBreak then some c.takeBreak.2 else if c.atEnd then some c else none

end Cursor
end LakeSchema.Yaml
