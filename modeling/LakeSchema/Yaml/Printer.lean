import LakeSchema.Json.Printer
import LakeSchema.Yaml.Cursor
import LakeSchema.Yaml.Plain

/-!
# YAML text

The block layout of a value: mappings indented by two spaces, sequences in a mapping not indented
further, texts plain where that is safe. Texts of several lines become literal blocks.
-/

namespace LakeSchema.Yaml

/-! ### What a text admits -/

/-- Each character with the one before and the one after it. -/
def neighboursFrom (before : Option Char) : List Char → List (Option Char × Char × Option Char)
  | [] => []
  | c :: rest => (before, c, rest.head?) :: neighboursFrom (some c) rest

def neighbours (cs : List Char) : List (Option Char × Char × Option Char) :=
  neighboursFrom none cs

/-- Characters that cannot begin a plain text. -/
def openingIndicators : List Char :=
  [',', '[', ']', '\x7b', '\x7d', '&', '*', '!', '|', '>', '\'', '"', '%', '@', '\x60', '#']

/-- Whether a character at its place would be read as an indicator. -/
def isIndicator (place : Option Char × Char × Option Char) : Bool :=
  let (before, c, after) := place
  let blankAfter := after.all isSeparator
  match before with
  | none =>
    openingIndicators.contains c || ((c == '?' || c == ':' || c == '-') && blankAfter)
  | some b => (c == ':' && blankAfter) || (c == '#' && isSeparator b)

/-- What the printer has to know of a text. -/
structure Traits where
  special : Bool
  severalLines : Bool
  edgeBlank : Bool
  trailingSpace : Bool
  breakSpace : Bool
  spaceBreak : Bool
  indicator : Bool

def isEdge (c : Char) : Bool :=
  c == ' ' || isBreak c

def traits (cs : List Char) : Traits :=
  let places := neighbours cs
  { special := cs.any (!isPrintable ·)
    severalLines := cs.any isBreak
    edgeBlank := cs.head?.any isEdge || cs.getLast?.any isEdge
    trailingSpace := cs.getLast? == some ' '
    breakSpace := places.any fun (before, c, _) => before.any isBreak && c == ' '
    spaceBreak := places.any fun (before, c, _) => before == some ' ' && isBreak c
    indicator := ['-', '-', '-'].isPrefixOf cs || ['.', '.', '.'].isPrefixOf cs ||
      places.any isIndicator }

def Traits.plain (t : Traits) : Bool :=
  !t.special && !t.severalLines && !t.edgeBlank && !t.indicator

def Traits.singleQuoted (t : Traits) : Bool :=
  !t.special && !t.breakSpace && !t.spaceBreak

def Traits.literal (t : Traits) : Bool :=
  !t.special && !t.spaceBreak && !t.trailingSpace

/-! ### Styles -/

def spaces (n : Nat) : List Char :=
  List.replicate n ' '

/-- The inside of single quotes: quotes doubled, and what follows a break indented. -/
def singleInside (indent : Nat) (afterBreak : Bool) : List Char → List Char
  | [] => if afterBreak then spaces indent else []
  | c :: rest =>
    if isBreak c then c :: singleInside indent true rest
    else
      (if afterBreak then spaces indent else []) ++ (if c == '\'' then ['\'', '\''] else [c]) ++
        singleInside indent false rest

def hexPadded (width n : Nat) : List Char :=
  let digits := (Nat.toDigits 16 n).map Char.toUpper
  List.replicate (width - digits.length) '0' ++ digits

def shortEscape? (c : Char) : Option Char :=
  match c.toNat with
  | 0x00 => some '0'
  | 0x07 => some 'a'
  | 0x08 => some 'b'
  | 0x09 => some 't'
  | 0x0A => some 'n'
  | 0x0B => some 'v'
  | 0x0C => some 'f'
  | 0x0D => some 'r'
  | 0x1B => some 'e'
  | 0x22 => some '"'
  | 0x5C => some '\\'
  | 0x85 => some 'N'
  | 0xA0 => some '_'
  | 0x2028 => some 'L'
  | 0x2029 => some 'P'
  | _ => none

def escape (c : Char) : List Char :=
  if isPrintable c && !isBreak c && c != '"' && c != '\\' then [c]
  else
    '\\' :: match shortEscape? c with
      | some letter => [letter]
      | none =>
        if c.toNat ≤ 0xFF then 'x' :: hexPadded 2 c.toNat
        else if c.toNat ≤ 0xFFFF then 'u' :: hexPadded 4 c.toNat
        else 'U' :: hexPadded 8 c.toNat

/-- How a literal block ends: with its last line break alone, without it, or with all of them. -/
def chomping (cs : List Char) : List Char :=
  match cs.reverse with
  | last :: rest =>
    if !isBreak last then ['-']
    else match rest with
      | [] => ['+']
      | next :: _ => if isBreak next then ['+'] else []
  | [] => ['-']

/-- The lines of a literal block, each that is not empty indented. -/
def literalLines (indent : Nat) (afterBreak : Bool) : List Char → List Char
  | [] => []
  | c :: rest =>
    if isBreak c then c :: literalLines indent true rest
    else (if afterBreak then spaces indent else []) ++ c :: literalLines indent false rest

def literalText (indent : Nat) (cs : List Char) : List Char :=
  '|' :: (if cs.head?.any isEdge then ['2'] else []) ++ chomping cs ++ '\n' ::
    literalLines indent true cs

/-- A text whose further lines are indented to `indent`; a simple key stands on one line. -/
def textScalar (indent : Nat) (simpleKey : Bool) (s : String) : List Char :=
  let cs := s.toList
  let t := traits cs
  let double := '"' :: cs.flatMap escape ++ ['"']
  if cs.contains '\n' then if t.literal && !simpleKey then literalText indent cs else double
  else if meaning s = .text && !isZeroPadded cs && t.plain then cs
  else if t.singleQuoted then '\'' :: singleInside indent false cs ++ ['\'']
  else double

/-- Texts of one line and at most 128 bytes can be simple keys. -/
def isSimpleKey (name : String) : Bool :=
  !name.toList.any isBreak && name.utf8ByteSize ≤ 128

/-! ### Layout -/

/-- Begins a new line at an indentation, unless the text has just ended one. -/
def newLine (indent : Nat) (text : List Char) : List Char :=
  (if text.getLast?.any isBreak then [] else ['\n']) ++ spaces indent

def lines (indent : Nat) : List (List Char) → List Char
  | [] => []
  | [last] => last
  | first :: rest => first ++ newLine indent first ++ lines indent rest

/-- A key and its mark; a key that is not simple gets a line for itself. -/
def keyText (indent : Nat) (name : String) : List Char :=
  if isSimpleKey name then textScalar (indent + 2) true name ++ [':']
  else
    let key := ['?', ' '] ++ textScalar (indent + 2) false name
    key ++ newLine indent key ++ [':']

/-- Exponents have no plus sign. -/
def numberText : JsonNumber → String
  | .whole n => toString n
  | .real x => x.text ""

mutual

/-- A value on the line of the mark before it, its further lines indented to `indent`. -/
def inlineValue (indent : Nat) : Json → List Char
  | .null => " null".toList
  | .bool b => (if b then " true" else " false").toList
  | .number n => ' ' :: (numberText n).toList
  | .string s => ' ' :: textScalar indent false s
  | .array [] => " []".toList
  | .array (item :: items) => ' ' :: lines indent (itemTexts indent (item :: items))
  | .object [] => " \x7b\x7d".toList
  | .object (member :: members) => ' ' :: lines indent (memberTexts indent (member :: members))

def itemTexts (indent : Nat) : List Json → List (List Char)
  | [] => []
  | item :: rest => ('-' :: inlineValue (indent + 2) item) :: itemTexts indent rest

def memberTexts (indent : Nat) : List (String × Json) → List (List Char)
  | [] => []
  | (name, value) :: rest =>
    let key := keyText indent name
    let text := match value with
      | .array (item :: items) =>
        if isSimpleKey name then
          newLine indent key ++ lines indent (itemTexts indent (item :: items))
        else ' ' :: lines (indent + 2) (itemTexts (indent + 2) (item :: items))
      | .object (member :: members) =>
        if isSimpleKey name then
          newLine (indent + 2) key ++
            lines (indent + 2) (memberTexts (indent + 2) (member :: members))
        else ' ' :: lines (indent + 2) (memberTexts (indent + 2) (member :: members))
      | value => inlineValue (indent + 2) value
    (key ++ text) :: memberTexts indent rest

end

def document (members : Json.Members) : String :=
  let text := match members with
    | [] => "\x7b\x7d".toList
    | members => lines 0 (memberTexts 0 members)
  String.ofList (text ++ if text.getLast?.any isBreak then [] else ['\n'])

end LakeSchema.Yaml
