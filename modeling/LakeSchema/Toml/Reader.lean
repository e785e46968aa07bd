import LakeSchema.Toml.Quotes
import LakeSchema.Toml.Scalar

/-!
# Reading TOML

A document is a sequence of lines: entries, headers and blank lines. `Toml.read?` reads the lines
and builds the table that they describe.
-/

namespace LakeSchema.Toml

/-- Arrays and braces nest less deep than this, and keys have fewer names. -/
def depthLimit : Nat :=
  80

/-! ### Space and comments -/

def isBlank (c : Char) : Bool :=
  c == ' ' || c == '\t'

def skipBlanks (cs : List Char) : List Char :=
  cs.dropWhile isBlank

def isCommentPart (c : Char) : Bool :=
  c != '\n' && !isControl c

/-- Passes blanks, line breaks and whole comments. -/
def skipLayout (inComment : Bool) : List Char → Option (List Char)
  | [] => some []
  | '\n' :: rest | '\r' :: '\n' :: rest => skipLayout false rest
  | c :: rest =>
    if inComment then if isCommentPart c then skipLayout true rest else none
    else if isBlank c then skipLayout false rest
    else if c == '#' then skipLayout true rest
    else some (c :: rest)

/-- Passes the rest of a line, which has to be blank or a comment. -/
def finishLine? (cs : List Char) : Option (List Char) :=
  let cs := skipBlanks cs
  let cs := if cs.head? == some '#' then cs.dropWhile isCommentPart else cs
  match cs with
  | [] => some []
  | '\n' :: rest | '\r' :: '\n' :: rest => some rest
  | _ => none

/-! ### Keys -/

def isNamePart (c : Char) : Bool :=
  c.isAlphanum || c == '_' || c == '-'

def name? (cs : List Char) : Option (String × List Char) :=
  let bare := cs.takeWhile isNamePart
  if bare.isEmpty then Quotes.readLine? cs
  else some (String.ofList bare, cs.dropWhile isNamePart)

/-- A key: the names in front of its last dot, and the one behind it. -/
structure Key where
  path : List String
  name : String

/-- The key behind the names of `path`. Every round takes at least one character. -/
def keyBehind? (path : List String) : (rounds : Nat) → List Char → Option (Key × List Char)
  | 0, _ => none
  | rounds + 1, cs => do
    let (name, rest) ← name? (skipBlanks cs)
    match skipBlanks rest with
    | '.' :: rest => keyBehind? (path ++ [name]) rounds rest
    | rest => if path.length + 1 < depthLimit then some (⟨path, name⟩, rest) else none

/-- A key and the blanks behind it. -/
def key? (cs : List Char) : Option (Key × List Char) :=
  keyBehind? [] cs.length cs

/-! ### Values -/

/-- A reader of something that a text begins with. -/
abbrev Reads (α : Type) := List Char → Option (α × List Char)

/-- The items of an array up to its closing bracket; a comma may follow the last one. -/
def items? (item : Reads Value) : (rounds : Nat) → Reads (List Value)
  | 0, _ => none
  | rounds + 1, cs => do
    match ← skipLayout false cs with
    | ']' :: rest => some ([], rest)
    | cs => do
      let (value, rest) ← item cs
      match ← skipLayout false rest with
      | ',' :: rest => do
        let (values, rest) ← items? item rounds rest
        some (value :: values, rest)
      | ']' :: rest => some ([value], rest)
      | _ => none

def assignment? (value : Reads Value) : Reads (Key × Value) := fun cs => do
  let (key, rest) ← key? cs
  let '=' :: rest := rest | none
  let (found, rest) ← value (skipBlanks rest)
  some ((key, found), rest)

/-- The entries up to the closing brace, added to those read before. -/
def entries? (value : Reads Value) (found : Entries) : (rounds : Nat) → Reads Entries
  | 0, _ => none
  | rounds + 1, cs => do
    let ((key, entry), rest) ← assignment? value cs
    let found ← define? key.path key.name entry .inline found
    match skipBlanks rest with
    | ',' :: rest => entries? value found rounds rest
    | '\x7d' :: rest => some (found, rest)
    | _ => none

/-- The value that begins here, with arrays and braces nested less than `depth` deep. -/
def value? : (depth : Nat) → Reads Value
  | 0, _ => none
  | depth + 1, cs =>
    match cs with
    | '"' :: _ | '\'' :: _ => (Quotes.read? cs).map fun (text, rest) => (.string text, rest)
    | '[' :: rest =>
      if depth = 0 then none
      else (items? (value? depth) (rest.length + 1) rest).map fun (values, rest) =>
        (.array values, rest)
    | '\x7b' :: rest =>
      if depth = 0 then none
      else match skipBlanks rest with
        | '\x7d' :: rest => some (.table .inline [], rest)
        | rest => (entries? (value? depth) [] (rest.length + 1) rest).map fun (entries, rest) =>
          (.table .inline entries, rest)
    | cs => Scalar.read? cs

/-! ### Lines -/

inductive Line where
  | blank
  | entry (key : Key) (value : Value)
  | header (key : Key)
  | rowHeader (key : Key)

/-- A header without its opening brackets. -/
def header? (line : Key → Line) (closing : List Char) : Reads Line := fun cs => do
  let (key, rest) ← key? cs
  if closing.isPrefixOf rest then some (line key, rest.drop closing.length) else none

def content? (cs : List Char) : Option (Line × List Char) :=
  match cs with
  | '[' :: '[' :: rest => header? .rowHeader [']', ']'] rest
  | '[' :: rest => header? .header [']'] rest
  | [] | '\n' :: _ | '\r' :: _ | '#' :: _ => some (.blank, cs)
  | cs => (assignment? (value? depthLimit) cs).map fun ((key, value), rest) =>
    (.entry key value, rest)

/-- The lines of a text. Every round takes at least one character. -/
def lines? : (rounds : Nat) → List Char → Option (List Line)
  | _, [] => some []
  | 0, _ => none
  | rounds + 1, cs => do
    let (line, rest) ← content? (skipBlanks cs)
    let rest ← finishLine? rest
    let lines ← lines? rounds rest
    some (line :: lines)

/-! ### Documents -/

/-- A document, and the path of the table that entries go to. -/
structure Document where
  entries : Entries
  current : List String

namespace Document

def empty : Document :=
  ⟨[], []⟩

def add? (d : Document) : Line → Option Document
  | .blank => some d
  | .entry key value =>
    let change := define? key.path key.name value
    (descend? .header change d.current .header d.entries).map fun entries =>
      ⟨entries, d.current⟩
  | .header key =>
    (openTable? key.path key.name .header d.entries).map fun entries =>
      ⟨entries, key.path ++ [key.name]⟩
  | .rowHeader key =>
    (openRow? key.path key.name .header d.entries).map fun entries =>
      ⟨entries, key.path ++ [key.name]⟩

end Document

/-- The text without a byte order mark in front. -/
def withoutMark (cs : List Char) : List Char :=
  match cs with
  | c :: rest => if c.toNat == 0xFEFF then rest else cs
  | [] => []

def read? (text : String) : Option Entries := do
  let cs := withoutMark text.toList
  let lines ← lines? cs.length cs
  let document ← lines.foldlM Document.add? .empty
  some document.entries

end LakeSchema.Toml
