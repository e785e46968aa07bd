import LakeSchema.Yaml.ScalarText
import LakeSchema.Yaml.Tag

/-!
# YAML tokens

A document as a list of tokens, in which block collections have explicit ends. Whether a scalar or
collection is a key shows only at the colon behind it. So every place where a key may begin gets a
candidate token of its own, and `Scan.finish` keeps the candidates that turned out to be keys.
-/

namespace LakeSchema.Yaml

inductive Token where
  | version (major minor : Nat)
  | tagDirective (handle : String) (lead : Tag)
  | documentStart
  | documentEnd
  | streamEnd
  | blockSequence
  | blockMapping
  | blockEnd
  | flowSequence
  | flowSequenceEnd
  | flowMapping
  | flowMappingEnd
  | blockEntry
  | flowEntry
  | key
  | value
  | aliasOf (name : String)
  | anchor (name : String)
  | tag (handle : String) (suffix : Tag)
  | scalar (text : String) ( isPlain : Bool)
  /-- A place where a key may begin. -/
  | candidate (number : Nat)
deriving DecidableEq

/-- A key that may have begun, and where. -/
structure Candidate where
  number : Nat
  line : Nat
  index : Nat
  column : Nat
  /-- Whether nothing but a key can stand there. -/
  required : Bool

/-- What the first characters of a document were cut into. -/
structure Scan where
  cursor : Cursor
  /-- The latest token first. -/
  tokens : List Token
  /-- The columns of the open block collections, innermost first. -/
  indents : List Nat
  /-- The candidate of each open flow collection, innermost first, and that of the block context. -/
  candidates : List (Option Candidate)
  keyAllowed : Bool
  /-- How many candidates there were. -/
  count : Nat
  /-- The candidates that are keys, and whether a block mapping begins with them. -/
  keys : List (Nat × Bool)

namespace Scan

def start (text : String) : Scan :=
  ⟨.start text, [], [], [none], true, 0, []⟩

def inFlow (s : Scan) : Bool :=
  1 < s.candidates.length

def push (s : Scan) (token : Token) : Scan :=
  { s with tokens := token :: s.tokens }

def moved (s : Scan) (c : Cursor) : Scan :=
  { s with cursor := c }

def allowing (s : Scan) (allowed : Bool) : Scan :=
  { s with keyAllowed := allowed }

/-! ### Indentation -/

/-- Ends the block collections that are indented further than a column; nothing ends all. -/
def unroll (s : Scan) (column : Option Nat) : Scan :=
  if s.inFlow then s
  else
    let closing := s.indents.takeWhile fun indent => column.all (· < indent)
    { s with
      indents := s.indents.drop closing.length
      tokens := closing.map (fun _ => .blockEnd) ++ s.tokens }

/-- Whether a block collection begins when its first entry is at a column. -/
def opens (s : Scan) (column : Nat) : Bool :=
  !s.inFlow && s.indents.head?.all (· < column)

/-- Begins a block collection at the cursor unless one is open there. -/
def roll (s : Scan) (token : Token) : Scan :=
  if s.opens s.cursor.column then
    { s.push token with indents := s.cursor.column :: s.indents }
  else s

/-! ### Candidates -/

/-- Gives up a candidate; one that is required has to become a key. -/
def dropped? : Option Candidate → Option (Option Candidate)
  | some candidate => if candidate.required then none else some none
  | none => some none

/-- Whether a key cannot end at the cursor any more: it has to be on one line and at most 1024 bytes
long. -/
def isStale (c : Cursor) (candidate : Candidate) : Bool :=
  candidate.line < c.line || candidate.index + 1024 < c.index

def dropStale? (s : Scan) : Option Scan := do
  let candidates ← s.candidates.mapM fun candidate =>
    if candidate.any (isStale s.cursor) then dropped? candidate else some candidate
  some { s with candidates }

def dropLast? (s : Scan) : Option Scan :=
  match s.candidates with
  | last :: outer => (dropped? last).map fun last => { s with candidates := last :: outer }
  | [] => some s

/-- Notes that a key may begin at the cursor. -/
def note? (s : Scan) : Option Scan :=
  if s.keyAllowed then do
    let s ← s.dropLast?
    let c := s.cursor
    let candidate : Candidate :=
      ⟨s.count, c.line, c.index, c.column, !s.inFlow && s.indents.head? == some c.column⟩
    some
      { s.push (.candidate s.count) with
        candidates := some candidate :: s.candidates.drop 1
        count := s.count + 1 }
  else some s

/-! ### Between tokens -/

/-- Passes white space, comments and line breaks. Tabs count as white space where no key may begin.
In the block context a key may begin on every line. -/
def toNext : (rounds : Nat) → Scan → Scan
  | 0, s => s
  | rounds + 1, s =>
    let c := s.cursor
    let c := if c.column == 0 && c.next?.any isByteOrderMark then c.skip 1 else c
    let c := c.skipWhile fun x => x == ' ' || (x == '\t' && (s.inFlow || !s.keyAllowed))
    let c := if c.next? == some '#' then c.skipLine else c
    if c.atBreak then
      toNext rounds ((s.moved c.takeBreak.2).allowing (s.keyAllowed || !s.inFlow))
    else s.moved c

/-! ### Directives -/

def number? (c : Cursor) : Option (Nat × Cursor) :=
  let digits := c.rest.takeWhile Char.isDigit
  if digits.length > 9 then none
  else (Text.digits? 10 digits).map fun n => (n, c.skip digits.length)

/-- A handle: an exclamation mark, and a name between two of them. A directive admits no name that
lacks the second one. -/
def handle? (inDirective : Bool) (c : Cursor) : Option (List Char × Cursor) :=
  if c.next? != some '!' then none
  else
    let name := (c.rest.drop 1).takeWhile isNamePart
    let behind := c.skip (name.length + 1)
    if behind.next? == some '!' then some ('!' :: name ++ ['!'], behind.skip 1)
    else if inDirective && !name.isEmpty then none
    else some ('!' :: name, behind)

def uriMarks : List Char :=
  ";/?:@&=+$.%!~*'()".toList

/-- Reads a URI; brackets and commas belong to it only where nothing else can end it. -/
def uriFrom? (verbatim : Bool) : (rounds : Nat) → (uri : Tag) → Cursor → Option (Tag × Cursor)
  | 0, uri, c => some (uri.reverse, c)
  | rounds + 1, uri, c =>
    match c.next? with
    | some '%' => do
      let bytes ← Tag.encoded? c.rest
      uriFrom? verbatim rounds (bytes.reverse ++ uri) (c.skip (3 * bytes.length))
    | some x =>
      if isNamePart x || uriMarks.contains x ||
          (verbatim && (x == ',' || x == '[' || x == ']')) then
        uriFrom? verbatim rounds (UInt8.ofNat x.toNat :: uri) (c.skip 1)
      else some (uri.reverse, c)
    | none => some (uri.reverse, c)

def uri? (verbatim : Bool) (c : Cursor) : Option (Tag × Cursor) :=
  uriFrom? verbatim (c.rest.length + 1) [] c

/-- The directive of a name, whose values follow. -/
def directive? (name : List Char) (c : Cursor) : Option (Token × Cursor) := do
  let c := c.skipWhile isBlank
  if name == "YAML".toList then
    let (major, c) ← number? c
    if c.next? != some '.' then none
    let (minor, c) ← number? (c.skip 1)
    some (.version major minor, c)
  else if name == "TAG".toList then
    let (handle, c) ← handle? true c
    if !c.next?.any isBlank then none
    let (uri, c) ← uri? true (c.skipWhile isBlank)
    if uri.isEmpty || !c.atSeparator then none
    some (.tagDirective (String.ofList handle) uri.untilZero, c)
  else none

def directiveLine? (s : Scan) : Option Scan := do
  let s ← (s.unroll none).dropLast?
  let c := s.cursor.skip 1
  let name := c.rest.takeWhile isNamePart
  let c := c.skip name.length
  if name.isEmpty || !c.atSeparator then none
  let (token, c) ← directive? name c
  let c ← c.finishLine?
  some (((s.push token).moved c).allowing false)

/-! ### Anchors and tags -/

/-- Whether an anchor or alias may end at the cursor. -/
def endsName (c : Cursor) : Bool :=
  c.atSeparator || c.next?.any fun x => "?:,]%@".toList.contains x || x == '\x7d' || x == '\x60'

/-- The name behind the mark of an anchor or alias. -/
def name? (c : Cursor) : Option (String × Cursor) :=
  let name := (c.rest.drop 1).takeWhile isNamePart
  let behind := c.skip (name.length + 1)
  if name.isEmpty || !endsName behind then none else some (String.ofList name, behind)

/-- A tag by a handle and the rest. A lone exclamation mark is a rest without handle. -/
def tagText? (c : Cursor) : Option ((String × Tag) × Cursor) :=
  if c.second? == some '<' then do
    let (uri, c) ← uri? true (c.skip 2)
    if uri.isEmpty || c.next? != some '>' then none
    some (("", uri.untilZero), c.skip 1)
  else do
    let (handle, behind) ← handle? false c
    let (uri, c) ← uri? false behind
    if handle.length > 1 && handle.getLast? == some '!' then
      if uri.isEmpty then none else some ((String.ofList handle, uri.untilZero), c)
    else
      let suffix := Tag.untilZero (Tag.ofText (String.ofList (handle.drop 1)) ++ uri)
      some (if suffix.isEmpty then ("", Tag.ofText "!") else ("!", suffix), c)

def tag? (s : Scan) : Option (Token × Cursor) := do
  let ((handle, suffix), c) ← tagText? s.cursor
  if c.atSeparator || (s.inFlow && c.next? == some ',') then some (.tag handle suffix, c) else none

/-! ### Tokens -/

/-- A token that a key may begin with. -/
def content? (s : Scan) (read : Scan → Option (Token × Cursor)) : Option Scan := do
  let s ← s.note?
  let (token, c) ← read s
  some (((s.push token).moved c).allowing false)

/-- The mark of a document at the start of a line. -/
def documentMark? (s : Scan) (token : Token) : Option Scan := do
  let s ← (s.unroll none).dropLast?
  some (((s.push token).moved (s.cursor.skip 3)).allowing false)

def openFlow? (s : Scan) (token : Token) : Option Scan := do
  let s ← s.note?
  some <| ({ s.push token with candidates := none :: s.candidates }.moved
    (s.cursor.skip 1)).allowing true

def closeFlow? (s : Scan) (token : Token) : Option Scan := do
  let s ← s.dropLast?
  let candidates := if s.inFlow then s.candidates.drop 1 else s.candidates
  some (({ s.push token with candidates }.moved (s.cursor.skip 1)).allowing false)

def flowEntry? (s : Scan) : Option Scan := do
  let s ← s.dropLast?
  some (((s.push .flowEntry).moved (s.cursor.skip 1)).allowing true)

/-- A dash. In a flow collection it is left to the grammar to refuse it. -/
def blockEntry? (s : Scan) : Option Scan := do
  if !s.inFlow && !s.keyAllowed then none
  let s ← (s.roll .blockSequence).dropLast?
  some (((s.push .blockEntry).moved (s.cursor.skip 1)).allowing true)

/-- A question mark in front of a key. -/
def explicitKey? (s : Scan) : Option Scan := do
  if !s.inFlow && !s.keyAllowed then none
  let s ← (s.roll .blockMapping).dropLast?
  some (((s.push .key).moved (s.cursor.skip 1)).allowing !s.inFlow)

/-- A colon, which makes the innermost candidate a key if there is one. -/
def value? (s : Scan) : Option Scan :=
  match s.candidates with
  | some candidate :: outer =>
    let opens := s.opens candidate.column
    some
      { s.push .value with
        cursor := s.cursor.skip 1
        candidates := none :: outer
        keys := (candidate.number, opens) :: s.keys
        indents := if opens then candidate.column :: s.indents else s.indents
        keyAllowed := false }
  | _ => do
    if !s.inFlow && !s.keyAllowed then none
    let s := s.roll .blockMapping
    some (((s.push .value).moved (s.cursor.skip 1)).allowing !s.inFlow)

def blockScalar? (s : Scan) (literal : Bool) : Option Scan := do
  let s ← s.dropLast?
  let scalar ← block? literal s.indents.head? s.cursor
  some (((s.push (.scalar (String.ofList scalar.text) false)).moved scalar.cursor).allowing true)

def quotedScalar? (s : Scan) (quote : Char) : Option Scan :=
  s.content? fun s =>
    (quoted? quote s.cursor).map fun scalar =>
      (.scalar (String.ofList scalar.text) false, scalar.cursor)

/-- A plain scalar; when it ends with a line a key may begin behind it. -/
def plainScalar? (s : Scan) : Option Scan := do
  let s ← s.note?
  let indent := (s.indents.head?.map (· + 1)).getD 0
  let scalar ← plain? s.inFlow indent s.cursor
  some (((s.push (.scalar (String.ofList scalar.text) true)).moved scalar.cursor).allowing
    scalar.lineEnded)

/-- The characters that no plain scalar begins with unless one of them is followed by text. -/
def indicators : List Char :=
  "-?:,[]#&*!|>'\"%@".toList ++ ['\x60', '\x7b', '\x7d']

def startsPlain (s : Scan) (x : Char) : Bool :=
  let c := s.cursor
  !(isSeparator x || indicators.contains x) ||
    (x == '-' && !(c.second?).any isBlank) ||
    (!s.inFlow && (x == '?' || x == ':') && !(c.second?).all isSeparator)

/-- The token at the cursor, which stands at the character `x`. -/
def tokenAt? (s : Scan) (x : Char) : Option Scan :=
  let c := s.cursor
  let standsAlone := (c.second?).all isSeparator
  if c.column == 0 && x == '%' then s.directiveLine?
  else if c.atLineOf '-' then s.documentMark? .documentStart
  else if c.atLineOf '.' then s.documentMark? .documentEnd
  else if x == '[' then s.openFlow? .flowSequence
  else if x == '\x7b' then s.openFlow? .flowMapping
  else if x == ']' then s.closeFlow? .flowSequenceEnd
  else if x == '\x7d' then s.closeFlow? .flowMappingEnd
  else if x == ',' then s.flowEntry?
  else if x == '-' && standsAlone then s.blockEntry?
  else if x == '?' && (s.inFlow || standsAlone) then s.explicitKey?
  else if x == ':' && (s.inFlow || standsAlone) then s.value?
  else if x == '*' then
    s.content? fun s => (name? s.cursor).map fun (name, c) => (.aliasOf name, c)
  else if x == '&' then
    s.content? fun s => (name? s.cursor).map fun (name, c) => (.anchor name, c)
  else if x == '!' then s.content? tag?
  else if x == '|' && !s.inFlow then s.blockScalar? true
  else if x == '>' && !s.inFlow then s.blockScalar? false
  else if x == '\'' || x == '"' then s.quotedScalar? x
  else if s.startsPlain x then s.plainScalar?
  else none

/-- Cuts the rest of a document into tokens; every round takes at least one character. -/
def run? : (rounds : Nat) → Scan → Option Scan
  | 0, _ => none
  | rounds + 1, s => do
    let s := toNext (s.cursor.rest.length + 1) s
    let s ← s.dropStale?
    let s := s.unroll (some s.cursor.column)
    match s.cursor.next? with
    | none => (s.unroll none).dropLast?.map (·.push .streamEnd)
    | some x => run? rounds (← s.tokenAt? x)

/-- The tokens in their order, each candidate replaced by what it turned out to be. -/
def finish (s : Scan) : List Token :=
  s.tokens.reverse.flatMap fun
    | .candidate number =>
      match s.keys.lookup number with
      | some true => [.blockMapping, .key]
      | some false => [.key]
      | none => []
    | token => [token]

end Scan

/-- The tokens of a document; nothing when some of its text is no token. -/
def tokens? (text : String) : Option (List Token) :=
  if text.toList.all isAllowed then
    (Scan.run? (text.length + 1) (.start text)).map Scan.finish
  else none

end LakeSchema.Yaml
