import LakeSchema.Yaml.Cursor
import LakeSchema.Yaml.Plain

/-!
# The text of scalars

Plain and quoted scalars may go on over several lines, which are folded: a single line break becomes
a space, and of several the first is dropped. Block scalars keep their lines, or fold those that are
not indented further.
-/

namespace LakeSchema.Yaml

/-! ### Folding -/

/-- White space between two words of a scalar: blanks in a line, or line breaks. Texts stand last
character first. -/
structure Gap where
  blanks : List Char
  /-- Whether a line ended in the gap. -/
  broken : Bool
  firstBreak : List Char
  moreBreaks : List Char

namespace Gap

def none : Gap :=
  ⟨[], false, [], []⟩

/-- The gap behind a line break that is escaped and does not count. -/
def escaped : Gap :=
  ⟨[], true, [], []⟩

/-- What the gap becomes in the text, last character first. -/
def folded (g : Gap) : List Char :=
  if !g.broken then g.blanks
  else if g.firstBreak == ['\n'] then if g.moreBreaks.isEmpty then [' '] else g.moreBreaks
  else g.moreBreaks ++ g.firstBreak

def push (g : Gap) (blank : Char) : Gap :=
  if g.broken then g else { g with blanks := blank :: g.blanks }

def pushBreak (g : Gap) (text : List Char) : Gap :=
  if g.broken then { g with moreBreaks := text ++ g.moreBreaks }
  else ⟨[], true, text, g.moreBreaks⟩

/-- Passes white space. Tabs may not stand in front of the column `indent` of a new line. -/
def read? (indent : Nat) : (rounds : Nat) → Gap → Cursor → Option (Gap × Cursor)
  | 0, g, c => some (g, c)
  | rounds + 1, g, c =>
    match c.next? with
    | some b =>
      if isBlank b then
        if g.broken && c.column < indent && b == '\t' then Option.none
        else read? indent rounds (g.push b) (c.skip 1)
      else if isBreak b then read? indent rounds (g.pushBreak c.takeBreak.1) c.takeBreak.2
      else some (g, c)
    | Option.none => some (g, c)

end Gap

/-! ### Plain scalars -/

/-- Whether a plain scalar ends at the cursor, which is not at white space. -/
def endsPlain (inFlow : Bool) (c : Cursor) : Bool :=
  (c.next? == some ':' && (c.second?).all isSeparator) || (inFlow && c.next?.any isFlowIndicator)

/-- Whether a colon stands in front of a flow indicator, where it can be neither text nor mark. -/
def strayColon (inFlow : Bool) (c : Cursor) : Bool :=
  inFlow && c.next? == some ':' && (c.second?).any fun d => isFlowIndicator d || d == '?'

/-- Copies the characters up to the next white space. -/
def plainRun? (inFlow : Bool) : (rounds : Nat) → (text : List Char) → Cursor →
    Option (List Char × Cursor)
  | 0, text, c => some (text, c)
  | rounds + 1, text, c =>
    match c.next? with
    | some x =>
      if isSeparator x then some (text, c)
      else if strayColon inFlow c then none
      else if endsPlain inFlow c then some (text, c)
      else plainRun? inFlow rounds (x :: text) (c.skip 1)
    | none => some (text, c)

structure ScalarText where
  text : List Char
  cursor : Cursor
  /-- Whether the cursor is on a later line than the last character. -/
  lineEnded : Bool

/-- Reads a plain scalar whose further lines are indented to `indent`. -/
def plainFrom? (inFlow : Bool) (indent : Nat) : (rounds : Nat) → (text : List Char) → Gap →
    Cursor → Option ScalarText
  | 0, _, _, _ => none
  | rounds + 1, text, gap, c =>
    if c.atDocumentMark || c.next? == some '#' then some ⟨text.reverse, c, gap.broken⟩
    else do
      let (run, behind) ← plainRun? inFlow c.rest.length [] c
      let text := if run.isEmpty then text else run ++ gap.folded ++ text
      let gap := if run.isEmpty then gap else .none
      if behind.atEnd || !behind.atSeparator then some ⟨text.reverse, behind, gap.broken⟩
      else
        let (gap, c) ← gap.read? indent behind.rest.length behind
        if !inFlow && c.column < indent then some ⟨text.reverse, c, gap.broken⟩
        else plainFrom? inFlow indent rounds text gap c

def plain? (inFlow : Bool) (indent : Nat) (c : Cursor) : Option ScalarText :=
  plainFrom? inFlow indent (c.rest.length + 1) [] .none c

/-! ### Quoted scalars -/

def escapes : List (Char × Nat) :=
  [ ('0', 0x00), ('a', 0x07), ('b', 0x08), ('t', 0x09), ('\t', 0x09), ('n', 0x0A), ('v', 0x0B),
    ('f', 0x0C), ('r', 0x0D), ('e', 0x1B), (' ', 0x20), ('"', 0x22), ('/', 0x2F), ('\\', 0x5C),
    ('N', 0x85), ('_', 0xA0), ('L', 0x2028), ('P', 0x2029) ]

/-- How many hexadecimal digits follow a letter after a backslash. -/
def escapeLength? : Char → Option Nat
  | 'x' => some 2
  | 'u' => some 4
  | 'U' => some 8
  | _ => none

/-- The character of a code in hexadecimal digits. -/
def codePoint? (digits : List Char) : Option Char :=
  (Text.digits? 16 digits).bind fun n =>
    if h : n.isValidChar then some (Char.ofNatAux n h) else none

/-- The character of an escape behind its backslash, and the length of the escape without it. -/
def escaped? (cs : List Char) : Option (Char × Nat) :=
  match cs with
  | [] => none
  | letter :: rest =>
    match escapes.lookup letter, escapeLength? letter with
    | some n, _ => some (Char.ofNat n, 1)
    | none, some length =>
      let digits := rest.take length
      if digits.length < length then none
      else (codePoint? digits).map fun c => (c, length + 1)
    | none, none => none

/-- Copies the characters up to white space, the closing quote or an escaped line break; the answer
says whether it was the last. -/
def quotedRun? (quote : Char) : (rounds : Nat) → (text : List Char) → Cursor →
    Option (List Char × Cursor × Bool)
  | 0, text, c => some (text, c, false)
  | rounds + 1, text, c =>
    match c.next? with
    | none => some (text, c, false)
    | some x =>
      if isSeparator x then some (text, c, false)
      else if x == quote then
        if quote == '\'' && c.second? == some '\'' then
          quotedRun? quote rounds ('\'' :: text) (c.skip 2)
        else some (text, c, false)
      else if quote == '"' && x == '\\' then
        if (c.second?).any isBreak then some (text, (c.skip 1).takeBreak.2, true)
        else do
          let (y, length) ← escaped? (c.rest.drop 1)
          quotedRun? quote rounds (y :: text) (c.skip (length + 1))
      else quotedRun? quote rounds (x :: text) (c.skip 1)

def quotedFrom? (quote : Char) : (rounds : Nat) → (text : List Char) → Cursor → Option ScalarText
  | 0, _, _ => none
  | rounds + 1, text, c =>
    if c.atDocumentMark || c.atEnd then none
    else do
      let (text, c, lineEscaped) ← quotedRun? quote c.rest.length text c
      if c.next? == some quote then some ⟨text.reverse, c.skip 1, false⟩
      else
        let (gap, c) ← (if lineEscaped then Gap.escaped else .none).read? 0 c.rest.length c
        quotedFrom? quote rounds (gap.folded ++ text) c

/-- Reads a scalar from its opening quote on. -/
def quoted? (quote : Char) (c : Cursor) : Option ScalarText :=
  quotedFrom? quote (c.rest.length + 1) [] (c.skip 1)

/-! ### Block scalars -/

/-- What becomes of the line breaks at the end of a block scalar. -/
inductive Chomping where
  | strip
  | clip
  | keep
deriving DecidableEq

structure BlockHeader where
  chomping : Chomping
  /-- How much the lines are indented, or zero when the first line decides. -/
  indentation : Nat

def chomping? : Char → Option Chomping
  | '+' => some .keep
  | '-' => some .strip
  | _ => none

def indentation? (c : Char) : Option Nat :=
  if c.isDigit && c != '0' then some (c.toNat - '0'.toNat) else none

/-- The header of a block scalar behind its indicator; the two parts may stand in either order. -/
def blockHeader (c : Cursor) : BlockHeader × Cursor :=
  match c.next?.bind chomping?, c.next?.bind indentation? with
  | some chomping, _ =>
    match (c.second?).bind indentation? with
    | some n => (⟨chomping, n⟩, c.skip 2)
    | none => (⟨chomping, 0⟩, c.skip 1)
  | none, some n =>
    match (c.second?).bind chomping? with
    | some chomping => (⟨chomping, n⟩, c.skip 2)
    | none => (⟨.clip, n⟩, c.skip 1)
  | none, none => (⟨.clip, 0⟩, c)

/-- The empty lines in front of a line of a block scalar: their breaks, last first, and the widest
indentation met. An indentation of zero is not known yet. -/
structure EmptyLines where
  breaks : List Char
  widest : Nat
  cursor : Cursor

def emptyLines? (indent : Nat) : (rounds : Nat) → EmptyLines → Option EmptyLines
  | 0, lines => some lines
  | rounds + 1, lines =>
    let c := lines.cursor
    let blanks := (c.rest.takeWhile (· == ' ')).length
    let c := c.skip (if indent == 0 then blanks else min blanks (indent - c.column))
    let lines := { lines with widest := max lines.widest c.column, cursor := c }
    if (indent == 0 || c.column < indent) && c.next? == some '\t' then none
    else if c.atBreak then
      emptyLines? indent rounds
        { lines with breaks := c.takeBreak.1 ++ lines.breaks, cursor := c.takeBreak.2 }
    else some lines

/-- What was read of a block scalar: text and line breaks last character first, and whether the last
line began with white space. -/
structure BlockText where
  text : List Char
  lastBreak : List Char
  breaks : List Char
  blankLine : Bool
  cursor : Cursor

/-- Reads the lines at an indentation one after the other. -/
def blockLines? (literal : Bool) (indent : Nat) : (rounds : Nat) → BlockText → Option BlockText
  | 0, b => some b
  | rounds + 1, b =>
    let c := b.cursor
    if c.column != indent || c.atEnd then some b
    else
      let blankLine := c.next?.any isBlank
      let joined :=
        if !literal && b.lastBreak == ['\n'] && !b.blankLine && !blankLine then
          if b.breaks.isEmpty then [' '] else b.breaks
        else b.breaks ++ b.lastBreak
      let line := c.rest.takeWhile (!isBreak ·)
      let (lastBreak, c) := (c.skip line.length).takeBreak
      do
        let lines ← emptyLines? indent c.rest.length ⟨[], 0, c⟩
        blockLines? literal indent rounds
          { text := line.reverse ++ joined ++ b.text
            lastBreak, breaks := lines.breaks, blankLine, cursor := lines.cursor }

/-- Reads a block scalar from its indicator on; `parent` is the indentation around it, if any. -/
def block? (literal : Bool) (parent : Option Nat) (c : Cursor) : Option ScalarText := do
  let (header, c) := blockHeader (c.skip 1)
  let c ← c.finishLine?
  let given := if header.indentation == 0 then 0 else parent.getD 0 + header.indentation
  let lines ← emptyLines? given (c.rest.length + 1) ⟨[], 0, c⟩
  let indent := if given == 0 then max lines.widest ((parent.map (· + 1)).getD 1) else given
  let b ← blockLines? literal (max indent 1) (c.rest.length + 1)
    { text := [], lastBreak := [], breaks := lines.breaks, blankLine := false
      cursor := lines.cursor }
  let tail := match header.chomping with
    | .strip => []
    | .clip => b.lastBreak
    | .keep => b.breaks ++ b.lastBreak
  some ⟨(tail ++ b.text).reverse, b.cursor, true⟩

end LakeSchema.Yaml
