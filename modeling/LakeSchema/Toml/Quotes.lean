import LakeSchema.Text.CharClass

/-!
# Quoted TOML texts

Texts stand between quotation marks or apostrophes, one of them or three. Backslashes escape
between quotation marks only, and lines break between three marks only. `Quotes.read?` undoes
every form; `Quotes.written` takes the first that needs no escapes.
-/

namespace LakeSchema.Toml

/-- A control character that may not stand for itself, line breaks apart. -/
def isControl (c : Char) : Bool :=
  (c.toNat < 0x20 && c != '\t' && c != '\n') || c.toNat == 0x7F

structure Quotes where
  mark : Char
  multiline : Bool

namespace Quotes

def quotationMark : Char := '"'

def apostrophe : Char := '\''

def escapes (q : Quotes) : Bool :=
  q.mark == quotationMark

def delimiter (q : Quotes) : List Char :=
  List.replicate (if q.multiline then 3 else 1) q.mark

/-- How many marks may stand side by side in the text. -/
def allowance (q : Quotes) : Nat :=
  if q.multiline then 2 else 0

/-! ### Reading -/

/-- The character of an escape, without the backslash. -/
def escape? : List Char → Option (Char × List Char)
  | 'b' :: rest => some ('\x08', rest)
  | 't' :: rest => some ('\t', rest)
  | 'n' :: rest => some ('\n', rest)
  | 'f' :: rest => some ('\x0c', rest)
  | 'r' :: rest => some ('\r', rest)
  | '"' :: rest => some ('"', rest)
  | '\\' :: rest => some ('\\', rest)
  | letter :: rest => do
    let width ← if letter == 'u' then some 4 else if letter == 'U' then some 8 else none
    let code ← Text.digits? 16 (rest.take width)
    if width ≤ rest.length && code.isValidChar then
      some (Char.ofNat code, rest.drop width)
    else none
  | [] => none

def skipSpace : List Char → List Char
  | '\r' :: '\n' :: rest => skipSpace rest
  | c :: rest => if c == ' ' || c == '\t' || c == '\n' then skipSpace rest else c :: rest
  | [] => []

/-- Whether a line break comes next, blanks apart. -/
def endsLine (cs : List Char) : Bool :=
  match cs.dropWhile fun c => c == ' ' || c == '\t' with
  | '\n' :: _ | '\r' :: '\n' :: _ => true
  | _ => false

/-- The text up to its closing delimiter. A run of marks that closes a text over several lines may
hold two more, which belong to the text. Every round takes at least one character. -/
def body? (q : Quotes) : (rounds : Nat) → List Char → Option (List Char × List Char)
  | 0, _ => none
  | _, [] => none
  | rounds + 1, '\r' :: '\n' :: rest =>
    if q.multiline then (body? q rounds rest).map fun (text, rest) => ('\n' :: text, rest) else none
  | rounds + 1, c :: rest =>
    if c == q.mark then
      let run := (rest.takeWhile (· == q.mark)).length + 1
      if !q.multiline then some ([], rest)
      else if 3 ≤ run then
        some (List.replicate (min (run - 3) 2) c, rest.drop (min run 5 - 1))
      else (body? q rounds (rest.drop (run - 1))).map fun (text, rest) =>
        (List.replicate run c ++ text, rest)
    else if c == '\\' && q.escapes then
      if q.multiline && endsLine rest then body? q rounds (skipSpace rest)
      else do
        let (c, rest) ← escape? rest
        let (text, rest) ← body? q rounds rest
        some (c :: text, rest)
    else if isControl c || (c == '\n' && !q.multiline) then none
    else (body? q rounds rest).map fun (text, rest) => (c :: text, rest)

/-- A text over several lines may begin on the line after its opening marks. -/
def skipFirstBreak : List Char → List Char
  | '\n' :: rest | '\r' :: '\n' :: rest => rest
  | cs => cs

def bodyText? (q : Quotes) (cs : List Char) : Option (String × List Char) :=
  (body? q (cs.length + 1) cs).map fun (text, rest) => (String.ofList text, rest)

def readLine? : List Char → Option (String × List Char)
  | c :: rest =>
    if c == quotationMark || c == apostrophe then bodyText? ⟨c, false⟩ rest else none
  | [] => none

def read? (cs : List Char) : Option (String × List Char) :=
  match cs with
  | '"' :: '"' :: '"' :: rest => bodyText? ⟨quotationMark, true⟩ (skipFirstBreak rest)
  | '\'' :: '\'' :: '\'' :: rest => bodyText? ⟨apostrophe, true⟩ (skipFirstBreak rest)
  | cs => readLine? cs

/-! ### Writing -/

/-- The length of the longest run of a character, behind `run` of them. -/
def longestRun (mark : Char) : (run : Nat) → List Char → Nat
  | run, [] => run
  | run, c :: rest =>
    if c == mark then longestRun mark (run + 1) rest else max run (longestRun mark 0 rest)

/-- Whether a text can stand between these marks as it is. -/
def holds (q : Quotes) (cs : List Char) : Bool :=
  !cs.any isControl && longestRun q.mark 0 cs ≤ q.allowance && (q.multiline || !cs.contains '\n') &&
    !(q.escapes && cs.contains '\\')

/-- The forms in the order of preference. -/
def forms : List Quotes :=
  [⟨quotationMark, false⟩, ⟨apostrophe, false⟩, ⟨quotationMark, true⟩, ⟨apostrophe, true⟩]

/-- The preferred form of a text; one that needs escapes stands between quotation marks. -/
def preferred (cs : List Char) : Quotes :=
  (forms.find? (·.holds cs)).getD ⟨quotationMark, cs.contains '\n'⟩

def escaped (q : Quotes) (c : Char) : List Char :=
  if c == '\x08' then ['\\', 'b']
  else if c == '\t' then ['\\', 't']
  else if c == '\n' then if q.multiline then [c] else ['\\', 'n']
  else if c == '\x0c' then ['\\', 'f']
  else if c == '\r' then ['\\', 'r']
  else if c == '\\' then ['\\', '\\']
  else if isControl c then
    let digits := Text.hexDigits c.toNat
    ['\\', 'u'] ++ List.replicate (4 - digits.length) '0' ++ digits.map Char.toUpper
  else [c]

/-- A text between quotation marks, `run` of which stand in front unescaped. -/
def escapedText (q : Quotes) : (run : Nat) → List Char → List Char
  | _, [] => []
  | run, c :: rest =>
    if c == quotationMark then
      if run < q.allowance then c :: escapedText q (run + 1) rest
      else '\\' :: c :: escapedText q 0 rest
    else q.escaped c ++ escapedText q 0 rest

/-- A text in its preferred form; one with line breaks begins on a line of its own. -/
def written (text : String) : String :=
  let cs := text.toList
  let q := preferred cs
  let opening := if q.multiline && cs.contains '\n' then ['\n'] else []
  let body := if q.escapes then q.escapedText 0 cs else cs
  String.ofList (q.delimiter ++ opening ++ body ++ q.delimiter)

end Quotes
end LakeSchema.Toml
