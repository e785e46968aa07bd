import LakeSchema.Json.Value
import LakeSchema.Text.CharClass

/-!
# Reading JSON text

`Json.read?` accepts one value with blanks around it, nested less than 128 deep. Whole numbers in
the range of signed and unsigned 64 bit integers stay exact; all others become doubles, and a
number too large for a double is refused.
-/

namespace LakeSchema.Json.Reader

def isBlank (c : Char) : Bool :=
  c == ' ' || c == '\n' || c == '\t' || c == '\r'

def skipBlanks (cs : List Char) : List Char :=
  cs.dropWhile isBlank

/-! ### Numbers -/

def wordLimit : Nat :=
  Nat.pow 2 64

/-- The leading digits whose value fits in 64 bits, together with the digits left over. -/
def significand : (value : Nat) → List Char → Nat × List Char
  | value, [] => (value, [])
  | value, c :: rest =>
    let next := 10 * value + (c.toNat - '0'.toNat)
    if next < wordLimit then significand next rest else (value, c :: rest)

/-- The parts of a number text: digits before and after the point, and the written exponent. -/
structure NumberText where
  negative : Bool
  whole : List Char
  fraction : Option (List Char)
  exponent : Option (Bool × List Char)

def fraction? : List Char → Option (Option (List Char) × List Char)
  | '.' :: rest =>
    let digits := rest.takeWhile Char.isDigit
    if digits.isEmpty then none else some (some digits, rest.dropWhile Char.isDigit)
  | cs => some (none, cs)

def exponent? : List Char → Option (Option (Bool × List Char) × List Char)
  | c :: rest =>
    if c == 'e' || c == 'E' then
      let signed := Text.sign rest
      let digits := signed.2.takeWhile Char.isDigit
      if digits.isEmpty then none
      else some (some (signed.1, digits), signed.2.dropWhile Char.isDigit)
    else some (none, c :: rest)
  | [] => some (none, [])

/-- The parts of the number that a text begins with; a leading zero stands alone. -/
def numberText? (cs : List Char) : Option (NumberText × List Char) :=
  let negative := cs.head? == some '-'
  let cs := if negative then cs.drop 1 else cs
  let whole := cs.takeWhile Char.isDigit
  if whole.isEmpty || (whole.length > 1 && whole.head? == some '0') then none
  else do
    let (fraction, rest) ← fraction? (cs.dropWhile Char.isDigit)
    let (exponent, rest) ← exponent? rest
    some (⟨negative, whole, fraction, exponent⟩, rest)

/-- The written exponent; one outside 32 bits is held at the limit. -/
def NumberText.power (t : NumberText) : Int :=
  match t.exponent with
  | none => 0
  | some (negative, digits) =>
    let size : Int := min (Text.decimalValue digits) (Nat.pow 2 31)
    if negative then -size else size

/-- The double that a number text denotes: the digits that fit in 64 bits, scaled by the power of
ten that accounts for the point, the exponent and the whole digits left over. -/
def NumberText.real? (t : NumberText) : Option Binary64 :=
  let (whole, left) := significand 0 t.whole
  let places := t.fraction.getD []
  let (digits, unread) := significand whole places
  Binary64.scaled? t.negative digits (t.power + left.length - (places.length - unread.length : Nat))

/-- The number of a text: exact where it is whole and fits in a machine word. -/
def NumberText.value? (t : NumberText) : Option JsonNumber :=
  if t.fraction.isNone && t.exponent.isNone then
    let n := Text.decimalValue t.whole
    if t.negative then
      if n == 0 || n > Nat.pow 2 63 then t.real?.map .real else some (.whole (-n))
    else if n < wordLimit then some (.whole n) else t.real?.map .real
  else t.real?.map .real

/-! ### Texts -/

/-- The code unit of four hexadecimal digits. -/
def unit? : List Char → Option (Nat × List Char)
  | a :: b :: c :: d :: rest => do
    let a ← Text.digitValue? a
    let b ← Text.digitValue? b
    let c ← Text.digitValue? c
    let d ← Text.digitValue? d
    some (((a * 16 + b) * 16 + c) * 16 + d, rest)
  | _ => none

/-- The character of one code unit or of a surrogate pair, after `\u`. -/
def unicodeChar? (cs : List Char) : Option (Char × List Char) := do
  let (high, rest) ← unit? cs
  if 0xDC00 ≤ high && high ≤ 0xDFFF then none
  else if 0xD800 ≤ high && high ≤ 0xDBFF then
    match rest with
    | '\\' :: 'u' :: rest =>
      let (low, rest) ← unit? rest
      if 0xDC00 ≤ low && low ≤ 0xDFFF then
        some (Char.ofNat (0x10000 + (high - 0xD800) * 0x400 + (low - 0xDC00)), rest)
      else none
    | _ => none
  else some (Char.ofNat high, rest)

def simpleEscape? (c : Char) : Option Char :=
  match c with
  | '"' => some '"'
  | '\\' => some '\\'
  | '/' => some '/'
  | 'b' => some '\x08'
  | 'f' => some '\x0c'
  | 'n' => some '\n'
  | 'r' => some '\r'
  | 't' => some '\t'
  | _ => none

/-- What stands in front of the closing quotation mark, escapes and all, and what stands behind. -/
def enclosed? : List Char → Option (List Char × List Char)
  | [] => none
  | '"' :: rest => some ([], rest)
  | '\\' :: c :: rest => (enclosed? rest).map fun (inner, rest) => ('\\' :: c :: inner, rest)
  | c :: rest =>
    if c.toNat < 32 then none else (enclosed? rest).map fun (inner, rest) => (c :: inner, rest)

/-- The characters that a text with escapes denotes. Every round takes at least one character. -/
def unescaped? : (rounds : Nat) → List Char → Option (List Char)
  | _, [] => some []
  | 0, _ => none
  | rounds + 1, '\\' :: 'u' :: rest => do
    let (c, rest) ← unicodeChar? rest
    let text ← unescaped? rounds rest
    some (c :: text)
  | rounds + 1, '\\' :: e :: rest => do
    let c ← simpleEscape? e
    let text ← unescaped? rounds rest
    some (c :: text)
  | rounds + 1, c :: rest => (unescaped? rounds rest).map (c :: ·)

def string? (cs : List Char) : Option (String × List Char) := do
  let (inner, rest) ← enclosed? cs
  let text ← unescaped? inner.length inner
  some (String.ofList text, rest)

/-! ### Values -/

mutual

/-- The value that a text begins with. `depth` bounds the nesting and `rounds` the recursion, each
step of which takes a character. -/
def value? (depth : Nat) : (rounds : Nat) → List Char → Option (Json × List Char)
  | 0, _ => none
  | rounds + 1, cs =>
    match skipBlanks cs with
    | 'n' :: 'u' :: 'l' :: 'l' :: rest => some (.null, rest)
    | 't' :: 'r' :: 'u' :: 'e' :: rest => some (.bool true, rest)
    | 'f' :: 'a' :: 'l' :: 's' :: 'e' :: rest => some (.bool false, rest)
    | '"' :: rest => (string? rest).map fun (s, rest) => (.string s, rest)
    | '[' :: rest =>
      if depth ≤ 1 then none
      else match skipBlanks rest with
        | ']' :: rest => some (.array [], rest)
        | rest => do
          let (items, rest) ← items? (depth - 1) rounds rest
          some (.array items, rest)
    | '\x7b' :: rest =>
      if depth ≤ 1 then none
      else match skipBlanks rest with
        | '\x7d' :: rest => some (.object [], rest)
        | rest => do
          let (members, rest) ← members? (depth - 1) rounds rest
          some (.object (Members.sorted members), rest)
    | cs => do
      let (text, rest) ← numberText? cs
      let number ← text.value?
      some (.number number, rest)

def items? (depth : Nat) : (rounds : Nat) → List Char → Option (List Json × List Char)
  | 0, _ => none
  | rounds + 1, cs => do
    let (item, rest) ← value? depth rounds cs
    match skipBlanks rest with
    | ',' :: rest =>
      let (items, rest) ← items? depth rounds rest
      some (item :: items, rest)
    | ']' :: rest => some ([item], rest)
    | _ => none

def members? (depth : Nat) : (rounds : Nat) → List Char → Option (Members × List Char)
  | 0, _ => none
  | rounds + 1, cs => do
    let '"' :: rest := skipBlanks cs | none
    let (name, rest) ← string? rest
    let ':' :: rest := skipBlanks rest | none
    let (value, rest) ← value? depth rounds rest
    match skipBlanks rest with
    | ',' :: rest =>
      let (members, rest) ← members? depth rounds rest
      some ((name, value) :: members, rest)
    | '\x7d' :: rest => some ([(name, value)], rest)
    | _ => none

end

end Reader

/-- Values nest less deep than this. -/
def depthLimit : Nat :=
  128

def read? (text : String) : Option Json :=
  let cs := text.toList
  (Reader.value? depthLimit (2 * cs.length + 2) cs).bind fun (value, rest) =>
    if (Reader.skipBlanks rest).isEmpty then some value else none

end LakeSchema.Json
