import LakeSchema.Decimal.Binary64
import LakeSchema.Text.CharClass
import LakeSchema.Text.Words
import LakeSchema.Time.Date
import LakeSchema.Toml.Value

/-!
# Bare TOML values

Truth values, numbers and moments stand without quotes. `Scalar.read?` takes one from the beginning
of a text, up to the next blank, break, comma, bracket, brace or comment.
-/

namespace LakeSchema.Toml.Scalar

/-! ### Numbers -/

/-- The value of digits, which may be kept apart by single underscores. -/
def grouped? (base : Nat) (cs : List Char) : Option Nat :=
  if (cs.splitOn '_').all (!·.isEmpty) then Text.digits? base (cs.filter (· != '_')) else none

/-- A decimal without a leading zero. -/
def decimal? (cs : List Char) : Option Nat :=
  if cs.head? == some '0' && cs != ['0'] then none else grouped? 10 cs

/-- A whole number in 64 bits. -/
def integer? (cs : List Char) : Option Int :=
  let read := match cs with
    | '0' :: 'x' :: rest => (grouped? 16 rest).map Int.ofNat
    | '0' :: 'o' :: rest => (grouped? 8 rest).map Int.ofNat
    | '0' :: 'b' :: rest => (grouped? 2 rest).map Int.ofNat
    | cs => (decimal? (Text.sign cs).2).map fun n => if (Text.sign cs).1 then -(n : Int) else n
  read.filter fun n => -(Nat.pow 2 63 : Int) ≤ n && n < Nat.pow 2 63

/-- The exponent after its letter. -/
def exponent? (cs : List Char) : Option Int :=
  (grouped? 10 (Text.sign cs).2).map fun n => if (Text.sign cs).1 then -(n : Int) else n

/-- A number with a point or an exponent or both, as its digits and their power of ten. -/
def scientific? (cs : List Char) : Option (Nat × Int) := do
  let isLetter (c : Char) := c == 'e' || c == 'E'
  let coefficient := cs.takeWhile fun c => !isLetter c
  let letter := (cs.dropWhile fun c => !isLetter c)
  let power ← if letter.isEmpty then some 0 else exponent? (letter.drop 1)
  match Text.cutAt? '.' coefficient with
  | some (whole, places) =>
    let _ ← decimal? whole
    let _ ← grouped? 10 places
    let digits ← grouped? 10 (whole ++ places)
    some (digits, power - (places.filter (· != '_')).length)
  | none => if letter.isEmpty then none else (decimal? coefficient).map fun n => (n, power)

/-- A number that is not whole: infinite, undefined, or not too large for a double. -/
def isReal (cs : List Char) : Bool :=
  let (negative, size) := Text.sign cs
  size == ['i', 'n', 'f'] || size == ['n', 'a', 'n'] ||
    (scientific? size).any fun (digits, power) =>
      negative || (Binary64.ofDecimal? false digits power).isSome

/-! ### Moments -/

/-- A number of exactly `width` digits between two bounds. -/
def field? (width least most : Nat) (cs : List Char) : Option (Nat × List Char) := do
  let digits := cs.take width
  if digits.length == width && digits.all Char.isDigit then do
    let n ← Text.digits? 10 digits
    if least ≤ n && n ≤ most then some (n, cs.drop width) else none
  else none

def date? (cs : List Char) : Option (List Char) := do
  let (year, rest) ← field? 4 0 9999 cs
  let rest ← Text.after? ['-'] rest
  let (month, rest) ← field? 2 1 12 rest
  let rest ← Text.after? ['-'] rest
  let (_, rest) ← field? 2 1 (daysInMonth year month) rest
  some rest

/-- Passes the digits of a fraction, if there is one. -/
def fraction? : List Char → Option (List Char)
  | '.' :: c :: rest => if c.isDigit then some (rest.dropWhile Char.isDigit) else none
  | cs => some cs

def time? (cs : List Char) : Option (List Char) := do
  let (_, rest) ← field? 2 0 23 cs
  let rest ← Text.after? [':'] rest
  let (_, rest) ← field? 2 0 59 rest
  let rest ← Text.after? [':'] rest
  let (_, rest) ← field? 2 0 60 rest
  fraction? rest

/-- An offset that fills the text, or nothing at all. -/
def isOffset : List Char → Bool
  | [] => true
  | [c] => c == 'Z' || c == 'z'
  | c :: rest =>
    (c == '+' || c == '-') && ((do
      let (_, rest) ← field? 2 0 23 rest
      let rest ← Text.after? [':'] rest
      let (_, rest) ← field? 2 0 59 rest
      some rest.isEmpty).getD false)

def isTimeWithOffset (cs : List Char) : Bool :=
  (time? cs).any isOffset

/-- A date, a time, or both; an offset needs both. -/
def isMoment (cs : List Char) : Bool :=
  time? cs == some [] ||
    (date? cs).any fun rest =>
      match rest with
      | [] => true
      | c :: rest => (c == 'T' || c == 't') && isTimeWithOffset rest

/-! ### Values -/

def ends (c : Char) : Bool :=
  c == ' ' || c == '\t' || c == '\n' || c == '\r' || c == ',' || c == '#' || c == ']' || c == '\x7d'

def word (cs : List Char) : List Char × List Char :=
  (cs.takeWhile (!ends ·), cs.dropWhile (!ends ·))

def value? (word : List Char) : Option Value :=
  if word == ['t', 'r', 'u', 'e'] then some (.boolean true)
  else if word == ['f', 'a', 'l', 's', 'e'] then some (.boolean false)
  else if isMoment word then some .moment
  else if isReal word then some .real
  else (integer? word).map .integer

/-- The bare value that begins here. A date takes the time behind a space with it. -/
def read? (cs : List Char) : Option (Value × List Char) := do
  let (first, rest) := word cs
  let value ← value? first
  match rest with
  | ' ' :: behind =>
    let (second, behind) := word behind
    if date? first == some [] && isTimeWithOffset second then some (value, behind)
    else some (value, rest)
  | _ => some (value, rest)

end LakeSchema.Toml.Scalar
