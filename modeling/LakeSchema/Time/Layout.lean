import LakeSchema.Text.Case
import LakeSchema.Text.CharClass
import LakeSchema.Text.Words
import LakeSchema.Time.Timestamp

/-!
# Date and time layouts

A layout is a list of pieces; reading a text by a layout collects the numbers that its pieces name.
-/

namespace LakeSchema.Time

structure Parts where
  year : Int := 0
  month : Nat := 0
  day : Nat := 0
  weekday : Option Nat := none
  hour : Nat := 0
  minute : Nat := 0
  second : Nat := 0
  nano : Nat := 0

inductive Piece where
  | year
  | month
  | day
  | hour
  | minute
  | second
  | fraction
  | monthName
  | weekdayName
  | spaces
  | literal (text : String)

abbrev Layout := List Piece

/-- A number of at least `least` and at most `most` digits, as many as there are. -/
def number? (least most : Nat) (cs : List Char) : Option (Nat × List Char) :=
  let digits := (cs.take most).takeWhile Char.isDigit
  if digits.length < least then none
  else
    some (Text.decimalValue digits, cs.drop digits.length)

/-- A year of up to four digits, or of any number of digits after a sign. -/
def year? : List Char → Option (Int × List Char)
  | '-' :: rest => (number? 1 rest.length rest).map fun (n, rest) => (-(n : Int), rest)
  | '+' :: rest => (number? 1 rest.length rest).map fun (n, rest) => ((n : Int), rest)
  | cs => (number? 1 4 cs).map fun (n, rest) => ((n : Int), rest)

/-- The digits of a fraction as nanoseconds; digits after the ninth are dropped. -/
def fraction? (cs : List Char) : Option (Nat × List Char) :=
  (number? 1 9 cs).map fun (n, rest) =>
    (n * Nat.pow 10 (9 - (cs.length - rest.length)), rest.dropWhile Char.isDigit)

/-- The place of the name of three letters, in any case, that a text begins with. -/
def name? (names : List String) (cs : List Char) : Option (Nat × List Char) :=
  (names.findIdx? fun name => Text.asciiLowered (String.ofList (cs.take 3)) == name).map
    fun place => (place, cs.drop 3)

def monthName? (cs : List Char) : Option (Nat × List Char) :=
  name? ["jan", "feb", "mar", "apr", "may", "jun", "jul", "aug", "sep", "oct", "nov", "dec"] cs

def weekdayName? (cs : List Char) : Option (Nat × List Char) :=
  name? ["mon", "tue", "wed", "thu", "fri", "sat", "sun"] cs

/-- A number of one or two digits after any blanks, kept when it is not above the limit. -/
def twoDigits? (least most : Nat) (cs : List Char) : Option (Nat × List Char) :=
  (number? 1 2 (Text.trimStart cs)).filter fun read => least ≤ read.1 && read.1 ≤ most

def Piece.read? (piece : Piece) (parts : Parts) (cs : List Char) : Option (Parts × List Char) :=
  match piece with
  | .year => (year? (Text.trimStart cs)).map fun (n, rest) => ({ parts with year := n }, rest)
  | .month => (twoDigits? 1 12 cs).map fun (n, rest) => ({ parts with month := n }, rest)
  | .day => (twoDigits? 1 31 cs).map fun (n, rest) => ({ parts with day := n }, rest)
  | .hour => (twoDigits? 0 23 cs).map fun (n, rest) => ({ parts with hour := n }, rest)
  | .minute => (twoDigits? 0 59 cs).map fun (n, rest) => ({ parts with minute := n }, rest)
  | .second => (twoDigits? 0 60 cs).map fun (n, rest) => ({ parts with second := n }, rest)
  | .fraction =>
    match cs with
    | '.' :: rest => (fraction? rest).map fun (n, rest) => ({ parts with nano := n }, rest)
    | _ => some (parts, cs)
  | .monthName => (monthName? cs).map fun (n, rest) => ({ parts with month := n + 1 }, rest)
  | .weekdayName => (weekdayName? cs).map fun (n, rest) => ({ parts with weekday := some n }, rest)
  | .spaces => some (parts, Text.trimStart cs)
  | .literal text => (Text.after? text.toList cs).map fun rest => (parts, rest)

def Layout.read? (layout : Layout) (parts : Parts) (cs : List Char) :
    Option (Parts × List Char) :=
  match layout with
  | [] => some (parts, cs)
  | piece :: more => (piece.read? parts cs).bind fun (parts, rest) => Layout.read? more parts rest

/-- The moment that is read as local time `offset` minutes ahead of universal time; a weekday that
was read has to be the right one. -/
def Parts.timestamp? (parts : Parts) (offset : Int) : Option Timestamp := do
  let date ← Date.of? parts.year parts.month parts.day
  if parts.weekday.any (· != date.weekday) then none
  else
    let reading := Timestamp.ofClock date parts.hour parts.minute parts.second parts.nano
    reading.minutesBefore? offset

end LakeSchema.Time
