import LakeSchema.Time.Layout

/-!
# Reading timestamps

The forms in which project documents have written timestamps: RFC 3339, three naive layouts read as
universal time, RFC 2822 mail dates, and plain dates.
-/

namespace LakeSchema.Time

/-! ### Offsets -/

/-- How the hours and minutes of an offset are kept apart. -/
inductive OffsetMark where
  | colon
  | colonOrSpaces
  | nothing

def OffsetMark.skip? (mark : OffsetMark) (cs : List Char) : Option (List Char) :=
  match mark with
  | .colon => Text.after? [':'] cs
  | .colonOrSpaces => some (cs.dropWhile fun c => c == ':' || Text.isSpace c)
  | .nothing => some cs

def offsetSign? (longMinus : Bool) : List Char → Option (Bool × List Char)
  | '+' :: rest => some (false, rest)
  | '-' :: rest => some (true, rest)
  | '−' :: rest => if longMinus then some (true, rest) else none
  | _ => none

/-- A signed offset of two digits each for hours and minutes, in minutes. -/
def signedOffset? (mark : OffsetMark) (longMinus : Bool) (cs : List Char) :
    Option (Int × List Char) := do
  let (negative, rest) ← offsetSign? longMinus cs
  let (hours, rest) ← number? 2 2 rest
  let rest ← mark.skip? rest
  let (minutes, rest) ← number? 2 2 rest
  if minutes < 60 && hours < 24 then
    let size : Int := (60 * hours + minutes : Nat)
    some (if negative then -size else size, rest)
  else none

/-- An offset, or `Z` for none. -/
def offset? (mark : OffsetMark) (cs : List Char) : Option (Int × List Char) :=
  match cs with
  | 'Z' :: rest | 'z' :: rest => some (0, rest)
  | cs => signedOffset? mark true cs

/-- Minutes ahead of universal time for the zone names of mail dates. -/
def zoneMinutes? (name : String) : Option Int :=
  match name with
  | "gmt" | "ut" | "z" => some 0
  | "edt" => some (-240)
  | "est" | "cdt" => some (-300)
  | "cst" | "mdt" => some (-360)
  | "mst" | "pdt" => some (-420)
  | "pst" => some (-480)
  | _ => if name.length == 1 && name != "j" then some 0 else none

def mailOffset? (cs : List Char) : Option (Int × List Char) :=
  let name := cs.takeWhile Char.isAlpha
  if name.isEmpty then signedOffset? .nothing false cs
  else
    (zoneMinutes? (Text.asciiLowered (String.ofList name))).map fun minutes =>
      (minutes, cs.dropWhile Char.isAlpha)

/-! ### Standard forms -/

def dateSeparator? : List Char → Option (List Char)
  | 'T' :: rest | 't' :: rest | ' ' :: rest => some rest
  | _ => none

/-- The digits of a date or time field, exactly `width` of them. -/
def exactly? (width least most : Nat) (cs : List Char) : Option (Nat × List Char) :=
  (number? width width cs).filter fun read => least ≤ read.1 && read.1 ≤ most

/-- RFC 3339 with fields of fixed width and nothing around it. -/
def internet? (cs : List Char) : Option Timestamp := do
  let (year, rest) ← exactly? 4 0 9999 cs
  let rest ← Text.after? ['-'] rest
  let (month, rest) ← exactly? 2 1 12 rest
  let rest ← Text.after? ['-'] rest
  let (day, rest) ← exactly? 2 1 31 rest
  let rest ← dateSeparator? rest
  let (hour, rest) ← exactly? 2 0 23 rest
  let rest ← Text.after? [':'] rest
  let (minute, rest) ← exactly? 2 0 59 rest
  let rest ← Text.after? [':'] rest
  let (second, rest) ← exactly? 2 0 60 rest
  let (parts, rest) ← Piece.fraction.read? { year, month, day, hour, minute, second } rest
  let (offset, rest) ← offset? .colon rest
  if rest.isEmpty then parts.timestamp? offset else none

def dateLayout : Layout :=
  [.year, .spaces, .literal "-", .month, .spaces, .literal "-", .day]

def timeLayout : Layout :=
  [.hour, .spaces, .literal ":", .minute, .spaces, .literal ":", .second, .fraction, .spaces]

/-- An offset that may also be written `UTC`. -/
def namedOffset? (cs : List Char) : Option (Int × List Char) :=
  if Text.asciiLowered (String.ofList (cs.take 3)) == "utc" then some (0, cs.drop 3)
  else offset? .colonOrSpaces cs

/-- RFC 3339 with blanks between the fields, short fields and signed years allowed: the form in
which a canonical document may hold its timestamps. -/
def relaxed? (cs : List Char) : Option Timestamp := do
  let (parts, rest) ← dateLayout.read? {} cs
  let rest ← dateSeparator? rest
  let (parts, rest) ← timeLayout.read? parts rest
  let (offset, rest) ← namedOffset? rest
  if (Text.trimStart rest).isEmpty then parts.timestamp? offset else none

/-! ### Mail dates -/

def someSpaces? (cs : List Char) : Option (List Char) :=
  if cs.head?.any Text.isSpace then some (Text.trimStart cs) else none

/-- Years of two and three digits count from 1900, those below 50 from 2000. -/
def mailYear? (cs : List Char) : Option (Nat × List Char) :=
  (number? 2 cs.length cs).map fun (year, rest) =>
    let width := cs.length - rest.length
    if width == 2 && year < 50 then (year + 2000, rest)
    else if width ≤ 3 then (year + 1900, rest)
    else (year, rest)

/-- The rest after the parenthesis that closes the comment around `depth` others. -/
def comment? : (depth : Nat) → List Char → Option (List Char)
  | _, [] => none
  | depth, '\\' :: rest =>
    match rest with
    | [] => none
    | _ :: rest => comment? depth rest
  | depth, '(' :: rest => comment? (depth + 1) rest
  | 0, ')' :: rest => some rest
  | depth + 1, ')' :: rest => comment? depth rest
  | depth, _ :: rest => comment? depth rest

/-- The rest after all comments; each takes characters, so their number is bounded. -/
def skipComments : (rounds : Nat) → List Char → List Char
  | 0, cs => cs
  | rounds + 1, cs =>
    match Text.trimStart cs with
    | '(' :: rest =>
      match comment? 0 rest with
      | some rest => skipComments rounds rest
      | none => cs
    | _ => cs

def mailWeekday? (cs : List Char) : Option (Option Nat × List Char) :=
  match weekdayName? cs with
  | some (weekday, ',' :: rest) => some (some weekday, rest)
  | some _ => none
  | none => some (none, cs)

def mailSecond? (cs : List Char) : Option (Nat × List Char) :=
  match Text.trimStart cs with
  | ':' :: rest => exactly? 2 0 60 rest
  | _ => some (0, cs)

/-- RFC 2822: the weekday and the seconds may be missing, comments may follow. -/
def mail? (cs : List Char) : Option Timestamp := do
  let (weekday, rest) ← mailWeekday? (Text.trimStart cs)
  let (day, rest) ← (number? 1 2 (Text.trimStart rest)).filter fun read => 1 ≤ read.1 && read.1 ≤ 31
  let rest ← someSpaces? rest
  let (month, rest) ← monthName? rest
  let rest ← someSpaces? rest
  let (year, rest) ← mailYear? rest
  let rest ← someSpaces? rest
  let (hour, rest) ← exactly? 2 0 23 rest
  let rest ← Text.after? [':'] (Text.trimStart rest)
  let (minute, rest) ← exactly? 2 0 59 (Text.trimStart rest)
  let (second, rest) ← mailSecond? rest
  let rest ← someSpaces? rest
  let (offset, rest) ← mailOffset? rest
  if (skipComments rest.length rest).isEmpty then
    ({ year, month := month + 1, day, weekday, hour, minute, second } : Parts).timestamp? offset
  else none

/-! ### All forms -/

/-- The naive layouts, read as universal time. -/
def naiveLayouts : List Layout :=
  [ [.year, .literal "-", .month, .literal "-", .day, .literal "T", .hour, .literal ":", .minute,
      .literal ":", .second, .fraction],
    [.year, .literal "-", .month, .literal "-", .day, .spaces, .hour, .literal ":", .minute,
      .literal ":", .second, .fraction],
    [.weekdayName, .literal ",", .spaces, .day, .spaces, .monthName, .spaces, .year, .spaces,
      .hour, .literal ":", .minute, .literal ":", .second, .spaces, .literal "GMT"] ]

def naive? (cs : List Char) (layout : Layout) : Option Timestamp :=
  (layout.read? {} cs).bind fun (parts, rest) =>
    if rest.isEmpty then parts.timestamp? 0 else none

end Time

/-- The moment that a text denotes in the first form that fits it, white space around it aside. -/
def Timestamp.read? (text : String) : Option Timestamp :=
  let cs := Text.trim text.toList
  (Time.internet? cs).or <|
    (Time.naiveLayouts.findSome? (Time.naive? cs)).or <|
      (Time.mail? cs).or <|
        Time.naive? cs [.year, .literal "-", .month, .literal "-", .day]

end LakeSchema
