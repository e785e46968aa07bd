import LakeSchema.Time.Date

/-!
# Timestamps

A moment in universal time with nanoseconds; second 60 is a leap second. `text` is the canonical
form that documents are written with.
-/

namespace LakeSchema

structure Timestamp where
  date : Date
  hour : Fin 24
  minute : Fin 60
  second : Fin 61
  nano : Fin 1000000000
deriving DecidableEq

namespace Timestamp

/-- The moment of a date and the fields of a clock, which are in their ranges. -/
def ofClock (date : Date) (hour minute second nano : Nat) : Timestamp :=
  ⟨date, Fin.ofNat 24 hour, Fin.ofNat 60 minute, Fin.ofNat 61 second, Fin.ofNat 1000000000 nano⟩

def padded (width n : Nat) : String :=
  let digits := toString n
  String.ofList (List.replicate (width - digits.length) '0') ++ digits

/-- Years from 0 to 9999 have four digits; others carry a sign and at least four. -/
def yearText (year : Int) : String :=
  if 0 ≤ year ∧ year ≤ 9999 then padded 4 year.toNat
  else (if year < 0 then "-" else "+") ++ padded 4 year.natAbs

/-- No, three, six or nine places, the fewest that are exact. -/
def fractionText (nano : Nat) : String :=
  if nano == 0 then ""
  else if nano % 1000000 == 0 then "." ++ padded 3 (nano / 1000000)
  else if nano % 1000 == 0 then "." ++ padded 6 (nano / 1000)
  else "." ++ padded 9 nano

def text (t : Timestamp) : String :=
  yearText t.date.year ++ "-" ++ padded 2 t.date.month ++ "-" ++ padded 2 t.date.day ++ "T" ++
    padded 2 t.hour ++ ":" ++ padded 2 t.minute ++ ":" ++ padded 2 t.second ++
    fractionText t.nano ++ "Z"

/-- The same clock reading `minutes` earlier. -/
def minutesBefore? (t : Timestamp) (minutes : Int) : Option Timestamp :=
  let total : Int := (t.hour.val * 60 + t.minute.val : Nat) - minutes
  let clock := (total % 1440).toNat
  let date :=
    if total < 0 then t.date.previous? else if 1440 ≤ total then t.date.next? else some t.date
  date.map fun date => ofClock date (clock / 60) (clock % 60) t.second t.nano

/-- The moment so many seconds after the beginning of 1970, leap seconds not counted. -/
def ofEpochSecond? (seconds : Int) (nano : Nat) : Option Timestamp :=
  let clock := (seconds % 86400).toNat
  (Date.ofEpochDay? (seconds / 86400)).map fun date =>
    ofClock date (clock / 3600) (clock / 60 % 60) (clock % 60) nano

end Timestamp
end LakeSchema
