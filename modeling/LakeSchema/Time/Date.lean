/-!
# Calendar dates

Dates of the proleptic Gregorian calendar with years between -262143 and 262142.
-/

namespace LakeSchema

def isLeapYear (year : Int) : Bool :=
  year % 4 == 0 && (year % 100 != 0 || year % 400 == 0)

def daysInMonth (year : Int) (month : Nat) : Nat :=
  if month == 2 then if isLeapYear year then 29 else 28
  else if month == 4 || month == 6 || month == 9 || month == 11 then 30
  else 31

structure Date where
  year : Int
  month : Nat
  day : Nat
  year_range : -262143 ≤ year ∧ year ≤ 262142
  month_range : 1 ≤ month ∧ month ≤ 12
  day_range : 1 ≤ day ∧ day ≤ daysInMonth year month
deriving DecidableEq

namespace Date

/-- The date with these numbers, if the calendar has it. -/
def of? (year : Int) (month day : Nat) : Option Date :=
  if years : -262143 ≤ year ∧ year ≤ 262142 then
    if months : 1 ≤ month ∧ month ≤ 12 then
      if days : 1 ≤ day ∧ day ≤ daysInMonth year month then
        some ⟨year, month, day, years, months, days⟩
      else none
    else none
  else none

def next? (d : Date) : Option Date :=
  if d.day < daysInMonth d.year d.month then of? d.year d.month (d.day + 1)
  else if d.month < 12 then of? d.year (d.month + 1) 1
  else of? (d.year + 1) 1 1

def previous? (d : Date) : Option Date :=
  if 1 < d.day then of? d.year d.month (d.day - 1)
  else if 1 < d.month then of? d.year (d.month - 1) (daysInMonth d.year (d.month - 1))
  else of? (d.year - 1) 12 31

/-- The day of the week, counted from Monday as 0. -/
def weekday (d : Date) : Nat :=
  let shifted : Int := if d.month ≤ 2 then d.year - 1 else d.year
  let month : Int := if d.month ≤ 2 then d.month + 9 else d.month - 3
  let days := 365 * shifted + shifted / 4 - shifted / 100 + shifted / 400 +
    (153 * month + 2) / 5 + d.day
  ((days + 1) % 7).toNat

/-- The date so many days after the first of January 1970. Years are counted from March, so that a
leap day ends its year, in cycles of 400 years. -/
def ofEpochDay? (day : Int) : Option Date :=
  let shifted := day + 719468
  let inCycle := shifted % 146097
  let year := (inCycle - inCycle / 1460 + inCycle / 36524 - inCycle / 146096) / 365
  let inYear := inCycle - (365 * year + year / 4 - year / 100)
  let month := (5 * inYear + 2) / 153
  let inMonth := inYear - (153 * month + 2) / 5 + 1
  let year := year + 400 * (shifted / 146097)
  if month < 10 then of? year (month + 3).toNat inMonth.toNat
  else of? (year + 1) (month - 9).toNat inMonth.toNat

end Date
end LakeSchema
