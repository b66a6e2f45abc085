/-!
# Dates

The proleptic Gregorian calendar, with days counted from 1970-01-01. A date is kept as its
day number; year, month and day of month are read off it, and every combination of integers
names a day number once months and days are carried over (`dayOf`, `carriedDay`).
-/

namespace ScriptEngine.Calendar

/-- The day number of the first day of a year. -/
def dayOfYearStart (year : Int) : Int :=
  let y := year - 1
  365 * y + y.fdiv 4 - y.fdiv 100 + y.fdiv 400 - 719162

/-- Leap years have 366 days. -/
def isLeap (year : Int) : Bool := year % 4 == 0 && (year % 100 != 0 || year % 400 == 0)

/-- Days of a year before the first of a month, for months 1 to 12. -/
def daysBeforeMonth (leap : Bool) (month : Nat) : Int :=
  let plain : Int := match month with
    | 1 => 0
    | 2 => 31
    | 3 => 59
    | 4 => 90
    | 5 => 120
    | 6 => 151
    | 7 => 181
    | 8 => 212
    | 9 => 243
    | 10 => 273
    | 11 => 304
    | _ => 334
  if leap && 2 < month then plain + 1 else plain

/-- The number of days of a month. -/
def monthLength (year : Int) (month : Nat) : Nat :=
  match month with
  | 2 => if isLeap year then 29 else 28
  | 4 => 30
  | 6 => 30
  | 9 => 30
  | 11 => 30
  | _ => 31

/-- The day number of a date. -/
def dayOf (year : Int) (month : Nat) (day : Int) : Int :=
  dayOfYearStart year + daysBeforeMonth (isLeap year) month + (day - 1)

/-- The year a day belongs to: an estimate from the mean length of a year, moved by at most
one. -/
def yearOf (day : Int) : Int :=
  let guess := ((day + 719162) * 400).fdiv 146097 + 1
  if day < dayOfYearStart guess then guess - 1
  else if dayOfYearStart (guess + 1) ≤ day then guess + 1
  else guess

/-- The place of a day within its year, from zero. -/
def dayInYear (day : Int) : Int := day - dayOfYearStart (yearOf day)

/-- The month that contains the day at place `place` of a year. -/
def monthAt (leap : Bool) (place : Int) : Nat :=
  let later := (List.range 11).filter fun k => daysBeforeMonth leap (k + 2) ≤ place
  later.length + 1

/-- Year, month and day of month. -/
def civil (day : Int) : Int × Nat × Nat :=
  let year := yearOf day
  let place := dayInYear day
  let month := monthAt (isLeap year) place
  (year, month, (place - daysBeforeMonth (isLeap year) month + 1).toNat)

/-- Days since Monday. -/
def weekday (day : Int) : Nat := ((day + 3) % 7).toNat

/-- The first and the last year of the calendar's range. -/
def minYear : Int := -262143

def maxYear : Int := 262142

/-- Whether a day lies in the calendar's range. -/
def inRange (day : Int) : Bool :=
  decide (dayOfYearStart minYear ≤ day ∧ day < dayOfYearStart (maxYear + 1))

/-- The day of a valid date within the range. -/
def dayOf? (year : Int) (month day : Nat) : Option Int :=
  if minYear ≤ year ∧ year ≤ maxYear ∧ 1 ≤ month ∧ month ≤ 12 ∧ 1 ≤ day ∧
      day ≤ monthLength year month then
    some (dayOf year month day)
  else none

/-- Whether an integer fits into 64 bits. -/
def fits64 (n : Int) : Bool :=
  decide (-9223372036854775808 ≤ n ∧ n ≤ 9223372036854775807)

/-- Whether an integer fits into 32 bits. -/
def fits32 (n : Int) : Bool := decide (-2147483648 ≤ n ∧ n ≤ 2147483647)

/-- An intermediate result that has to fit into 64 bits. -/
def within64 (n : Int) : Option Int := if fits64 n then some n else none

/-- The largest number of days of a duration: durations hold 64-bit milliseconds. -/
def maxDays : Int := 9223372036854775807 / 86400000

/-- The day named by integers out of their ranges: month 13 is January of the next year,
day 0 the last day of the previous month. `none` when an intermediate result leaves 64 bits
or the day leaves the calendar. -/
def carriedDay (year month day : Int) : Option Int := do
  let twelve ← within64 (year * 12)
  let before ← within64 (month - 1)
  let months ← within64 (twelve + before)
  let y := months.fdiv 12
  if fits32 y then
    let first ← dayOf? y ((months.fmod 12).toNat + 1) 1
    let offset ← within64 (day - 1)
    if -maxDays ≤ offset ∧ offset ≤ maxDays ∧ inRange (first + offset) then
      some (first + offset)
    else none
  else none

/-- Year and number of the week: weeks start on Monday and belong to the year that has
their Thursday. -/
def isoWeek (day : Int) : Int × Nat :=
  let thursday := day - (weekday day : Int) + 3
  let year := yearOf thursday
  (year, ((thursday - dayOfYearStart year) / 7).toNat + 1)

end ScriptEngine.Calendar
