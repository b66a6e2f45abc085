import ScriptEngine.Assoc
import ScriptEngine.Calendar.Format

/-!
# Fields of a time

What a text says about a time arrives field by field: a year, a month, a weekday. `Fields`
collects them and refuses two values for one field. The date is made of the first set of
fields that determines one, and has to agree with all the others; the same goes for a time
of day, and for a count of seconds from 1970, which can stand for both.
-/

namespace ScriptEngine.Calendar

/-- What a text can say about a time. -/
inductive Field where
  | year
  | century
  | yearOfCentury
  | isoYear
  | isoYearOfCentury
  | quarter
  | month
  | day
  | weekFromSunday
  | weekFromMonday
  | isoWeek
  /-- Days since Monday. -/
  | weekday
  | dayOfYear
  /-- Whether it is after noon. -/
  | half
  | hourOfHalf
  | minute
  | second
  | nanosecond
  | timestamp
  | offset
deriving DecidableEq, Repr

/-- The least and the greatest value of a field. -/
def Field.range : Field → Int × Int
  | year => (-2147483648, 2147483647)
  | century => (0, 2147483647)
  | yearOfCentury => (0, 99)
  | isoYear => (-2147483648, 2147483647)
  | isoYearOfCentury => (0, 99)
  | quarter => (1, 4)
  | month => (1, 12)
  | day => (1, 31)
  | weekFromSunday => (0, 53)
  | weekFromMonday => (0, 53)
  | isoWeek => (1, 53)
  | weekday => (0, 6)
  | dayOfYear => (1, 366)
  | half => (0, 1)
  | hourOfHalf => (0, 11)
  | minute => (0, 59)
  | second => (0, 60)
  | nanosecond => (0, 999999999)
  | timestamp => (-9223372036854775808, 9223372036854775807)
  | offset => (-2147483648, 2147483647)

/-- The fields that are known. -/
abbrev Fields := Assoc Field Int

/-- Why fields make no time. -/
inductive Flaw where
  /-- Something has not been said. -/
  | missing
  /-- What has been said cannot be. -/
  | conflict
deriving DecidableEq, Repr

namespace Fields

/-- Adds a field; none if it is out of its range or known with another value. -/
def set? (fs : Fields) (f : Field) (v : Int) : Option Fields :=
  if f.range.1 ≤ v ∧ v ≤ f.range.2 then
    match fs.get? f with
    | some old => if old = v then some fs else none
    | none => some (fs.insert f v)
  else none

/-- Adds the hour of the day. -/
def setHour? (fs : Fields) (hour : Int) : Option Fields := do
  if 0 ≤ hour ∧ hour ≤ 23 then
    let fs ← fs.set? .half (hour / 12)
    fs.set? .hourOfHalf (hour % 12)
  else none

/-- Adds the hour on a clock face. -/
def setHour12? (fs : Fields) (hour : Int) : Option Fields :=
  if 1 ≤ hour ∧ hour ≤ 12 then fs.set? .hourOfHalf (hour % 12) else none

/-! ### Dates -/

/-- The year that a full year, a century and a year within the century stand for. Without a
century, the year is one of the hundred from 1970 on. -/
def resolveYear (full century rest : Option Int) : Except Flaw (Option Int) :=
  match full, century, rest with
  | full, none, none => .ok full
  | some y, century, rest =>
    if 0 ≤ y ∧ century.getD (y / 100) = y / 100 ∧ rest.getD (y % 100) = y % 100 then .ok (some y)
    else .error .conflict
  | none, some c, some r => if fits32 (c * 100 + r) then .ok (some (c * 100 + r)) else .error .conflict
  | none, none, some r => .ok (some (if r < 70 then r + 2000 else r + 1900))
  | none, some _, none => .error .missing

/-- Whether a field is unknown or has a value. -/
def agrees (fs : Fields) (f : Field) (v : Int) : Bool := (fs.get? f).getD v == v

/-- Whether the year, whole or in parts, is unknown or as given. Years before the first have
no parts. -/
def agreesOnYear (fs : Fields) (full rest : Field) (y : Int) : Bool :=
  fs.agrees full y && (if y < 0 then !fs.contains rest else fs.agrees rest (y % 100))

/-- Whether year, quarter, month and day of month are unknown or those of a day. -/
def agreesOnMonth (fs : Fields) (day : Int) : Bool :=
  let (y, m, d) := civil day
  fs.agreesOnYear .year .yearOfCentury y &&
    (if y < 0 then !fs.contains .century else fs.agrees .century (y / 100)) &&
    fs.agrees .month m && fs.agrees .day d && fs.agrees .quarter (Format.quarterOf day)

/-- Whether the fields of the week date are unknown or those of a day. -/
def agreesOnIsoWeek (fs : Fields) (day : Int) : Bool :=
  let (y, w) := Calendar.isoWeek day
  fs.agreesOnYear .isoYear .isoYearOfCentury y && fs.agrees .isoWeek w &&
    fs.agrees .weekday (Calendar.weekday day)

/-- Whether the place in the year is unknown or that of a day. -/
def agreesOnPlace (fs : Fields) (day : Int) : Bool :=
  fs.agrees .dayOfYear (dayInYear day + 1) && fs.agrees .weekFromSunday (Format.weeksFrom day 6) &&
    fs.agrees .weekFromMonday (Format.weeksFrom day 0)

/-- A day of a year by its place, counting from one. -/
def dayAt? (year place : Int) : Option Int :=
  if minYear ≤ year ∧ year ≤ maxYear ∧ 1 ≤ place ∧ place ≤ (if isLeap year then 366 else 365) then
    some (dayOfYearStart year + place - 1)
  else none

/-- A day by its week, where weeks start `shift` days after Monday and the first week is the
first whole one. -/
def dayOfWeek? (year week weekday : Int) (shift : Int) : Option Int :=
  if minYear ≤ year ∧ year ≤ maxYear then
    let first : Int := Calendar.weekday (dayOfYearStart year)
    dayAt? year (1 + (shift - first) % 7 + (week - 1) * 7 + (weekday - shift) % 7)
  else none

/-- A day by its week date. -/
def dayOfIsoWeek? (year week weekday : Int) : Option Int :=
  let fourth := dayOfYearStart year + 3
  let day := fourth - Calendar.weekday fourth + (week - 1) * 7 + weekday
  if minYear ≤ year ∧ year ≤ maxYear ∧ (Calendar.isoWeek day).1 = year ∧ inRange day then some day
  else none

/-- The day that the fields determine. -/
def date (fs : Fields) : Except Flaw Int := do
  let year ← resolveYear (fs.get? .year) (fs.get? .century) (fs.get? .yearOfCentury)
  let isoYear ← resolveYear (fs.get? .isoYear) none (fs.get? .isoYearOfCentury)
  let byMonth : Option (Option Int × Bool) := do
    let y ← year
    let m ← fs.get? .month
    let d ← fs.get? .day
    return (dayOf? y m.toNat d.toNat, true)
  let byPlace : Option (Option Int × Bool) := do
    return (dayAt? (← year) (← fs.get? .dayOfYear), true)
  let bySundays : Option (Option Int × Bool) := do
    return (dayOfWeek? (← year) (← fs.get? .weekFromSunday) (← fs.get? .weekday) 6, true)
  let byMondays : Option (Option Int × Bool) := do
    return (dayOfWeek? (← year) (← fs.get? .weekFromMonday) (← fs.get? .weekday) 0, true)
  let byIsoWeek : Option (Option Int × Bool) := do
    return (dayOfIsoWeek? (← isoYear) (← fs.get? .isoWeek) (← fs.get? .weekday), false)
  match byMonth <|> byPlace <|> bySundays <|> byMondays <|> byIsoWeek with
  | none => throw .missing
  | some (none, _) => throw .conflict
  | some (some day, checksIsoWeek) =>
    if fs.agreesOnMonth day && fs.agreesOnPlace day && (!checksIsoWeek || fs.agreesOnIsoWeek day) then
      return day
    else throw .conflict

/-! ### Times of day -/

/-- A field that has to be known. -/
def require (fs : Fields) (f : Field) : Except Flaw Int :=
  match fs.get? f with
  | some v => .ok v
  | none => .error .missing

/-- The second of the day and the nanoseconds in it. The sixtieth second of a minute is a leap
second. -/
def timeOfDay (fs : Fields) : Except Flaw (Int × Nat) := do
  let half ← fs.require .half
  let hour ← fs.require .hourOfHalf
  let minute ← fs.require .minute
  let second := (fs.get? .second).getD 0
  let nanos ← match fs.get? .nanosecond with
    | none => pure 0
    | some n => if fs.contains .second then pure n.toNat else throw .missing
  let start := (half * 12 + hour) * 3600 + minute * 60
  if second = 60 then return (start + 59, nanos + 1000000000) else return (start + second, nanos)

/-! ### Clocks -/

/-- The fields with those of a clock that shows `shown` seconds from 1970. A leap second is
taken for the second before the one that is shown. -/
def ofShown? (fs : Fields) (shown : Int) : Option Fields := do
  if !inRange (shown.fdiv 86400) then none
  else
    let leap := fs.get? .second == some 60
    let shown ←
      if !leap then some shown
      else if shown % 60 = 59 then some shown
      else if shown % 60 = 0 then some (shown - 1)
      else none
    let day := shown.fdiv 86400
    let fs ← if leap then some fs else fs.set? .second (shown % 60)
    let fs ← fs.set? .year (yearOf day)
    let fs ← fs.set? .dayOfYear (dayInYear day + 1)
    let fs ← fs.setHour? (shown.fmod 86400 / 3600)
    fs.set? .minute (shown / 60 % 60)

/-- Seconds from 1970 and nanoseconds that a clock at an offset shows. -/
def clock? (fs : Fields) (offset : Int) : Option (Int × Nat) := do
  match fs.date, fs.timeOfDay with
  | .ok day, .ok (second, nanos) =>
    let shown := day * 86400 + second
    match fs.get? .timestamp with
    | none => some (shown, nanos)
    | some t =>
      if t = shown - offset ∨ (1000000000 ≤ nanos ∧ t = shown - offset + 1) then some (shown, nanos)
      else none
  | .error .conflict, _ => none
  | _, .error .conflict => none
  | _, _ =>
    let t ← fs.get? .timestamp
    let fs ← fs.ofShown? (← within64 (t + offset))
    let day ← fs.date.toOption
    let (second, nanos) ← fs.timeOfDay.toOption
    some (day * 86400 + second, nanos)

/-- The moment that the fields determine. Without an offset it is in universal time, and
without a time of day it is midnight. -/
def moment? (fs : Fields) : Option Moment :=
  let withOffset : Option Moment := do
    let offset ← fs.get? .offset <|> (fs.get? .timestamp).map fun _ => 0
    let (shown, nanos) ← fs.clock? offset
    let t := Moment.ofLocal shown nanos offset
    if -86400 < offset ∧ offset < 86400 ∧ t.isValid then some t else none
  let universal : Option Moment := (fs.clock? 0).map fun (shown, nanos) => ⟨shown, nanos, 0⟩
  let midnight : Option Moment := fs.date.toOption.map fun day => ⟨day * 86400, 0, 0⟩
  withOffset <|> universal <|> midnight

end Fields

end ScriptEngine.Calendar
