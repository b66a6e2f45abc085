import ScriptEngine.Method.Sequence
import ScriptEngine.Calendar.Duration
import ScriptEngine.Calendar.Scan

/-!
# Methods of times

Times do not change: a method that shifts or converts one answers with a new one. Durations
are integers of nanoseconds.
-/

namespace ScriptEngine.Method

open Eval Calendar

/-- The layout of a time when none is given. -/
def defaultLayout : String := "%Y-%m-%d %H:%M:%S"

/-- The text of a time after a layout, which must not have a mistake. -/
def formatTime (site : CallSite) (t : Moment) (layout : String) : Eval String :=
  match t.format? layout with
  | some text => pure text
  | none => site.invalid layout

/-- An argument that has to be a time. -/
def timeArg (site : CallSite) (args : List Value) (position : Nat) : Eval Moment :=
  match args[position]? with
  | some (.time t) => pure t
  | some v => site.wrongType position "*Time" v
  | none => site.missing args position

/-- A time that may not exist. -/
def timeOr (o : Option Moment) : Value := (o.map Value.time).getD .nil

def intValue (n : Int) : Value := .int (Int64.ofInt n)

/-- An array of integers. -/
def intsValue (ns : List Int) : Eval Value := newArrayOf (ns.map intValue)

/-- The text of a time with its offset. -/
def shownText (t : Moment) : String :=
  t.format "%Y-%m-%d %H:%M:%S%.f " ++ String.ofList (Format.zoneNameText t.offset)

/-- Makes the task wait for a number of nanoseconds; negative ones do not count. -/
def pause (nanos : Int) : Eval Value := do
  if 0 ≤ nanos then
    let now ← gets (·.clock)
    discard <| await (.clock (now + nanos.toNat))
  return .nil

/-- A method that gives the text of a time in one layout. -/
def layoutMethod : Method Moment := fun _ site t args => do
  site.oneOf [0, 1] args
  let layout ← if args.isEmpty then pure defaultLayout else site.textArg args 0
  return .text (← formatTime site t layout)

/-- A method without arguments that gives an integer. -/
def number (f : Moment → Int) : Method Moment := reading fun t => intValue (f t)

/-- A method without arguments that gives a text. -/
def text (f : Moment → String) : Method Moment := reading fun t => .text (f t)

/-- A method that compares with another time. -/
def comparison (f : Ordering → Bool) : Method Moment := fun _ site t args => do
  site.exactly 1 args
  let other ← timeArg site args 0
  return .bool (f (t.cmp other))

/-- A method that moves a time to a multiple of a duration; one that is not positive leaves
the time as it is. -/
def toMultiple (f : Moment → Int → Option Moment) : Method Moment := fun _ site t args => do
  site.exactly 1 args
  let step ← site.intArg args 0
  if step ≤ 0 then return .time t
  else
    match f t step.toInt with
    | some t => return .time t
    | none => site.invalid "timestamp exceeds num_nanoseconds limit"

/-- Milliseconds as a double. -/
def epochArg (site : CallSite) (v : Value) : Eval Float :=
  match v with
  | .int n => pure (Float.ofInt n.toInt)
  | .uint n => pure (Float.ofNat n.toNat)
  | .float x => pure x
  | other => site.wrongType 0 "*Integer|*UInteger|*Float" other

/-- The moment of this instant's clock time on the local clock. -/
def onLocalClock (f : Moment → Value) : Method Moment := plain fun _ t => do
  let zone ← gets (·.zone)
  return f (t.reread zone)

def dateParts (t : Moment) : Int × Nat × Nat := civil t.day

def ofTime : MethodTable Moment := [
  ("utc", reading fun t => .time (t.withOffset 0)),
  ("local", plain fun _ t => do return .time (t.withOffset (← gets (·.zone)))),
  ("unix", number (·.seconds)),
  ("unixNano", reading fun t => (t.nanoseconds?.map intValue).getD .nil),
  ("unixLocal", onLocalClock fun t => intValue t.seconds),
  ("unixLocalNano", onLocalClock fun t => (t.nanoseconds?.map intValue).getD .nil),
  ("fromEpoch", fun _ site _ args => do
    site.exactly 1 args
    let millis ← epochArg site (args.headD .nil)
    if millis.isFinite then return timeOr (Moment.ofMilliseconds? millis.toInt64.toInt)
    else return .nil),
  ("toEpoch", reading fun t => .float (Float.ofInt t.milliseconds)),
  ("toStr", layoutMethod),
  ("toUTCStr", text fun t => (t.withOffset 0).format "%a, %d %b %Y %H:%M:%S UTC"),
  ("toISOStr", text fun t => (t.withOffset 0).format "%Y-%m-%dT%H:%M:%S%.3fZ"),
  ("toGMTStr", text fun t => (t.withOffset 0).format "%a, %d %b %Y %H:%M:%S GMT"),
  ("toDateStr", text (·.format "%a, %d %b %Y")),
  ("toTimeStr", text (·.format "%H:%M:%S %z")),
  ("year", number (·.year)),
  ("fullYear", number (·.year)),
  ("month", number fun t => (dateParts t).2.1),
  ("date", plain fun _ t =>
    let (y, m, d) := dateParts t
    intsValue [y, m, d]),
  ("day", number fun t => (dateParts t).2.2),
  ("yearDay", number fun t => dayInYear t.day + 1),
  ("weekDay", text (·.format "%A")),
  ("hour", number (·.hour)),
  ("hours", number (·.hour)),
  ("minute", number (·.minute)),
  ("minutes", number (·.minute)),
  ("second", number (·.second)),
  ("seconds", number (·.second)),
  ("milliseconds", number fun t => t.nanos / 1000000),
  ("add", fun _ site t args => do
    site.exactly 1 args
    let nanos ← site.intArg args 0
    match t.plus? nanos.toInt with
    | some t => return .time t
    | none => site.invalid (toString nanos.toInt)),
  ("addDate", fun _ site t args => do
    site.exactly 3 args
    let years ← site.intArg args 0
    let months ← site.intArg args 1
    let days ← site.intArg args 2
    match t.plusDate? years.toInt months.toInt days.toInt with
    | some t => return .time t
    | none =>
      site.invalid (String.intercalate ", " ([years, months, days].map fun n => toString n.toInt))),
  ("after", comparison (· == .gt)),
  ("before", comparison (· == .lt)),
  ("equal", comparison (· == .eq)),
  ("sub", fun _ site t args => do
    site.exactly 1 args
    let other ← timeArg site args 0
    match within64 (t.since other) with
    | some n => return intValue n
    | none => site.invalid (shownText other)),
  ("appendFormat", fun _ site t args => do
    site.exactly 2 args
    let front ← site.textArg args 0
    let layout ← site.textArg args 1
    return .text (front ++ (← formatTime site t layout))),
  ("clock", plain fun _ t => intsValue [t.hour, t.minute, t.second]),
  ("format", layoutMethod),
  ("isoWeek", plain fun _ t =>
    let (y, w) := Calendar.isoWeek t.day
    intsValue [y, w]),
  ("isZero", reading fun t => .bool (t.same .zero)),
  ("round", toMultiple Moment.round?),
  ("truncate", toMultiple Moment.truncate?),
  ("parse", fun _ site _ args => do
    site.exactly 2 args
    let layout ← site.textArg args 0
    let value ← site.textArg args 1
    return timeOr (Moment.parse? layout value)),
  ("setValid", fun _ site _ args => do
    site.oneOf [0, 1] args
    if args.isEmpty then return .time .zero else return .time (← timeArg site args 0)),
  ("sleep", fun _ site _ args => do
    site.exactly 1 args
    pause (← site.intArg args 0).toInt),
  ("strftime", fun _ site t args => do
    site.exactly 1 args
    let layout ← site.textArg args 0
    if isClassic layout.toList then return .text (t.format layout) else return .nil),
  ("string", text (·.text))]

end ScriptEngine.Method
