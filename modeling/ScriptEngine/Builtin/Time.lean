import ScriptEngine.Method.Time

/-!
# Making times

Built-in functions that make times, and the names of the usual layouts and durations.
-/

namespace ScriptEngine.Builtin

open Eval Calendar

/-- Whether a time is wanted on the local clock; the codes are 0 for universal time and 1 for
local time, which is meant if there is none. -/
def localArg (site : CallSite) (args : List Value) (position : Nat) : Eval Bool :=
  match args[position]? with
  | none => pure true
  | some (.int 0) => pure false
  | some (.int 1) => pure true
  | some (.int n) => site.invalid ("location " ++ toString n.toInt)
  | some v => site.wrongType position "*Integer" v

/-- A signed integer. -/
def signedArg (site : CallSite) (args : List Value) (position : Nat) : Eval Int :=
  match args[position]? with
  | some (.int n) => pure n.toInt
  | some v => site.wrongType position "*Integer" v
  | none => site.missing args position

/-- The present time. -/
def newTime (site : CallSite) (args : List Value) : Eval Value := do
  let isLocal ← localArg site args 0
  let now ← gets (·.now)
  return .time (if isLocal then now else now.withOffset 0)

/-- The time at which a clock shows seven numbers: year, month, day, hour, minute, second and
nanosecond, all of which are carried over. -/
def newDate (site : CallSite) (args : List Value) : Eval Value := do
  let parts ← mapList (signedArg site args) (List.range 7)
  let isLocal ← localArg site args 7
  let offset ← if isLocal then gets (·.zone) else pure 0
  let part (i : Nat) : Int := parts.getD i 0
  let found := do
    let (shown, nanos) ←
      Moment.carriedClock? (part 0) (part 1) (part 2) (part 3) (part 4) (part 5) (part 6)
    Moment.ofSeconds? (shown - offset) nanos offset
  match found with
  | some t => return .time t
  | none => site.invalid ("[" ++ String.intercalate ", " (parts.map toString) ++ "]")

/-- An integer held within 64 bits. -/
def saturated (n : Int) : Int :=
  max (-9223372036854775808) (min 9223372036854775807 n)

/-- The time at seconds and nanoseconds from 1970, on the local clock. -/
def unixTime (site : CallSite) (args : List Value) : Eval Value := do
  let seconds ← signedArg site args 0
  let nanos ← if args.length = 2 then signedArg site args 1 else pure 0
  let seconds := saturated (seconds + nanos.fdiv billion)
  let nanos := (nanos.fmod billion).toNat
  match Moment.ofSeconds? seconds nanos (← gets (·.zone)) with
  | some t => return .time t
  | none =>
    let digits := nanos.repr
    site.invalid (toString seconds ++ "." ++ String.ofList (List.replicate (9 - digits.length) '0') ++
      digits)

/-- The time that a text stands for by a layout. -/
def parseTime (site : CallSite) (args : List Value) : Eval Value := do
  let layout ← site.textArg args 0
  let value ← site.textArg args 1
  return Method.timeOr (Moment.parse? layout value)

/-- Codes of the clocks, and durations in nanoseconds. -/
def timeNumbers : List (String × Int64) := [
  ("UTC", 0),
  ("LOCAL", 1),
  ("NANO_SECOND", 1),
  ("MICRO_SECOND", 1000),
  ("MILLI_SECOND", 1000000),
  ("SECOND", 1000000000),
  ("MINUTE", 60000000000),
  ("HOUR", 3600000000000)]

/-- The usual layouts. -/
def timeLayouts : List (String × String) := [
  ("ANSIC", "%a %b %e %H:%M:%S %Y"),
  ("UnixDate", "%a %b %e %H:%M:%S %Z %Y"),
  ("RFC822", "%d %b %y %H:%M %Z"),
  ("RFC822Z", "%d %b %y %H:%M %z"),
  ("RFC850", "%A, %d-%b-%y %H:%M:%S %Z"),
  ("RFC1123", "%a, %d %b %Y %H:%M:%S %Z"),
  ("RFC1123Z", "%a, %d %b %Y %H:%M:%S %z"),
  ("RFC3339", "%Y-%m-%dT%H:%M:%S%:z"),
  ("RFC3339Nano", "%Y-%m-%dT%H:%M:%S%.9f%:z"),
  ("Kitchen", "%-I:%M%p"),
  ("Stamp", "%b %e %H:%M:%S"),
  ("StampMilli", "%b %e %H:%M:%S%.3f"),
  ("StampMicro", "%b %e %H:%M:%S%.6f"),
  ("StampNano", "%b %e %H:%M:%S%.9f")]

end ScriptEngine.Builtin
