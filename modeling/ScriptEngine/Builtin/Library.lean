import ScriptEngine.Builtin.General
import ScriptEngine.Builtin.Resource
import ScriptEngine.Builtin.Time
import ScriptEngine.Json.Value
import ScriptEngine.Xml.Value

/-!
# The library of built-in functions

`Builtin.run` says what each operation does with its arguments, and `Registry.standard` which name
stands for which operation.
-/

namespace ScriptEngine

namespace Builtin

open Eval

/-! ### Documents -/

/-- The text of a value as a document. -/
def jsonText (site : CallSite) (v : Value) : Eval Value := do
  match ← gets fun s => Json.ofValue s v with
  | .ok j => return .text j.toText
  | .error e => site.fail (.json e)

def jsonValue (site : CallSite) (args : List Value) : Eval Value := do
  match Json.ofText (← site.textArg args 0) with
  | .ok j => j.toValue
  | .error e => site.fail (.json e)

/-- The text of a value as a document; the name of the outermost element may be given. -/
def xmlText (site : CallSite) (args : List Value) : Eval Value := do
  let root ← if args.length = 2 then site.textArg args 1 else pure "root"
  match ← gets fun s => Xml.ofValue s root (args.headD .nil) with
  | .ok text => return .text text
  | .error e => site.fail (.xml e)

def xmlValue (site : CallSite) (args : List Value) : Eval Value := do
  match Xml.read (← site.textArg args 0).toList with
  | .ok (name, content) => Xml.documentValue name content
  | .error e => site.fail (.xml e.message)

/-! ### Functions of the host -/

/-- The wrapping sum of integers from a position on. -/
def sumFrom (site : CallSite) (args : List Value) (acc : Int64) : List Nat → Eval Int64
  | [] => return acc
  | i :: rest => do sumFrom site args (acc + (← site.intArg args i)) rest

def runHost (E : Engine) (site : CallSite) (args : List Value) : HostOp → Eval Value
  | .echo => newArrayOf args
  | .fail => do site.general (← site.textArg args 0)
  | .apply =>
    match args with
    | f :: rest => site.call E f rest
    | [] => site.fail (.callbackArity "1" 0)
  | .sum => return .int (← sumFrom site args 0 (List.range args.length))

/-- Makes the task wait for milliseconds. -/
def sleepMillis (site : CallSite) (v : Value) : Eval Value := do
  let millis ← match v with
    | .int n => pure n.toInt.toNat
    | .uint n => pure n.toNat
    | .float x => if x ≥ 0.0 then pure x.toUInt64.toNat else site.wrongType 0 "*Integer|*UInteger|*Float" v
    | other => site.wrongType 0 "*Integer|*UInteger|*Float" other
  Method.pause (millis * 1000000)

/-- What an operation does with its arguments. -/
def run (E : Engine) (site : CallSite) (args : List Value) : Op → Eval Value
  | .print => do
    print (← joined args)
    return .nil
  | .println => do
    print ((← joined args) ++ "\n")
    return .nil
  | .len => one len
  | .newList => do
    site.exactly 0 args
    newList #[]
  | .methods => one fun _ v => do newArrayOf (← gets fun s => (s.methodNames v).map .text)
  | .type => one fun _ v => return .text v.tag
  | .assert => do
    site.oneOf [1, 2] args
    if ← CallSite.isTrue (args.headD .nil) then return .bool true else site.fail .assertion
  | .reverse => one reverse
  | .iff => do
    site.exactly 3 args
    choose site args
  | .newArray => do
    site.atLeast 1 args
    filledArray site (← lengthArg site (args.headD .nil)) args.tail
  | .deepEqual => two fun a b => gets fun s => .bool (s.equal a b)
  | .int => one toInt
  | .uint => one toUInt
  | .float => one toFloat
  | .str => one fun _ v => return .text (← CallSite.inspect v)
  | .decimal => one toDecimal
  | .array => optional (newArray #[]) fun v => do newArrayOf (← itemsOf site v)
  | .tuple => optional (newTuple #[]) fun v => do newTuple (← itemsOf site v).toArray
  | .hash => optional (newHash .empty) (toHash site)
  | .range => do
    site.oneOf [1, 2] args
    range site args
  | .abs => one abs
  | .chr => do
    site.exactly 1 args
    chr site args
  | .ord => do
    site.exactly 1 args
    ord site args
  | .printf => do
    let text ← site.filled args
    print text
    return Method.countValue text.utf8ByteSize
  | .sprintf => return .text (← site.filled args)
  | .sscanf => do
    site.exactly 2 args
    scanned site args
  | .isA => two (isA site)
  | .classOf => one fun _ v => className v
  | .chan => do
    site.oneOf [0, 1] args
    newChannel site args
  | .newMutex => zero newMutex
  | .newRWMutex => zero newRwLock
  | .newCond => one newCond
  | .newOnce => zero newOnce
  | .newWaitGroup => zero newWaitGroup
  | .sleep => one sleepMillis
  | .openFile => do
    site.oneOf [1, 2] args
    openFile site args
  | .newCsvReader => do
    site.oneOf [1, 2] args
    newCsvReader site args
  | .newCsvWriter => do
    site.oneOf [1, 2] args
    newCsvWriter site args
  | .newLogger => do
    site.oneOf [0, 3] args
    newLogger site args
  | .dialStream => dial streamNetworks .stream site args
  | .listenStream => listen streamNetworks .stream site args
  | .dialPacket => dial packetNetworks .packet site args
  | .dialPath => dial pathNetworks .path site args
  | .listenPath => listen pathNetworks .path site args
  | .newPipe => zero newPipe
  | .dbOpen => do
    site.exactly 2 args
    openDatabase site args
  | .newTime => do
    site.oneOf [0, 1] args
    newTime site args
  | .newDate => do
    site.oneOf [7, 8] args
    newDate site args
  | .unixTime => do
    site.oneOf [1, 2] args
    unixTime site args
  | .timeNow => zero do return .time (← gets (·.now))
  | .timeSleep => do
    site.exactly 1 args
    Method.pause (← site.intArg args 0).toInt
  | .timeParse => do
    site.exactly 2 args
    parseTime site args
  | .decimalOp op => Method.runDecimal site args op
  | .jsonMarshal => one jsonText
  | .jsonUnmarshal => do
    site.exactly 1 args
    jsonValue site args
  | .xmlMarshal => do
    site.oneOf [1, 2] args
    xmlText site args
  | .xmlUnmarshal => do
    site.exactly 1 args
    xmlValue site args
  | .host op => runHost E site args op
where
  /-- Without arguments. -/
  zero (m : Eval Value) : Eval Value := do
    site.exactly 0 args
    m
  /-- With one argument. -/
  one (f : CallSite → Value → Eval Value) : Eval Value := do
    site.exactly 1 args
    f site (args.headD .nil)
  /-- With two arguments. -/
  two (f : Value → Value → Eval Value) : Eval Value := do
    site.exactly 2 args
    f (args.headD .nil) (args.getD 1 .nil)
  /-- With one argument that may be left out. -/
  optional (m : Eval Value) (f : Value → Eval Value) : Eval Value := do
    site.oneOf [0, 1] args
    match args.head? with
    | some v => f v
    | none => m

end Builtin

namespace Registry

/-- The global functions. -/
def globals : List (String × Op) := [
  ("print", .print), ("println", .println), ("say", .println), ("len", .len),
  ("newList", .newList), ("methods", .methods), ("type", .type), ("assert", .assert),
  ("reverse", .reverse), ("iff", .iff), ("newArray", .newArray), ("deepEqual", .deepEqual),
  ("int", .int), ("uint", .uint), ("float", .float), ("str", .str), ("decimal", .decimal),
  ("array", .array), ("tuple", .tuple), ("hash", .hash),
  ("range", .range), ("abs", .abs), ("chr", .chr), ("ord", .ord),
  ("printf", .printf), ("sprintf", .sprintf), ("sscanf", .sscanf),
  ("is_a", .isA), ("instanceOf", .isA), ("classOf", .classOf),
  ("chan", .chan), ("newMutex", .newMutex), ("newRWMutex", .newRWMutex), ("newCond", .newCond),
  ("newOnce", .newOnce), ("newWaitGroup", .newWaitGroup), ("sleep", .sleep),
  ("open", .openFile), ("newFile", .openFile), ("newCsvReader", .newCsvReader),
  ("newCsvWriter", .newCsvWriter), ("newLogger", .newLogger), ("dialTCP", .dialStream),
  ("listenTCP", .listenStream), ("dialUDP", .dialPacket), ("dialUnix", .dialPath),
  ("listenUnix", .listenPath), ("newPipe", .newPipe), ("dbOpen", .dbOpen),
  ("newTime", .newTime), ("newDate", .newDate), ("unixTime", .unixTime)]

/-- The functions of namespaces. -/
def qualified : List (String × String × Op) := [
  ("time", "now", .timeNow), ("time", "sleep", .timeSleep), ("time", "parse", .timeParse)] ++
  Method.decimalFunctions.map (fun (name, op) => ("decimal", name, .decimalOp op)) ++ [
  ("json", "marshal", .jsonMarshal), ("json", "unmarshal", .jsonUnmarshal),
  ("xml", "marshal", .xmlMarshal), ("xml", "unmarshal", .xmlUnmarshal)]

/-- The double nearest to the circle number. -/
def pi : Float := Float.ofBits 0x400921fb54442d18

/-- The double nearest to the base of the natural logarithm. -/
def euler : Float := Float.ofBits 0x4005bf0a8b145769

/-- The constants of namespaces. -/
def constants : List (String × List (String × Value)) := [
  ("math", [("PI", .float pi), ("E", .float euler)]),
  ("time", Builtin.timeNumbers.map (fun (name, n) => (name, .int n)) ++
    Builtin.timeLayouts.map (fun (name, layout) => (name, .text layout)))]

/-- The built-in names every program sees. -/
def standard : Registry :=
  let r := globals.foldl (fun r (name, op) => r.define name op) empty
  let r := qualified.foldl (fun r (space, name, op) => r.defineIn space name op) r
  constants.foldl (fun r (space, batch) => r.addVars space batch) r

/-- The functions of the host that a program sees besides, in a namespace and globally. -/
def withHost (r : Registry) : Registry :=
  let r := r.addFunctions "host" [⟨"echo", .host .echo⟩, ⟨"fail", .host .fail⟩, ⟨"apply", .host .apply⟩]
  let r := r.addVars "host" [("VERSION", .text "1.0"), ("LIMIT", .int 7)]
  r.addFunctions "" [⟨"hostSum", .host .sum⟩]

end Registry

end ScriptEngine
