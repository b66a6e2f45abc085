import ScriptEngine.Value

/-!
# The names of methods

What the kinds of values say about the methods that they answer. The names are listed apart from the
methods themselves: `methods` gives these names, suggestions are made from them, and a name that is not
among them is not even looked for.
-/

namespace ScriptEngine.MethodNames

def int : List String := ["abs", "str", "float", "uint", "decimal", "isEven", "isOdd"]

def uint : List String := ["str", "float", "int", "decimal", "isEven", "isOdd"]

def float : List String := ["abs", "str", "int", "round", "floor", "ceil", "decimal", "isNaN"]

def decimal : List String :=
  ["neg", "abs", "add", "sub", "mul", "div", "divRound", "mod", "pow", "ceil", "round", "trunc",
    "truncate", "floor", "cmp", "equal", "greaterThan", "greaterThanOrEqual", "lessThan",
    "lessThanOrEqual", "stringFixed", "stringScaled", "string", "sign", "exponent", "intPart",
    "float", "isZero", "new", "fromString", "fromFloat", "fromFloatWithExponent", "avg", "max",
    "min", "sum", "setDivisionPrecision", "getDivisionPrecision", "setMarshalJSONWithoutQuotes",
    "getMarshalJSONWithoutQuotes"]

def text : List String :=
  ["len", "upper", "lower", "trim", "split", "contains", "startsWith", "endsWith", "replace",
    "index", "chars", "reverse", "repeat"]

def array : List String :=
  ["len", "push", "pop", "shift", "first", "last", "join", "contains", "indexOf", "reverse",
    "slice", "map", "filter", "each", "reduce"]

def tuple : List String := ["len", "get", "contains", "toArray"]

def hash : List String := ["len", "keys", "values", "get", "set", "has", "delete", "merge", "each"]

def list : List String :=
  ["pushBack", "pushFront", "popBack", "popFront", "front", "back", "len", "isEmpty", "clear",
    "toArray", "get", "insert", "remove"]

def callable : List String := ["call", "name"]

def fault : List String := ["message", "kind", "line"]

def mutex : List String := ["lock", "unlock", "tryLock"]

def rwLock : List String := ["lock", "unlock", "rLock", "rUnlock"]

def cond : List String := ["wait", "signal", "broadcast"]

def once : List String := ["do"]

def waitGroup : List String := ["add", "done", "wait"]

def channel : List String := ["send", "recv", "trySend", "tryRecv", "close", "len"]

def file : List String := ["read", "readLine", "write", "writeLine", "close", "name"]

def socket : List String := ["read", "readLine", "write", "accept", "close", "addr"]

def logger : List String :=
  ["print", "println", "printf", "prefix", "setPrefix", "flags", "setFlags"]

def csvReader : List String := ["read", "readAll", "close"]

def csvWriter : List String := ["write", "writeAll", "flush"]

def pipe : List String := ["write", "read", "readAll", "close"]

def database : List String :=
  ["exec", "query", "queryRow", "lastInsertId", "ping", "close", "driver"]

def time : List String :=
  ["utc", "local", "unix", "unixNano", "unixLocal", "unixLocalNano", "fromEpoch", "toEpoch",
    "toStr", "toUTCStr", "toISOStr", "toGMTStr", "toDateStr", "toTimeStr", "year", "fullYear",
    "month", "date", "day", "yearDay", "weekDay", "hour", "hours", "minute", "minutes", "second",
    "seconds", "milliseconds", "add", "addDate", "after", "before", "equal", "sub", "appendFormat",
    "clock", "format", "isoWeek", "isZero", "round", "truncate", "parse", "setValid", "sleep",
    "strftime", "string"]

/-- The names that a value lists. Objects, classes and packages look for theirs elsewhere. -/
def ofValue : Value → List String
  | .int _ => int
  | .uint _ => uint
  | .float _ => float
  | .decimal _ => decimal
  | .text _ => text
  | .array _ => array
  | .tuple _ => tuple
  | .hash _ => hash
  | .list _ => list
  | .function _ => callable
  | .native _ => callable
  | .bound _ => callable
  | .error _ => fault
  | .mutex _ => mutex
  | .rwLock _ => rwLock
  | .cond _ => cond
  | .once _ => once
  | .waitGroup _ => waitGroup
  | .channel _ => channel
  | .file _ => file
  | .socket _ => socket
  | .logger _ => logger
  | .csvReader _ => csvReader
  | .csvWriter _ => csvWriter
  | .pipe _ => pipe
  | .database _ => database
  | .time _ => time
  | _ => []

end ScriptEngine.MethodNames
