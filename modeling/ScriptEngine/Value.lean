import ScriptEngine.Fault
import ScriptEngine.Decimal.Basic
import ScriptEngine.Calendar.Moment
import ScriptEngine.Builtin.Op

/-!
# Values

Everything a program can hold. Numbers, texts, moments, faults and built-in functions are
values by themselves; everything with contents or an identity is a `Ref` into the table of
its `Store`, so that two values can be the same thing and a change shows in both.
-/

namespace ScriptEngine

/-- The tables a reference can point into. -/
inductive Store where
  | array
  | tuple
  | hash
  | list
  | closure
  | bound
  | classDef
  | object
  | scope
  | mutex
  | rwLock
  | cond
  | once
  | waitGroup
  | channel
  | file
  | socket
  | logger
  | csvReader
  | csvWriter
  | pipe
  | database
  | package
deriving DecidableEq, Repr

/-- A place in the table of store `s`. -/
structure Ref (s : Store) where
  index : Nat
deriving DecidableEq, Repr, Inhabited

/-- A value. -/
inductive Value where
  | nil
  | bool (b : Bool)
  | int (n : Int64)
  | uint (n : UInt64)
  | float (x : Float)
  | decimal (d : Decimal)
  | text (s : String)
  | array (r : Ref .array)
  | tuple (r : Ref .tuple)
  | hash (r : Ref .hash)
  | list (r : Ref .list)
  | function (r : Ref .closure)
  | native (f : Native)
  /-- A method packaged together with its receiver. -/
  | bound (r : Ref .bound)
  | classDef (r : Ref .classDef)
  | object (r : Ref .object)
  | error (f : Fault)
  | mutex (r : Ref .mutex)
  | rwLock (r : Ref .rwLock)
  | cond (r : Ref .cond)
  | once (r : Ref .once)
  | waitGroup (r : Ref .waitGroup)
  | channel (r : Ref .channel)
  | file (r : Ref .file)
  | socket (r : Ref .socket)
  | logger (r : Ref .logger)
  | csvReader (r : Ref .csvReader)
  | csvWriter (r : Ref .csvWriter)
  | pipe (r : Ref .pipe)
  | database (r : Ref .database)
  | package (r : Ref .package)
  | time (t : Calendar.Moment)
deriving Inhabited

/-- Keys of hashes: integers, booleans and texts. Keys of different kinds differ. -/
inductive Key where
  | int (n : Int64)
  | uint (n : UInt64)
  | bool (b : Bool)
  | text (s : String)
deriving DecidableEq, Repr

namespace Key

/-- The key a value stands for. -/
def ofValue? : Value → Option Key
  | .int n => some (.int n)
  | .uint n => some (.uint n)
  | .bool b => some (.bool b)
  | .text s => some (.text s)
  | _ => none

def toValue : Key → Value
  | .int n => .int n
  | .uint n => .uint n
  | .bool b => .bool b
  | .text s => .text s

/-- The text of a boolean. -/
def boolText (b : Bool) : String := if b then "true" else "false"

def toText : Key → String
  | .int n => toString n.toInt
  | .uint n => toString n.toNat
  | .bool b => boolText b
  | .text s => s

@[simp] theorem ofValue?_toValue (k : Key) : ofValue? k.toValue = some k := by
  cases k <;> rfl

end Key

namespace Value

/-- The tag of a value's kind. -/
def tag : Value → String
  | nil => "NIL"
  | bool _ => "BOOLEAN"
  | int _ => "INTEGER"
  | uint _ => "UINTEGER"
  | float _ => "FLOAT"
  | decimal _ => "DECIMAL"
  | text _ => "STRING"
  | array _ => "ARRAY"
  | tuple _ => "TUPLE"
  | hash _ => "HASH"
  | list _ => "LIST"
  | function _ => "FUNCTION"
  | native _ => "BUILTIN"
  | bound _ => "BUILTIN"
  | classDef _ => "CLASS"
  | object _ => "INSTANCE"
  | error _ => "ERROR"
  | mutex _ => "MUTEX"
  | rwLock _ => "RWMUTEX"
  | cond _ => "COND"
  | once _ => "ONCE"
  | waitGroup _ => "WAITGROUP"
  | channel _ => "CHANNEL"
  | file _ => "FILE"
  | socket _ => "SOCKET"
  | logger _ => "LOGGER"
  | csvReader _ => "CSV_READER"
  | csvWriter _ => "CSV_WRITER"
  | pipe _ => "PIPE"
  | database _ => "DATABASE"
  | package _ => "MODULE"
  | time _ => "TIME"

/-- Whether the value can be called like a function. -/
def isCallable : Value → Bool
  | function _ => true
  | native _ => true
  | bound _ => true
  | _ => false

def isNil : Value → Bool
  | nil => true
  | _ => false

/-- The signed 64-bit integer a value stands for. -/
def asInt? : Value → Option Int64
  | int n => some n
  | uint n => if n.toNat < 9223372036854775808 then some (Int64.ofNat n.toNat) else none
  | _ => none

end Value

end ScriptEngine
