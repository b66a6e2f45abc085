import ScriptEngine.Machine.State
import ScriptEngine.Decimal.Text
import ScriptEngine.Calendar.Format

/-!
# Looking at values

The text a program prints for a value, whether a value counts as true, and when two values
are equal. Texts and equality go through containers; since a container is at most as deep
as there are containers, that number bounds the recursion. Only in a container that contains
itself is there no end: there the host would go round for ever, and what is answered here once
the bound is reached (no text, not equal) is the answer of no program.
-/

namespace ScriptEngine

namespace State

/-- The class name of an object, and the tag of any other value. -/
def typeName (s : State) : Value → String
  | .object r => (((s.heap.objects.get? r).map fun o => s.classes.name o.cls)).getD ""
  | v => v.tag

/-- The name of a callable value. -/
def callableName (s : State) : Value → String
  | .function r => ((s.heap.closures.get? r).map (·.name)).getD ""
  | .native f => f.name
  | .bound r => ((s.heap.bounds.get? r).map (·.label)).getD ""
  | _ => ""

/-- Texts with commas between them. -/
def listed (parts : List String) : String := String.intercalate ", " parts

/-- The text of a value, at most `fuel` containers deep. Whatever is deeper contains itself. -/
def inspectWithin (s : State) : Nat → Value → String
  | _, .nil => "nil"
  | _, .bool b => Key.boolText b
  | _, .int n => toString n.toInt
  | _, .uint n => toString n.toNat
  | _, .float x => Binary64.display x
  | _, .decimal d => d.toText
  | _, .text t => t
  | 0, _ => ""
  | fuel + 1, .array r =>
    "[" ++ listed (((s.heap.arrays.get? r).getD #[]).toList.map (s.inspectWithin fuel)) ++ "]"
  | fuel + 1, .tuple r =>
    "(" ++ listed (((s.heap.tuples.get? r).getD #[]).toList.map (s.inspectWithin fuel)) ++ ")"
  | fuel + 1, .list r =>
    "list[" ++ listed (((s.heap.lists.get? r).getD #[]).toList.map (s.inspectWithin fuel)) ++ "]"
  | fuel + 1, .hash r =>
    "\x7b" ++ listed (((s.heap.hashes.get? r).getD .empty).entries.map fun e =>
      e.1.toText ++ " => " ++ s.inspectWithin fuel e.2) ++ "\x7d"
  | _ + 1, .function r => "<fn " ++ s.callableName (.function r) ++ ">"
  | _ + 1, .native f => "<builtin " ++ f.name ++ ">"
  | _ + 1, .bound r => "<builtin " ++ s.callableName (.bound r) ++ ">"
  | _ + 1, .classDef r => "<class " ++ s.classes.name r ++ ">"
  | _ + 1, .object r => "<" ++ s.typeName (.object r) ++ " instance>"
  | _ + 1, .error f => "Runtime Error: " ++ f.message
  | _ + 1, .mutex _ => "<mutex>"
  | _ + 1, .rwLock _ => "<rwmutex>"
  | _ + 1, .cond _ => "<cond>"
  | _ + 1, .once _ => "<once>"
  | _ + 1, .waitGroup r =>
    "<waitgroup " ++ toString (((s.sync.groups.get? r).map (·.count.toInt)).getD 0) ++ ">"
  | _ + 1, .channel r =>
    "<channel " ++ toString (((s.sync.channels.get? r).map (·.size)).getD 0) ++ ">"
  | _ + 1, .file r => "<file " ++ ((s.host.files.get? r).map (·.path)).getD "" ++ ">"
  | _ + 1, .socket r =>
    "<socket " ++ ((s.host.sockets.get? r).map (·.address)).getD "" ++ ">"
  | _ + 1, .logger r => "<logger " ++ ((s.host.loggers.get? r).map (·.label)).getD "" ++ ">"
  | _ + 1, .csvReader _ => "<csv reader>"
  | _ + 1, .csvWriter _ => "<csv writer>"
  | _ + 1, .pipe _ => "<pipe>"
  | _ + 1, .database r => "<database " ++ ((s.host.databases.get? r).map (·.driver)).getD "" ++ ">"
  | _ + 1, .package r => "<module " ++ ((s.packages.table.get? r).map (·.name)).getD "" ++ ">"
  | _ + 1, .time t => t.text

/-- The text of a value. -/
def inspect (s : State) (v : Value) : String := s.inspectWithin s.heap.depth v

/-- The number of items of a text or collection. -/
def itemCount? (s : State) : Value → Option Nat
  | .text t => some t.length
  | .array r => some ((s.heap.arrays.get? r).getD #[]).size
  | .tuple r => some ((s.heap.tuples.get? r).getD #[]).size
  | .hash r => some ((s.heap.hashes.get? r).getD .empty).size
  | .list r => some ((s.heap.lists.get? r).getD #[]).size
  | _ => none

/-- Whether a value counts as true: nil, false, zeros and empty things do not. -/
def isTrue (s : State) : Value → Bool
  | .nil => false
  | .bool b => b
  | .int n => n != 0
  | .uint n => n != 0
  | .float x => x != 0.0
  | .decimal d => !d.isZero
  | v =>
    match s.itemCount? v with
    | some n => n != 0
    | none => true

/-- Whether a value is nil or an empty text or collection. -/
def isEmpty (s : State) : Value → Bool
  | .nil => true
  | v => s.itemCount? v == some 0

/-- The items of an array, tuple or list, or the characters of a text. -/
def items? (s : State) : Value → Option (List Value)
  | .array r => some ((s.heap.arrays.get? r).getD #[]).toList
  | .tuple r => some ((s.heap.tuples.get? r).getD #[]).toList
  | .list r => some ((s.heap.lists.get? r).getD #[]).toList
  | .text t => some (t.toList.map fun c => .text c.toString)
  | _ => none

/-- Whether two lists are equal item by item. -/
def allEqual (eq : Value → Value → Bool) : List Value → List Value → Bool
  | [], [] => true
  | a :: as, b :: bs => eq a b && allEqual eq as bs
  | _, _ => false

/-- Equality of values, at most `fuel` containers deep. Containers are equal if they are one
or hold equal things; functions, objects and things of the host only if they are one. Whatever is
deeper than the containers there are contains itself. -/
def equalWithin (s : State) : Nat → Value → Value → Bool
  | _, .nil, .nil => true
  | _, .bool a, .bool b => a == b
  | _, .int a, .int b => a == b
  | _, .uint a, .uint b => a == b
  | _, .int a, .uint b => a.toInt == (b.toNat : Int)
  | _, .uint a, .int b => (a.toNat : Int) == b.toInt
  | _, .float a, .float b => a == b
  | _, .int a, .float b => Float.ofInt a.toInt == b
  | _, .float a, .int b => a == Float.ofInt b.toInt
  | _, .decimal a, .decimal b => a.eq b
  | _, .text a, .text b => a == b
  | 0, _, _ => false
  | fuel + 1, .array a, .array b =>
    a == b || allEqual (s.equalWithin fuel) ((s.heap.arrays.get? a).getD #[]).toList
      ((s.heap.arrays.get? b).getD #[]).toList
  | fuel + 1, .tuple a, .tuple b =>
    allEqual (s.equalWithin fuel) ((s.heap.tuples.get? a).getD #[]).toList
      ((s.heap.tuples.get? b).getD #[]).toList
  | fuel + 1, .list a, .list b =>
    a == b || allEqual (s.equalWithin fuel) ((s.heap.lists.get? a).getD #[]).toList
      ((s.heap.lists.get? b).getD #[]).toList
  | fuel + 1, .hash a, .hash b =>
    a == b ||
      (let m := (s.heap.hashes.get? a).getD .empty
       let n := (s.heap.hashes.get? b).getD .empty
       m.size == n.size && m.entries.all fun e =>
         match n.get? e.1 with
         | some w => s.equalWithin fuel e.2 w
         | none => false)
  | _ + 1, .function a, .function b => a == b
  | _ + 1, .classDef a, .classDef b => a == b
  | _ + 1, .object a, .object b => a == b
  | _ + 1, .error a, .error b => decide (a = b)
  | _ + 1, .mutex a, .mutex b => a == b
  | _ + 1, .rwLock a, .rwLock b => a == b
  | _ + 1, .cond a, .cond b => a == b
  | _ + 1, .once a, .once b => a == b
  | _ + 1, .waitGroup a, .waitGroup b => a == b
  | _ + 1, .channel a, .channel b => a == b
  | _ + 1, .file a, .file b => a == b
  | _ + 1, .socket a, .socket b => a == b
  | _ + 1, .logger a, .logger b => a == b
  | _ + 1, .csvReader a, .csvReader b => a == b
  | _ + 1, .csvWriter a, .csvWriter b => a == b
  | _ + 1, .pipe a, .pipe b => a == b
  | _ + 1, .database a, .database b => a == b
  | _ + 1, .package a, .package b => a == b
  | _ + 1, .time a, .time b => a.same b
  | _ + 1, a, b => a.isCallable && b.isCallable && a.tag == "BUILTIN" && b.tag == "BUILTIN" &&
      s.callableName a == s.callableName b

/-- Equality of values. -/
def equal (s : State) (a b : Value) : Bool := s.equalWithin s.heap.depth a b

end State

end ScriptEngine
