import ScriptEngine.Eval.Object
import ScriptEngine.Machine.Package
import ScriptEngine.Method.Callable
import ScriptEngine.Method.Database
import ScriptEngine.Method.Decimal
import ScriptEngine.Method.Hash
import ScriptEngine.Method.Names
import ScriptEngine.Method.Number
import ScriptEngine.Method.Resource
import ScriptEngine.Method.Sync
import ScriptEngine.Method.Text
import ScriptEngine.Method.Time

/-!
# The methods a value answers

Every kind of value that is neither an object nor a class nor a package answers the methods
of one table. `State.methodNames` gives the names that any value says it answers.
-/

namespace ScriptEngine

/-- A receiver together with the methods it answers. -/
structure Answering where
  {α : Type}
  receiver : α
  table : MethodTable α

namespace Answering

/-- The methods of a value by its kind. -/
def ofValue : Value → Answering
  | .int n => ⟨n, Method.ofInt⟩
  | .uint n => ⟨n, Method.ofUInt⟩
  | .float x => ⟨x, Method.ofFloat⟩
  | .decimal d => ⟨d, Method.ofDecimal⟩
  | .text s => ⟨s, Method.ofText⟩
  | .array r => ⟨r, Method.ofArray⟩
  | .tuple r => ⟨r, Method.ofTuple⟩
  | .hash r => ⟨r, Method.ofHash⟩
  | .list r => ⟨r, Method.ofList⟩
  | .function r => ⟨.function r, Method.ofCallable⟩
  | .native f => ⟨.native f, Method.ofCallable⟩
  | .bound r => ⟨.bound r, Method.ofCallable⟩
  | .error f => ⟨f, Method.ofFault⟩
  | .mutex r => ⟨r, Method.ofMutex⟩
  | .rwLock r => ⟨r, Method.ofRwLock⟩
  | .cond r => ⟨r, Method.ofCond⟩
  | .once r => ⟨r, Method.ofOnce⟩
  | .waitGroup r => ⟨r, Method.ofWaitGroup⟩
  | .channel r => ⟨r, Method.ofChannel⟩
  | .file r => ⟨r, Method.ofFile⟩
  | .socket r => ⟨r, Method.ofSocket⟩
  | .logger r => ⟨r, Method.ofLogger⟩
  | .csvReader r => ⟨r, Method.ofCsvReader⟩
  | .csvWriter r => ⟨r, Method.ofCsvWriter⟩
  | .pipe r => ⟨r, Method.ofPipe⟩
  | .database r => ⟨r, Method.ofDatabase⟩
  | .time t => ⟨t, Method.ofTime⟩
  | v => ⟨v, []⟩

/-- The method of a name, for its receiver. -/
def find? (a : Answering) (name : String) :
    Option (Engine → CallSite → List Value → Eval Value) :=
  (a.table.find? name).map fun m E site args => m E site a.receiver args

end Answering

namespace State

/-- The methods of an object, with those of its ancestors. -/
def objectMethods (s : State) (r : Ref .object) : List String :=
  match s.heap.objects.get? r with
  | some o => s.classes.methodNames o.cls fun _ => true
  | none => []

/-- Names of the methods a value lists, in order and each once. -/
def methodNames (s : State) (v : Value) : List String :=
  let names : List String := match v with
    | .object r => s.objectMethods r
    | .classDef r => Object.staticNames s.classes r
    | .package r => (s.exports r).map (·.1)
    | other => MethodNames.ofValue other
  (names.mergeSort (· ≤ ·)).eraseReps

end State

end ScriptEngine
