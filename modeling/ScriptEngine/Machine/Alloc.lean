import ScriptEngine.Machine.Eval
import ScriptEngine.Machine.Inspect

/-!
# Steps on the state

The single reads and writes that evaluation is made of: creating things, looking at them,
changing them, printing, and telling the listener.
-/

namespace ScriptEngine.Eval

/-! ### Creating -/

def newArray (items : Array Value) : Eval Value :=
  modifyGet fun s =>
    let (r, t) := s.heap.arrays.add items
    (.array r, { s with heap := { s.heap with arrays := t } })

/-- A new array of a list of items. -/
def newArrayOf (items : List Value) : Eval Value := newArray items.toArray

def newTuple (items : Array Value) : Eval Value :=
  modifyGet fun s =>
    let (r, t) := s.heap.tuples.add items
    (.tuple r, { s with heap := { s.heap with tuples := t } })

def newHash (entries : Assoc Key Value) : Eval Value :=
  modifyGet fun s =>
    let (r, t) := s.heap.hashes.add entries
    (.hash r, { s with heap := { s.heap with hashes := t } })

def newList (items : Array Value) : Eval Value :=
  modifyGet fun s =>
    let (r, t) := s.heap.lists.add items
    (.list r, { s with heap := { s.heap with lists := t } })

def newClosure (f : Closure) : Eval Value :=
  modifyGet fun s =>
    let (r, t) := s.heap.closures.add f
    (.function r, { s with heap := { s.heap with closures := t } })

/-- Packages a method with its receiver. -/
def newBound (receiver : Value) (method : String) (scope : Ref .scope) (span : Span) : Eval Value :=
  modifyGet fun s =>
    let label := s.typeName receiver ++ "." ++ method
    let (r, t) := s.heap.bounds.add ⟨receiver, method, label, scope, span⟩
    (.bound r, { s with heap := { s.heap with bounds := t } })

def newObject (cls : Ref .classDef) : Eval (Ref .object) :=
  modifyGet fun s =>
    let (r, t) := s.heap.objects.add ⟨cls, .empty⟩
    (r, { s with heap := { s.heap with objects := t } })

def newClass (c : ClassDef) : Eval (Ref .classDef) :=
  modifyGet fun s =>
    let (r, t) := s.classes.add c
    (r, { s with classes := t })

/-! ### Reading and writing containers -/

def arrayItems (r : Ref .array) : Eval (Array Value) :=
  gets fun s => (s.heap.arrays.get? r).getD #[]

def tupleItems (r : Ref .tuple) : Eval (Array Value) :=
  gets fun s => (s.heap.tuples.get? r).getD #[]

def listItems (r : Ref .list) : Eval (Array Value) :=
  gets fun s => (s.heap.lists.get? r).getD #[]

def hashEntries (r : Ref .hash) : Eval (Assoc Key Value) :=
  gets fun s => (s.heap.hashes.get? r).getD .empty

def modifyArray (r : Ref .array) (f : Array Value → Array Value) : Eval Unit :=
  modify fun s => { s with heap := { s.heap with arrays := s.heap.arrays.modify r f } }

def modifyList (r : Ref .list) (f : Array Value → Array Value) : Eval Unit :=
  modify fun s => { s with heap := { s.heap with lists := s.heap.lists.modify r f } }

def modifyHash (r : Ref .hash) (f : Assoc Key Value → Assoc Key Value) : Eval Unit :=
  modify fun s => { s with heap := { s.heap with hashes := s.heap.hashes.modify r f } }

/-- The value of a field of an object. -/
def field? (r : Ref .object) (name : String) : Eval (Option Value) :=
  gets fun s => (s.heap.objects.get? r).bind (·.fields.get? name)

def setField (r : Ref .object) (name : String) (v : Value) : Eval Unit :=
  modify fun s =>
    { s with heap := { s.heap with
      objects := s.heap.objects.modify r fun o => { o with fields := o.fields.insert name v } } }

/-- Writes a static field of a class. -/
def storeStatic (r : Ref .classDef) (name : String) (v : Value) : Eval Unit :=
  modify fun s => { s with classes := s.classes.setStatic r name v }

/-- The class of an object. -/
def classOf (r : Ref .object) : Eval (Ref .classDef) :=
  gets fun s => ((s.heap.objects.get? r).map (·.cls)).getD ClassTable.base

/-! ### Scopes -/

/-- A scope nested in another, for the same task. -/
def childScope (scope : Ref .scope) : Eval (Ref .scope) :=
  modifyGet fun s =>
    let (r, t) := s.scopes.child scope
    (r, { s with scopes := t })

/-- A scope nested in `outer` for the task of `caller`. -/
def enclosedScope (outer caller : Ref .scope) (owner : Option (Ref .classDef)) :
    Eval (Ref .scope) :=
  modifyGet fun s =>
    let (r, t) := s.scopes.add (.fresh (some outer) (s.scopes.task caller) owner)
    (r, { s with scopes := t })

/-- A scope without a parent for the task of `caller`. -/
def rootScope (caller : Ref .scope) : Eval (Ref .scope) :=
  modifyGet fun s =>
    let (r, t) := s.scopes.add (.fresh none (s.scopes.task caller) none)
    (r, { s with scopes := t })

/-- A scope nested in `scope` for a new task. -/
def taskScope (scope : Ref .scope) : Eval (Ref .scope) :=
  modifyGet fun s =>
    let (r, t) := s.scopes.add (.fresh (some scope) s.nextTask none)
    (r, { s with scopes := t, nextTask := s.nextTask + 1 })

/-- Changes a scope by a write to a name. The write to a constant is a fault at `span`. -/
def writeName (scope : Ref .scope) (name : String) (f : Scope → Scope) (span : Span) : Eval Unit :=
  fun s =>
    if s.scopes.isConstIn scope name then .stop (.fault ⟨.constant name, span⟩) s
    else .done () { s with scopes := s.scopes.modify scope f }

/-- Binds a name in a scope. -/
def bindName (scope : Ref .scope) (name : String) (v : Value) (span : Span) : Eval Unit :=
  writeName scope name (·.bind name v) span

/-- Binds a name in a scope for good. -/
def bindConst (scope : Ref .scope) (name : String) (v : Value) (span : Span) : Eval Unit :=
  writeName scope name (·.bindConst name v) span

/-- Changes the nearest binding of a name, or binds it in the scope if there is none. -/
def rebindName (scope : Ref .scope) (name : String) (v : Value) (span : Span) : Eval Unit := do
  let holder ← gets (·.scopes.holder scope name)
  bindName holder name v span

/-- Binds the receiver of a method under both of its names. -/
def bindReceiver (scope : Ref .scope) (receiver : Value) (span : Span) : Eval Unit := do
  bindName scope "self" receiver span
  bindName scope "this" receiver span

/-! ### Output and events -/

/-- Prints a text. -/
def print (text : String) : Eval Unit := modify fun s => { s with output := s.output ++ text }

/-- Tells the listener, if there is one. -/
def notify (e : Notice) : Eval Unit :=
  modify fun s => if s.listening then { s with events := e :: s.events } else s

/-! ### Tasks -/

/-- Lets other tasks have a turn, if there are any. -/
def yieldTurn : Eval Unit := fun s =>
  if s.concurrent then .wait .turn s fun _ s => .done () s else .done () s

end ScriptEngine.Eval
