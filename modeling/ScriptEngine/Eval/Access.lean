import ScriptEngine.Eval.Dispatch

/-!
# Names, indices, slices and members

A name means its nearest binding, else a built-in class, else a built-in function. Positions
in arrays, tuples and texts count from zero; negative ones count from the end.
-/

namespace ScriptEngine.Access

open Eval

/-- The report of an unknown name, with the similar ones among those that are visible. -/
def unknownName {α : Type} (scope : Ref .scope) (name : String) (span : Span) : Eval α := do
  let known ← gets fun s =>
    s.scopes.visibleNames scope ++ s.registry.names ++ ClassTable.builtinNames
  match Suggestion.similar name known with
  | [] => fail (.unknownName name) span
  | near => fail (.unknownNameLike name (Suggestion.text near)) span

/-- The value of a name. -/
def lookup (scope : Ref .scope) (name : String) (span : Span) : Eval Value := do
  match ← gets (·.scopes.get? scope name) with
  | some v => return v
  | none =>
    match ClassTable.builtin? name with
    | some r => return .classDef r
    | none =>
      match ← gets (·.registry.lookup name) with
      | some v => return v
      | none => unknownName scope name span

/-- The built-in namespace that an expression names, unless a binding hides it. -/
def namespace? (scope : Ref .scope) (e : Expr) : Eval (Option String) :=
  match e.form with
  | .name name => gets fun s =>
    if (s.scopes.get? scope name).isNone && s.registry.hasNamespace name then some name else none
  | _ => return none

/-! ### Indices -/

/-- The position that an index means among `size` items. -/
def position? (index : Int64) (size : Nat) : Option Nat :=
  let place := if index < 0 then size + index.toInt else index.toInt
  if 0 ≤ place ∧ place < size then some place.toNat else none

/-- An index, which has to be an integer. -/
def integerIndex (index : Value) (span : Span) : Eval Int64 := do
  match index.asInt? with
  | some n => return n
  | none => fail (.invalidArgument (← gets (·.inspect index))) span

/-- A key of a hash. -/
def hashKey (key : Value) (span : Span) : Eval Key := do
  match Key.ofValue? key with
  | some k => return k
  | none => fail (.notHashable (← gets (·.typeName key))) span

/-- The item at an index. -/
def itemAt (items : Array Value) (index : Value) (span : Span) : Eval Value := do
  let i ← integerIndex index span
  ofOption ((position? i items.size).bind (items[·]?)) (.indexRange i.toInt) span

/-- A value without access by index. -/
def notIndexable {α : Type} (v : Value) (span : Span) : Eval α := do
  fail (.notIndexable (← gets (·.typeName v))) span

/-- Reads by index or key. -/
def getAt (E : Engine) (scope : Ref .scope) (container index : Value) (span : Span) :
    Eval Value := do
  match container with
  | .array r => itemAt (← arrayItems r) index span
  | .tuple r => itemAt (← tupleItems r) index span
  | .text s => itemAt (Method.singles s).toArray index span
  | .hash r =>
    let k ← hashKey index span
    return ((← hashEntries r).get? k).getD .nil
  | .object r => Object.getAt E scope r index span
  | other => notIndexable other span

/-- A collection that cannot change. -/
def immutable {α : Type} (v : Value) (span : Span) : Eval α :=
  fail (.general ("cannot assign to an element of immutable " ++ v.tag)) span

/-- Writes by index or key. -/
def setAt (E : Engine) (scope : Ref .scope) (container index v : Value) (span : Span) :
    Eval Unit := do
  match container with
  | .array r =>
    let i ← integerIndex index span
    let items ← arrayItems r
    match position? i items.size with
    | some p => modifyArray r (·.setIfInBounds p v)
    | none => fail (.indexRange i.toInt) span
  | .hash r =>
    let k ← hashKey index span
    modifyHash r (·.insert k v)
  | .object r => Object.setAt E scope r index v span
  | .tuple _ => immutable container span
  | .text _ => immutable container span
  | other => notIndexable other span

/-! ### Slices -/

/-- The part of `size` items that the bounds of a slice mean. -/
def sliceBounds? (start stop : Option Int64) (size : Nat) : Option (Nat × Nat) :=
  let place (n : Int) : Int := if n < 0 then size + n else n
  let first := place ((start.map Int64.toInt).getD 0)
  let last := place ((stop.map Int64.toInt).getD size)
  if 0 ≤ first ∧ first ≤ last ∧ last ≤ size then some (first.toNat, last.toNat) else none

/-- A bound of a slice. -/
def sliceBound (E : Engine) (scope : Ref .scope) : Option Expr → Eval (Option Int64)
  | none => return none
  | some e => do return some (← integerIndex (← E.operand scope e) e.span)

/-- The items between two bounds. -/
def sliceOf (items : Array Value) (start stop : Option Int64) (span : Span) :
    Eval (Array Value) := do
  match sliceBounds? start stop items.size with
  | some (first, last) => return items.extract first last
  | none =>
    fail (.sliceRange ((start.map Int64.toInt).getD 0) ((stop.map Int64.toInt).getD (-1))) span

/-- The text of items that are texts. -/
def joinedText (items : Array Value) : String :=
  items.foldl (fun acc v => match v with | .text s => acc ++ s | _ => acc) ""

/-- Part of an array, a tuple or a text. -/
def slice (E : Engine) (scope : Ref .scope) (object : Expr) (start stop : Option Expr)
    (span : Span) : Eval Value := do
  let container ← E.operand scope object
  let start ← sliceBound E scope start
  let stop ← sliceBound E scope stop
  match container with
  | .array r => newArray (← sliceOf (← arrayItems r) start stop span)
  | .tuple r => newTuple (← sliceOf (← tupleItems r) start stop span)
  | .text s => return .text (joinedText (← sliceOf (Method.singles s).toArray start stop span))
  | other => notIndexable other span

/-! ### Members -/

/-- Reads a member of a value. -/
def getMember (E : Engine) (scope : Ref .scope) (receiver : Value) (name : String) (span : Span) :
    Eval Value := do
  match receiver with
  | .object r => Object.get E scope r name span
  | .classDef r => Object.getStatic scope r name span
  | .hash r => return ((← hashEntries r).get? (.text name)).getD .nil
  | .package r => ofExcept span (← gets (·.export? r name))
  | other => Dispatch.unanswered other name span

/-- Writes a member of a value. -/
def setMember (E : Engine) (scope : Ref .scope) (receiver : Value) (name : String) (v : Value)
    (span : Span) : Eval Unit := do
  match receiver with
  | .object r => Object.set E scope r name v span
  | .classDef r => Object.setStatic scope r name v span
  | .hash r => modifyHash r (·.insert (.text name) v)
  | other =>
    fail (.general ("cannot assign member '" ++ name ++ "' on " ++ (← gets (·.typeName other)))) span

/-- Reads a member of what an expression names: a name of a namespace, or a member of a
value. -/
def member (E : Engine) (scope : Ref .scope) (object : Expr) (name : String) (span : Span) :
    Eval Value := do
  match ← namespace? scope object with
  | some space =>
    ofOption (← gets (·.registry.lookupIn space name)) (.unknownName (space ++ "." ++ name)) span
  | none => getMember E scope (← E.operand scope object) name span

end ScriptEngine.Access
