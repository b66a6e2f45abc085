import ScriptEngine.Eval.Assignment
import ScriptEngine.Eval.Capture
import ScriptEngine.Eval.Declaration
import ScriptEngine.Decimal.Text

/-!
# Expressions

The value of each form of expression. Operands are evaluated from the left, and a fault that
is held as a value is no operand; values that are only stored or passed on may be faults.
-/

namespace ScriptEngine.Expr

open Eval

/-- The keys and values of a hash literal, from the left. -/
def entries (E : Engine) (scope : Ref .scope) : Assoc Key Value → List (Expr × Expr) →
    Eval (Assoc Key Value)
  | acc, [] => return acc
  | acc, (key, value) :: rest => do
    let k ← Access.hashKey (← E.operand scope key) key.span
    entries E scope (acc.insert k (← E.expr scope value)) rest

/-- A bound of a range. -/
def rangeBound (E : Engine) (scope : Ref .scope) (e : Expr) : Eval Int := do
  match ← E.operand scope e with
  | .int n => return n.toInt
  | .uint n =>
    if n.toNat < 9223372036854775808 then return n.toNat else fail (.invalidArgument (toString n.toNat)) e.span
  | other => fail (.rangeType "INTEGER" (← gets (·.typeName other))) e.span

/-- The integers from `start` up to `stop`, without it. -/
def rangeValues (start stop : Int) : List Value :=
  (List.range (stop - start).toNat).map fun (k : Nat) => .int (Int64.ofInt (start + k))

/-- A method call on what an expression names: a function of a namespace, or a method of a
value. A fault that is held as a value answers methods too. -/
def methodCall (E : Engine) (scope : Ref .scope) (object : Expr) (method : String)
    (args : List Expr) (span : Span) : Eval Value := do
  match ← Access.namespace? scope object with
  | some space =>
    let callee ← ofOption (← gets (·.registry.lookupIn space method)) (.noMethod method space) span
    E.call scope callee (← E.exprs scope args) span
  | none =>
    let receiver ← E.expr scope object
    E.invoke scope receiver method (← E.exprs scope args) span

/-- The name of a function that has none. -/
def anonymous : String := "<anonymous>"

/-- The value of an expression, by an engine for what it is made of. -/
def eval (E : Engine) (scope : Ref .scope) (e : Expr) : Eval Value := do
  let span := e.span
  match e.form with
  | .nil => return .nil
  | .bool b => return .bool b
  | .int n => return .int n
  | .uint n => return .uint n
  | .float x => return .float x
  | .decimal text =>
    match Decimal.parse text with
    | .ok d => return .decimal d
    | .error e => fail (.invalidArgument e.message) span
  | .text s => return .text s
  | .array items => newArrayOf (← E.exprs scope items)
  | .tuple items => newTuple (← E.exprs scope items).toArray
  | .hash pairs => newHash (← entries E scope .empty pairs)
  | .name name => Access.lookup scope name span
  | .prefixed op operand => Operators.prefixed op (← E.operand scope operand) span
  | .binary .and left right =>
    if ← E.condition scope left then return .bool (← E.condition scope right) else return .bool false
  | .binary .or left right =>
    if ← E.condition scope left then return .bool true else return .bool (← E.condition scope right)
  | .binary op left right =>
    let a ← E.operand scope left
    let b ← E.operand scope right
    Operators.binary op a b span
  | .postfixed op target => Place.step E scope op target span
  | .assign op target value => Place.assign E scope op target value span
  | .range start stop =>
    let first ← rangeBound E scope start
    let last ← rangeBound E scope stop
    newArrayOf (rangeValues first last)
  | .index object index =>
    let container ← E.operand scope object
    let index ← E.operand scope index
    Access.getAt E scope container index span
  | .slice object start stop => Access.slice E scope object start stop span
  | .member object name => Access.member E scope object name span
  | .methodCall object method args => methodCall E scope object method args span
  | .call callee args =>
    let f ← E.operand scope callee
    E.call scope f (← E.exprs scope args) span
  | .function name params body =>
    newClosure ⟨name.getD anonymous, params, body, scope, span, .value⟩
  | .new cls args => Declaration.instantiate E scope cls args span
  | .super method args => Object.invokeSuper E scope method args span
  | .spawn task => Capture.spawn E scope task span
  | .conditional condition yes no =>
    if ← E.condition scope condition then E.expr scope yes else E.expr scope no

end ScriptEngine.Expr
