import ScriptEngine.Builtin.Library

/-!
# Calls and methods of any value

Functions of every kind are called here, and methods are looked up by the kind of their
receiver: along the class chain for objects and classes, among the exports of a package, and
in the method table of everything else.
-/

namespace ScriptEngine.Dispatch

open Eval

/-- Calls a value. A packaged method runs from the scope it was packaged in. -/
def call (E : Engine) (scope : Ref .scope) (callee : Value) (args : List Value) (span : Span) :
    Eval Value := do
  match callee with
  | .function r => Function.runRef E scope r args span
  | .native f => Builtin.run E ⟨scope, span, f.name⟩ args f.op
  | .bound r =>
    match ← gets (·.heap.bounds.get? r) with
    | some b => E.invoke b.scope b.receiver b.method args b.span
    | none => return .nil
  | .classDef r => fail (.classNeedsNew (← Object.className r)) span
  | other => fail (.general ("not a function: " ++ (← gets (·.typeName other)))) span

/-- The report that a value does not answer a method. -/
def unanswered {α : Type} (receiver : Value) (name : String) (span : Span) : Eval α := do
  Object.noMethod receiver name (← gets (·.methodNames receiver)) span

/-- Calls a method of a value by name. -/
def invoke (E : Engine) (scope : Ref .scope) (receiver : Value) (name : String)
    (args : List Value) (span : Span) : Eval Value := do
  match receiver with
  | .object r => Object.invoke E scope r name args span
  | .classDef r => Object.invokeStatic E scope r name args span
  | .package r =>
    let callee ← ofExcept span (← gets (·.export? r name))
    E.call scope callee args span
  | other =>
    if !(MethodNames.ofValue other).contains name then unanswered other name span
    else
      match (Answering.ofValue other).find? name with
      | some method => method E ⟨scope, span, name⟩ args
      | none => fail (.noMethod name other.tag) span

end ScriptEngine.Dispatch
