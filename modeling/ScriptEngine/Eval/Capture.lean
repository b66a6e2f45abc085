import ScriptEngine.Eval.Access

/-!
# Calls that happen later

Deferring and spawning both capture a call: the callee and the arguments are evaluated at
once, and the call is made when the current function ends, or by a task of its own.
-/

namespace ScriptEngine.Capture

open Eval

/-- The callee and the arguments of a call that is not made yet; none if the expression is
neither a call nor a function. -/
def call? (E : Engine) (scope : Ref .scope) (e : Expr) : Eval (Option (Value × List Value)) := do
  match e.form with
  | .call callee args =>
    let callee ← E.expr scope callee
    return some (callee, ← E.exprs scope args)
  | .methodCall object method args =>
    let callee ← match ← Access.namespace? scope object with
      | some space =>
        ofOption (← gets (·.registry.lookupIn space method)) (.noMethod method space) e.span
      | none => do newBound (← E.expr scope object) method scope e.span
    return some (callee, ← E.exprs scope args)
  | .function _ _ _ => return some (← E.expr scope e, [])
  | _ => return none

/-- A captured call of something callable, or else a fault. -/
def callable (E : Engine) (scope : Ref .scope) (e : Expr) (otherwise : Cause) (span : Span) :
    Eval (Value × List Value) := do
  match ← call? E scope e with
  | some (callee, args) => if callee.isCallable then return (callee, args) else fail otherwise span
  | none => fail otherwise span

/-- Leaves a call to the end of the current function. -/
def defer (E : Engine) (scope : Ref .scope) (e : Expr) (span : Span) : Eval Unit := do
  let task ← gets (·.scopes.task scope)
  if (← gets (·.stack.current? task)).isNone then fail .badDefer span
  else
    let (callee, args) ← callable E scope e .badDefer span
    match ← gets (·.stack.edit task fun f => { f with deferred := ⟨callee, args, span⟩ :: f.deferred }) with
    | some stack => modify fun s => { s with stack }
    | none => fail .badDefer span

/-- Leaves a call to a new task. -/
def spawn (E : Engine) (scope : Ref .scope) (e : Expr) (span : Span) : Eval Value := do
  let (callee, args) ← callable E scope e .badSpawn span
  let inner ← taskScope scope
  modify fun s => { s with spawned := ⟨inner, callee, args, span⟩ :: s.spawned, concurrent := true }
  return .nil

end ScriptEngine.Capture
