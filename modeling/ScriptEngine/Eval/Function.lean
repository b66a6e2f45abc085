import ScriptEngine.Eval.Engine

/-!
# Calls of script functions

A call checks the number of arguments and the depth, pushes a frame, binds the parameters,
runs the body and takes the frame down again; then it makes the calls that the frame has
deferred, the latest first. The frame comes down whatever the body ends with.
-/

namespace ScriptEngine.Function

open Eval

/-- The number of calls of one task that may be in progress. -/
def maxDepth : Nat := 512

/-- Binds parameters to arguments. A parameter without one gets its default, computed in the
scope of the function, or nil. -/
def bindParams (E : Engine) (scope : Ref .scope) (span : Span) :
    List Param → List Value → Eval Unit
  | [], _ => return ()
  | p :: params, arg :: args => do
    bindName scope p.name arg span
    bindParams E scope span params args
  | p :: params, [] => do
    let v ← match p.default? with
      | some e => E.expr scope e
      | none => pure .nil
    bindName scope p.name v span
    bindParams E scope span params []

/-- Binds the parameters and runs the body. -/
def runBody (E : Engine) (scope : Ref .scope) (f : Closure) (args : List Value) (span : Span) :
    Eval Value := do
  bindParams E scope f.span f.params args
  match ← E.body scope f.body with
  | .normal v => return v
  | .return v => return v
  | _ => fail (.general ("'break' or 'continue' escaped function '" ++ f.name ++ "'")) span

/-- Pushes a frame for the task of the scope. -/
def pushFrame (scope : Ref .scope) (name : String) (span : Span) : Eval Unit :=
  modify fun s => { s with stack := s.stack.push ⟨name, s.scopes.task scope, span, []⟩ }

/-- Takes the task's innermost frame down and gives the calls it has deferred. -/
def popFrame (scope : Ref .scope) : Eval (List Deferred) :=
  modifyGet fun s =>
    match s.stack.pop (s.scopes.task scope) with
    | some (frame, stack) => (frame.deferred, { s with stack })
    | none => ([], s)

/-- The number of calls of the scope's task that are in progress. -/
def depth (scope : Ref .scope) : Eval Nat := gets fun s => s.stack.depth (s.scopes.task scope)

/-- Makes deferred calls. The first fault is kept, that of the body before those of the
calls. -/
def runDeferred (E : Engine) (scope : Ref .scope) :
    List Deferred → Except Fault Value → Eval (Except Fault Value)
  | [], result => return result
  | d :: rest, result => do
    match ← attempt (E.call scope d.callee d.args d.span), result with
    | .error f, .ok _ => runDeferred E scope rest (.error f)
    | _, _ => runDeferred E scope rest result

/-- Calls a script function from the scope `caller`. -/
def run (E : Engine) (caller : Ref .scope) (f : Closure) (args : List Value) (span : Span)
    (binding : Binding) : Eval Value := do
  if !f.accepts args.length then fail (.argumentCount f.arityLabel args.length) span
  let before ← depth caller
  if maxDepth ≤ before then
    fail (.general ("maximum call depth of " ++ toString maxDepth ++ " exceeded in '" ++ f.name ++
      "'")) span
  let scope ← enclosedScope f.scope caller binding.owner
  match binding.receiver with
  | some receiver => bindReceiver scope receiver span
  | none => pure ()
  pushFrame scope f.name span
  notify (.call ⟨f.name, span, before + 1⟩)
  let result ← attempt (runBody E scope f args span)
  let deferred ← popFrame scope
  let result ← runDeferred E caller deferred result
  notify (.return ⟨f.name, span, before + 1⟩)
  conclude result

/-- Calls the script function of a reference. -/
def runRef (E : Engine) (caller : Ref .scope) (r : Ref .closure) (args : List Value)
    (span : Span) : Eval Value := do
  match ← gets (·.heap.closures.get? r) with
  | some f => run E caller f args span .none
  | none => fail (.general "not a function") span

end ScriptEngine.Function
