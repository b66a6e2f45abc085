import ScriptEngine.Eval.Operators
import ScriptEngine.Eval.Engine
import ScriptEngine.Machine.Package

/-!
# Imports

A package is evaluated when it is imported first; later imports of the same path share it. A
package that is imported while it is being evaluated closes a circle, which is a fault.
-/

namespace ScriptEngine.Import

open Eval

/-- A failed import. -/
def failed {α : Type} (message : String) (span : Span) : Eval α := fail (.importFailed message) span

/-- Evaluates the program at a path. What fails in it is reported at the import; the failure of
an import inside that program keeps its message. -/
def evaluate (E : Engine) (scope : Ref .scope) (loader : Loader) (path : String) (span : Span) :
    Eval (Ref .package) := do
  match loader path with
  | .error message => failed message span
  | .ok program =>
    let inner ← rootScope scope
    match ← attempt (E.program inner program) with
    | .ok _ => newPackage path inner
    | .error f =>
      match f.cause with
      | .importFailed _ => fail f.cause span
      | _ => failed (path ++ ": " ++ f.message) span

/-- The package at a path. -/
def resolve (E : Engine) (scope : Ref .scope) (path : String) (span : Span) :
    Eval (Ref .package) := do
  let packages ← gets (·.packages)
  match packages.loader with
  | none => failed ("no module loader for '" ++ path ++ "'") span
  | some loader =>
    match packages.loaded.get? path with
    | some r => return r
    | none =>
      match packages.cycle? path with
      | some cycle => failed ("circular import: " ++ String.intercalate " -> " cycle) span
      | none =>
        modify fun s => { s with packages := s.packages.enter path }
        ensuring (evaluate E scope loader path span) fun s =>
          { s with packages := s.packages.leave path }

/-- Binds what an import names. -/
def run (E : Engine) (scope : Ref .scope) (path : String) (names : ImportNames) (span : Span) :
    Eval Unit := do
  let r ← resolve E scope path span
  match names with
  | .whole binder => bindName scope binder (.package r) span
  | .all => forList (fun (name, v) => bindName scope name v span) (← gets (·.exports r))
  | .named items =>
    forList (fun (name, binder) => do
      let v ← ofExcept span (← gets (·.export? r name))
      bindName scope (binder.getD name) v span) items

end ScriptEngine.Import
