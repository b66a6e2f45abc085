import ScriptEngine.Eval.Capture
import ScriptEngine.Eval.Declaration
import ScriptEngine.Eval.Import

/-!
# Statements

How each form of statement runs. Blocks, branches, rounds of a loop and the parts of a `try`
have scopes of their own. A fault in the body of a `try` goes to its handler, a thrown text
as that text and any other fault as a value; the last part runs in every case, and what it
ends with, if not normally, takes the place of everything before.
-/

namespace ScriptEngine.Stmt

open Eval

/-- The value of a statement that has none. -/
def done : Flow := .normal .nil

/-- The value of an expression that may be left out. -/
def valueOf (E : Engine) (scope : Ref .scope) : Option Expr → Eval Value
  | some e => E.expr scope e
  | none => return .nil

/-! ### Loops -/

/-- Runs statements as long as a condition is true. -/
def cycle (E : Engine) (scope : Ref .scope) (condition : Expr) (body : List Stmt) : Eval Flow := do
  yieldTurn
  if ← E.condition scope condition then
    match ← E.block scope body with
    | .break => return done
    | .return v => return .return v
    | _ => E.cycle scope condition body
  else return done

/-- Runs statements with the names of a loop bound; some flow ends the loop. -/
def round (E : Engine) (scope : Ref .scope) (vars : LoopVars) (key value : Value)
    (body : List Stmt) : Eval (Option Flow) := do
  let inner ← childScope scope
  match vars.key with
  | some name =>
    bindName inner name key vars.span
    bindName inner vars.value value vars.span
  | none => bindName inner vars.value (if vars.walksKeys then key else value) vars.span
  match ← E.body inner body with
  | .break => return some done
  | .return v => return some (.return v)
  | _ => return none

/-- Runs statements for each of several entries. -/
def rounds (E : Engine) (scope : Ref .scope) (vars : LoopVars) (body : List Stmt) :
    List (Value × Value) → Eval Flow
  | [] => return done
  | (key, value) :: rest => do
    match ← round E scope vars key value body with
    | some flow => return flow
    | none => rounds E scope vars body rest

/-- Runs statements for each value of a channel, until it is closed and empty. -/
def drain (E : Engine) (scope : Ref .scope) (vars : LoopVars) (r : Ref .channel) (index : Nat)
    (body : List Stmt) : Eval Flow := do
  match ← Method.receive r with
  | none => return done
  | some v =>
    match ← round E scope vars (Method.countValue index) v body with
    | some flow => return flow
    | none => E.drain scope vars r (index + 1) body

/-- The entries a loop walks through: those of a hash, or numbered items. -/
def entriesOf? (s : State) : Value → Option (List (Value × Value))
  | .hash r =>
    some (((s.heap.hashes.get? r).getD .empty).entries.map fun (k, v) => (k.toValue, v))
  | .list _ => none
  | v => (s.items? v).map fun items => items.zipIdx.map fun (v, i) => (Method.countValue i, v)

/-- Runs statements for each item of a collection. -/
def forIn (E : Engine) (scope : Ref .scope) (key : Option String) (value : String) (items : Expr)
    (body : List Stmt) : Eval Flow := do
  let collection ← E.operand scope items
  let vars (walksKeys : Bool) : LoopVars := ⟨key, value, walksKeys, items.span⟩
  match collection with
  | .channel r => E.drain scope (vars false) r 0 body
  | .hash _ =>
    rounds E scope (vars true) body ((← gets fun s => entriesOf? s collection).getD [])
  | _ =>
    match ← gets fun s => entriesOf? s collection with
    | some entries => rounds E scope (vars false) body entries
    | none => fail (.notIterable (← gets (·.typeName collection))) items.span

/-! ### Faults -/

/-- Ends with a thrown text. -/
def throwValue {α : Type} (v : Value) (span : Span) : Eval α := do
  match v with
  | .text message => fail (.thrown message) span
  | other => fail (.notThrowable (← gets (·.typeName other))) span

/-- What a handler sees of a fault. -/
def caught (f : Fault) : Value :=
  match f.cause with
  | .thrown message => .text message
  | _ => .error f

/-- Runs statements with a handler for their faults and a last part. -/
def guarded (E : Engine) (scope : Ref .scope) (body : List Stmt)
    (handler : Option (String × List Stmt)) (last : Option (List Stmt)) (span : Span) :
    Eval Flow := do
  let result ← attempt (E.block scope body)
  let result ← match result, handler with
    | .error f, some (name, stmts) => attempt do
      let inner ← childScope scope
      bindName inner name (caught f) span
      E.body inner stmts
    | other, _ => pure other
  match last with
  | none => conclude result
  | some stmts =>
    match ← E.block scope stmts with
    | .normal _ => conclude result
    | flow => return flow

/-- Runs a statement, by an engine for what it is made of. -/
def run (E : Engine) (scope : Ref .scope) (stmt : Stmt) : Eval Flow := do
  let span := stmt.span
  notify (.statement span.line)
  match stmt.form with
  | .expr e => return .normal (← E.expr scope e)
  | .declare name value =>
    bindName scope name (← valueOf E scope value) span
    return done
  | .constant name value =>
    let v ← E.expr scope value
    bindConst scope name v span
    return done
  | .block body => E.block scope body
  | .branch condition yes no =>
    if ← E.condition scope condition then E.block scope yes
    else
      match no with
      | some body => E.block scope body
      | none => return done
  | .while condition body => E.cycle scope condition body
  | .forIn key value items body => forIn E scope key value items body
  | .break => return .break
  | .continue => return .continue
  | .return value => return .return (← valueOf E scope value)
  | .throw value => throwValue (← E.expr scope value) span
  | .try body handler last => guarded E scope body handler last span
  | .defer call =>
    Capture.defer E scope call span
    return done
  | .function name params body =>
    bindName scope name (← newClosure ⟨name, params, body, scope, span, .value⟩) span
    return done
  | .classDef decl =>
    Declaration.run E scope decl
    return done
  | .importFrom path names =>
    Import.run E scope path names span
    return done

end ScriptEngine.Stmt
