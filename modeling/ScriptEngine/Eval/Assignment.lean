import ScriptEngine.Eval.Access

/-!
# Assignment

The target of an assignment is a *place*: a name, an index into a container, or a member. The
parts of a place are evaluated once and before the value. An assignment to a name writes to
its nearest binding.
-/

namespace ScriptEngine

/-- What can be assigned to. -/
inductive Place where
  | name (name : String)
  | index (container index : Value)
  | member (receiver : Value) (name : String)

namespace Place

open Eval

/-- The place that an expression stands for. -/
def ofExpr (E : Engine) (scope : Ref .scope) (target : Expr) : Eval Place := do
  match target.form with
  | .name n => return .name n
  | .index object i =>
    let container ← E.operand scope object
    return .index container (← E.operand scope i)
  | .member object n => return .member (← E.operand scope object) n
  | _ => fail (.general "invalid assignment target") target.span

def read (E : Engine) (scope : Ref .scope) (span : Span) : Place → Eval Value
  | .name n => Access.lookup scope n span
  | .index container i => Access.getAt E scope container i span
  | .member receiver n => Access.getMember E scope receiver n span

def write (E : Engine) (scope : Ref .scope) (span : Span) (v : Value) : Place → Eval Unit
  | .name n => rebindName scope n v span
  | .index container i => Access.setAt E scope container i v span
  | .member receiver n => Access.setMember E scope receiver n v span

/-- Assigns, and gives the value that was stored. -/
def assign (E : Engine) (scope : Ref .scope) (op : AssignOp) (target value : Expr) (span : Span) :
    Eval Value := do
  let place ← ofExpr E scope target
  let v ← match op.combine? with
    | none => E.expr scope value
    | some combine => do
      let old ← place.read E scope span
      let operand ← E.operand scope value
      Operators.compound op combine old operand span
  place.write E scope span v
  return v

/-- Stores the next or the previous number, and gives the one before. -/
def step (E : Engine) (scope : Ref .scope) (op : PostfixOp) (target : Expr) (span : Span) :
    Eval Value := do
  let place ← ofExpr E scope target
  let old ← place.read E scope span
  place.write E scope span (← Operators.postfixed op old span)
  return old

end Place

end ScriptEngine
