import ScriptEngine.Arithmetic
import ScriptEngine.Machine.Alloc

/-!
# Operators

Operators on values. Numbers go first; texts are joined, compared and repeated, arrays and
tuples are joined; and any two values can be compared for equality.
-/

namespace ScriptEngine

namespace Eval

variable {α : Type}

/-- A result, or the fault or end that stands in its place. -/
def ofRefusal (span : Span) : Except Refusal α → Eval α
  | .ok a => pure a
  | .error (.cause c) => fail c span
  | .error (.trap t) => abort t.message

/-- A result, or the fault that stands in its place. -/
def ofExcept (span : Span) : Except Cause α → Eval α
  | .ok a => pure a
  | .error c => fail c span

end Eval

namespace Operators

open Eval

/-- An operator that is not for its operands. -/
def unsupported {α : Type} (op : InfixOp) (a b : Value) (span : Span) : Eval α := do
  let left ← gets (·.typeName a)
  let right ← gets (·.typeName b)
  fail (.infixOperands left op.text right) span

/-- An operator on values that are not both numbers. -/
def onOthers (op : InfixOp) (a b : Value) (span : Span) : Eval Value :=
  match a, b, op with
  | .text s, .text t, .add => pure (.text (s ++ t))
  | .text s, .text t, op =>
    match Arithmetic.compareBy op (some (compare s t)) with
    | some answer => pure (.bool answer)
    | none => unsupported op a b span
  | .text s, .int n, .multiply => do
    let t ← ofExcept span (Arithmetic.repeatText s (if n < 0 then 0 else n))
    return .text t
  | .int n, .text s, .multiply => do
    let t ← ofExcept span (Arithmetic.repeatText s (if n < 0 then 0 else n))
    return .text t
  | .array r, .array q, .add => do
    let front ← arrayItems r
    let back ← arrayItems q
    newArray (front ++ back)
  | .tuple r, .tuple q, .add => do
    let front ← tupleItems r
    let back ← tupleItems q
    newTuple (front ++ back)
  | _, _, .equal => gets fun s => .bool (s.equal a b)
  | _, _, .notEqual => gets fun s => .bool (!s.equal a b)
  | _, _, _ => unsupported op a b span

/-- An operator between two operands. -/
def binary (op : InfixOp) (a b : Value) (span : Span) : Eval Value := do
  match ← ofRefusal span (Arithmetic.promote a b) with
  | some pair =>
    let precision ← gets (·.settings.divisionPrecision)
    match ← ofRefusal span (Arithmetic.onPair precision op pair) with
    | some v => return v
    | none => unsupported op a b span
  | none => onOthers op a b span

/-- An operator in front of its operand. -/
def prefixed (op : PrefixOp) (a : Value) (span : Span) : Eval Value := do
  let refused : Eval Value := do
    let operand ← gets (·.typeName a)
    fail (.prefixOperand op.text operand) span
  match op with
  | .not => gets fun s => .bool (!s.isTrue a)
  | .negate => match Arithmetic.negate? a with
    | some v => return v
    | none => refused
  | .plus => if Arithmetic.isNumber a then return a else refused

/-- The value that an operator behind its operand stores. -/
def postfixed (op : PostfixOp) (a : Value) (span : Span) : Eval Value :=
  match Arithmetic.step? op a with
  | some v => pure v
  | none => do
    let operand ← gets (·.typeName a)
    fail (.postfixOperand op.text operand) span

/-- The value that a compound assignment stores: that of the operator, whose refusal of the
operands is one of the assignment. -/
def compound (op : AssignOp) (combine : InfixOp) (old operand : Value) (span : Span) :
    Eval Value := do
  match ← attempt (binary combine old operand span) with
  | .ok v => return v
  | .error f =>
    match f.cause with
    | .infixOperands left _ right => fail (.compoundOperands left op.text right) span
    | _ => raise f

end Operators

end ScriptEngine
