import ScriptEngine.Binary64.Remainder
import ScriptEngine.Decimal.Division
import ScriptEngine.Decimal.Text
import ScriptEngine.Program
import ScriptEngine.Value

/-!
# Arithmetic of numbers

Two numbers of different kinds are brought to a common kind first: decimal if one of them is
decimal, else double if one is a double, else signed if one is signed. Then every operator has
one meaning per kind. Integer arithmetic wraps around; division by zero is refused for all
kinds, doubles included.
-/

namespace ScriptEngine

/-- Why an operation has no result: the program is at fault, or the host cannot carry on. -/
inductive Refusal where
  | cause (c : Cause)
  | trap (t : Decimal.Trap)

/-- Two numbers of one kind. -/
inductive NumberPair where
  | int (a b : Int64)
  | uint (a b : UInt64)
  | float (a b : Float)
  | decimal (a b : Decimal)

namespace Arithmetic

/-- A number as a decimal; a double that is none is refused, and other values have no
decimal. -/
def toDecimal? : Value → Except Refusal (Option Decimal)
  | .int n => .ok (some (.ofInt n.toInt))
  | .uint n => .ok (some (.ofInt n.toNat))
  | .float x =>
    match Decimal.ofFloat x with
    | .ok d => .ok (some d)
    | .error e => .error (.cause (.invalidArgument e.message))
  | .decimal d => .ok (some d)
  | _ => .ok none

/-- A number that is no decimal as a double. -/
def toFloat? : Value → Option Float
  | .int n => some (Float.ofInt n.toInt)
  | .uint n => some (Float.ofNat n.toNat)
  | .float x => some x
  | _ => none

/-- Both values as decimals. -/
def decimals? (a b : Value) : Except Refusal (Option NumberPair) := do
  let x ← toDecimal? a
  let y ← toDecimal? b
  return x.bind fun x => y.map fun y => .decimal x y

/-- Both values as doubles. -/
def floats? (a b : Value) : Option NumberPair :=
  (toFloat? a).bind fun x => (toFloat? b).map fun y => .float x y

/-- Both values brought to a common kind, if both are numbers. -/
def promote : Value → Value → Except Refusal (Option NumberPair)
  | .int a, .int b => .ok (some (.int a b))
  | .uint a, .uint b => .ok (some (.uint a b))
  | .int a, .uint b => .ok (some (.int a b.toInt64))
  | .uint a, .int b => .ok (some (.int a.toInt64 b))
  | .decimal a, b => decimals? (.decimal a) b
  | a, .decimal b => decimals? a (.decimal b)
  | a, b => .ok (floats? a b)

/-! ### Comparison -/

/-- What a comparison operator answers for an order; values without an order are different
and nothing else. Operators that do not compare have no answer. -/
def compareBy (op : InfixOp) (order : Option Ordering) : Option Bool :=
  match op with
  | .equal => some (order == some .eq)
  | .notEqual => some (order != some .eq)
  | .less => some (order == some .lt)
  | .lessEqual => some (order == some .lt || order == some .eq)
  | .greater => some (order == some .gt)
  | .greaterEqual => some (order == some .gt || order == some .eq)
  | _ => none

/-- The order of two doubles; there is none with one that is no number. -/
def floatOrder (a b : Float) : Option Ordering :=
  if a < b then some .lt else if a == b then some .eq else if b < a then some .gt else none

/-! ### Powers -/

/-- `b ^ n` by squaring, in 64-bit arithmetic. -/
def wrappingPow (b : UInt64) (n : Nat) : UInt64 :=
  if n = 0 then 1
  else
    let half := wrappingPow (b * b) (n / 2)
    if n % 2 = 1 then b * half else half
termination_by n
decreasing_by omega

/-- Exponents from here on leave the integers. -/
def maxExponent : Nat := 4294967296

/-! ### Operators -/

/-- An operator on signed integers. -/
def onInts (op : InfixOp) (a b : Int64) : Except Refusal (Option Value) :=
  match op with
  | .add => .ok (some (.int (a + b)))
  | .subtract => .ok (some (.int (a - b)))
  | .multiply => .ok (some (.int (a * b)))
  | .divide => if b = 0 then .error (.cause .divideByZero) else .ok (some (.int (a / b)))
  | .modulo => if b = 0 then .error (.cause .divideByZero) else .ok (some (.int (a % b)))
  | .power =>
    if 0 ≤ b ∧ b.toInt < (maxExponent : Int) then
      .ok (some (.int (wrappingPow a.toUInt64 b.toInt.toNat).toInt64))
    else .ok (some (.float (Float.pow (Float.ofInt a.toInt) (Float.ofInt b.toInt))))
  | _ => .ok ((compareBy op (some (compare a b))).map .bool)

/-- An operator on unsigned integers. -/
def onUInts (op : InfixOp) (a b : UInt64) : Except Refusal (Option Value) :=
  match op with
  | .add => .ok (some (.uint (a + b)))
  | .subtract => .ok (some (.uint (a - b)))
  | .multiply => .ok (some (.uint (a * b)))
  | .divide => if b = 0 then .error (.cause .divideByZero) else .ok (some (.uint (a / b)))
  | .modulo => if b = 0 then .error (.cause .divideByZero) else .ok (some (.uint (a % b)))
  | .power =>
    if b.toNat < maxExponent then .ok (some (.uint (wrappingPow a b.toNat)))
    else .ok (some (.float (Float.pow (Float.ofNat a.toNat) (Float.ofNat b.toNat))))
  | _ => .ok ((compareBy op (some (compare a b))).map .bool)

/-- An operator on doubles. -/
def onFloats (op : InfixOp) (a b : Float) : Except Refusal (Option Value) :=
  match op with
  | .add => .ok (some (.float (a + b)))
  | .subtract => .ok (some (.float (a - b)))
  | .multiply => .ok (some (.float (a * b)))
  | .divide => if b == 0.0 then .error (.cause .divideByZero) else .ok (some (.float (a / b)))
  | .modulo =>
    if b == 0.0 then .error (.cause .divideByZero)
    else .ok (some (.float (Binary64.remainder a b)))
  | .power => .ok (some (.float (Float.pow a b)))
  | _ => .ok ((compareBy op (floatOrder a b)).map .bool)

/-- A decimal result, or the trap in its place. -/
def ofDecimal : Except Decimal.Trap Decimal → Except Refusal (Option Value)
  | .ok d => .ok (some (.decimal d))
  | .error t => .error (.trap t)

/-- An operator on decimals; quotients keep `precision` fractional digits. -/
def onDecimals (precision : Int32) (op : InfixOp) (a b : Decimal) :
    Except Refusal (Option Value) :=
  match op with
  | .add => .ok (some (.decimal (a.add b)))
  | .subtract => .ok (some (.decimal (a.sub b)))
  | .multiply => ofDecimal (a.mul b)
  | .divide =>
    if b.isZero then .error (.cause .divideByZero) else ofDecimal (a.divRound b precision)
  | .modulo =>
    if b.isZero then .error (.cause .divideByZero) else ofDecimal (Decimal.modulo precision a b)
  | .power =>
    match Decimal.pow precision a b with
    | .ok (some d) => .ok (some (.decimal d))
    | .ok none => .error (.cause .divideByZero)
    | .error t => .error (.trap t)
  | _ => .ok ((compareBy op (some (a.cmp b))).map .bool)

/-- An operator on two numbers of one kind; `none` for an operator that is not for numbers. -/
def onPair (precision : Int32) (op : InfixOp) : NumberPair → Except Refusal (Option Value)
  | .int a b => onInts op a b
  | .uint a b => onUInts op a b
  | .float a b => onFloats op a b
  | .decimal a b => onDecimals precision op a b

/-! ### One operand -/

/-- The negative of a number. An unsigned integer becomes a signed one. -/
def negate? : Value → Option Value
  | .int n => some (.int (-n))
  | .uint n => some (.int (-n.toInt64))
  | .float x => some (.float (-x))
  | .decimal d => some (.decimal d.neg)
  | _ => none

/-- Whether a value is a number. -/
def isNumber : Value → Bool
  | .int _ => true
  | .uint _ => true
  | .float _ => true
  | .decimal _ => true
  | _ => false

/-- The number one above or below, of the same kind. -/
def step? (op : PostfixOp) : Value → Option Value
  | .int n => some (.int (if op = .increment then n + 1 else n - 1))
  | .uint n => some (.uint (if op = .increment then n + 1 else n - 1))
  | .float x => some (.float (if op = .increment then x + 1.0 else x - 1.0))
  | .decimal d => some (.decimal (d.add (.ofInt (if op = .increment then 1 else -1))))
  | _ => none

/-! ### Repetition -/

/-- The greatest size in bytes of a repeated text. -/
def maxRepeat : Nat := 1073741824

/-- The text `count` times over. -/
def repeatText (s : String) (count : Int64) : Except Cause String :=
  if count < 0 then .error (.invalidArgument (toString count.toInt))
  else
    let n : Nat := count.toInt.toNat
    if s.isEmpty then .ok ""
    else if s.utf8ByteSize * n ≤ maxRepeat then .ok (String.join (List.replicate n s))
    else .error (.invalidArgument ("repeat count " ++ toString n ++ " is too large"))

end Arithmetic

end ScriptEngine
