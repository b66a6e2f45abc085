import ScriptEngine.Builtin.Arguments

/-!
# Methods of decimals

Operands may be any number, or a text that reads as a decimal. The functions of the decimal
namespace are methods too; they do not look at the receiver.
-/

namespace ScriptEngine

/-- The value as a decimal operand. -/
def CallSite.decimalOperand (site : CallSite) (v : Value) : Eval Decimal := do
  let refused : Eval Decimal := do site.invalid (← CallSite.inspect v)
  match v with
  | .text s => match Decimal.parse s with
    | .ok d => return d
    | .error _ => refused
  | _ => match Arithmetic.toDecimal? v with
    | .ok (some d) => return d
    | _ => refused

/-- An argument that has to fit 32 bits. -/
def CallSite.placesArg (site : CallSite) (args : List Value) (position : Nat) : Eval Int32 := do
  let n ← site.intArg args position
  if Decimal.fitsExp n.toInt then return n.toInt32 else site.invalid (toString n.toInt)

namespace Method

open Eval

/-! ### Functions of the namespace -/

/-- The report of an integer that does not fit an exponent. -/
def rangeText (n : Int64) : String := toString n.toInt ++ " is out of the i32 range"

/-- A signed integer that has to fit an exponent. -/
def exponentArg (site : CallSite) (args : List Value) (position : Nat) : Eval Int32 :=
  match args.getD position .nil with
  | .int n => if Decimal.fitsExp n.toInt then return n.toInt32 else site.invalid (rangeText n)
  | v => site.wrongType position "*Integer" v

/-- A number that is no decimal, as a double. -/
def floatArg (site : CallSite) (args : List Value) (position : Nat) : Eval Float :=
  let v := args.getD position .nil
  match Arithmetic.toFloat? v with
  | some x => return x
  | none => site.wrongType position "*Float|*Integer|*UInteger" v

/-- Arguments that all have to be decimals, the first of them at `position`. -/
def decimalArgs (site : CallSite) (position : Nat) : List Value → Eval (List Decimal)
  | [] => return []
  | .decimal d :: rest => return d :: (← decimalArgs site (position + 1) rest)
  | v :: _ => site.wrongType position "*Decimal" v

/-- A decimal, or the report that there is none. -/
def decimalResult (site : CallSite) : Except Decimal.Error Decimal → Eval Value
  | .ok d => return .decimal d
  | .error e => site.invalid e.message

/-- A function of one or more decimals. -/
def aggregate (site : CallSite) (args : List Value)
    (f : Decimal → List Decimal → Eval Value) : Eval Value := do
  site.atLeast 1 args
  match ← decimalArgs site 0 args with
  | first :: rest => f first rest
  | [] => return .nil

def setSettings (f : Settings → Settings) : Eval Value := do
  modify fun s => { s with settings := f s.settings }
  return .nil

/-- What a function of the namespace does. -/
def runDecimal (site : CallSite) (args : List Value) : DecimalOp → Eval Value
  | .new => do
    site.exactly 2 args
    match args.headD .nil with
    | .int n => return .decimal ⟨n.toInt, ← exponentArg site args 1⟩
    | v => site.wrongType 0 "*Integer" v
  | .fromString => do
    site.exactly 1 args
    decimalResult site (Decimal.parse (← site.textArg args 0))
  | .fromFloat => do
    site.exactly 1 args
    decimalResult site (Decimal.ofFloat (← floatArg site args 0))
  | .fromFloatWithExponent => do
    site.exactly 2 args
    let x ← floatArg site args 0
    let e ← exponentArg site args 1
    decimalResult site (Decimal.ofFloatAt x e)
  | .avg => aggregate site args fun first rest => do
    CallSite.decimalOr (Decimal.mean (← gets (·.settings.divisionPrecision)) first rest)
  | .max => aggregate site args fun first rest => return .decimal (first.greatest rest)
  | .min => aggregate site args fun first rest => return .decimal (first.least rest)
  | .sum => aggregate site args fun first rest => return .decimal (first.sum rest)
  | .setDivisionPrecision => do
    site.exactly 1 args
    let n ← site.eitherIntArg args 0
    if Decimal.fitsExp n.toInt then
      setSettings fun c => { c with divisionPrecision := n.toInt32 }
    else site.invalid (rangeText n)
  | .getDivisionPrecision => do
    site.exactly 0 args
    gets fun s => .int (Int64.ofInt s.settings.divisionPrecision.toInt)
  | .setBareJson => do
    site.exactly 1 args
    match args.headD .nil with
    | .bool b => setSettings fun c => { c with bareDecimals := b }
    | v => site.wrongType 0 "*Boolean" v
  | .getBareJson => do
    site.exactly 0 args
    gets fun s => .bool s.settings.bareDecimals

/-- The functions of the namespace by name. -/
def decimalFunctions : List (String × DecimalOp) := [
  ("new", .new),
  ("fromString", .fromString),
  ("fromFloat", .fromFloat),
  ("fromFloatWithExponent", .fromFloatWithExponent),
  ("avg", .avg),
  ("max", .max),
  ("min", .min),
  ("sum", .sum),
  ("setDivisionPrecision", .setDivisionPrecision),
  ("getDivisionPrecision", .getDivisionPrecision),
  ("setMarshalJSONWithoutQuotes", .setBareJson),
  ("getMarshalJSONWithoutQuotes", .getBareJson)]

/-! ### Methods -/

/-- A method with one operand. -/
def withOperand (f : Decimal → Decimal → Eval Value) : Method Decimal := fun _ site d args => do
  site.exactly 1 args
  f d (← site.decimalOperand (args.headD .nil))

/-- A method with a divisor, which must not be zero, in front of `count - 1` other
arguments. -/
def withDivisor (count : Nat) (f : CallSite → List Value → Decimal → Decimal → Eval Value) :
    Method Decimal := fun _ site d args => do
  site.exactly count args
  let divisor ← site.decimalOperand (args.headD .nil)
  if divisor.isZero then site.fail .divideByZero else f site args d divisor

/-- A method with a number of places. -/
def withPlaces (f : Decimal → Int32 → Value) : Method Decimal := fun _ site d args => do
  site.exactly 1 args
  return f d (← site.placesArg args 0)

/-- A question about the order of the receiver and an operand. -/
def ordered (f : Ordering → Value) : Method Decimal :=
  withOperand fun d other => return f (d.cmp other)

/-- The number that stands for an order. -/
def orderValue : Ordering → Value
  | .lt => .int (-1)
  | .eq => .int 0
  | .gt => .int 1

def ofDecimal : MethodTable Decimal := [
  ("neg", reading fun d => .decimal d.neg),
  ("abs", reading fun d => .decimal d.abs),
  ("add", withOperand fun d other => return .decimal (d.add other)),
  ("sub", withOperand fun d other => return .decimal (d.sub other)),
  ("mul", withOperand fun d other => CallSite.decimalOr (d.mul other)),
  ("div", withDivisor 1 fun _ _ d divisor => do
    CallSite.decimalOr (d.divRound divisor (← gets (·.settings.divisionPrecision)))),
  ("divRound", withDivisor 2 fun site args d divisor => do
    CallSite.decimalOr (d.divRound divisor (← site.placesArg args 1))),
  ("mod", withDivisor 1 fun _ _ d divisor => do
    CallSite.decimalOr (Decimal.modulo (← gets (·.settings.divisionPrecision)) d divisor)),
  ("pow", fun _ site d args => do
    site.exactly 1 args
    let exponent ← site.decimalOperand (args.headD .nil)
    match Decimal.pow (← gets (·.settings.divisionPrecision)) d exponent with
    | .ok (some r) => return .decimal r
    | .ok none => site.fail .divideByZero
    | .error t => abort t.message),
  ("ceil", reading fun d => .decimal d.ceil),
  ("round", withPlaces fun d places => .decimal (d.round places)),
  ("trunc", reading fun d => .decimal (d.truncate 0)),
  ("truncate", withPlaces fun d places => .decimal (d.truncate places)),
  ("floor", reading fun d => .decimal d.floor),
  ("cmp", ordered orderValue),
  ("equal", ordered fun o => .bool (o == .eq)),
  ("greaterThan", ordered fun o => .bool (o == .gt)),
  ("greaterThanOrEqual", ordered fun o => .bool (o != .lt)),
  ("lessThan", ordered fun o => .bool (o == .lt)),
  ("lessThanOrEqual", ordered fun o => .bool (o != .gt)),
  ("stringFixed", withPlaces fun d places => .text (d.fixedText places)),
  ("stringScaled", withPlaces fun d places => .text (d.scaledText places)),
  ("string", reading fun d => .text d.toText),
  ("sign", reading fun d => .int (Int64.ofInt d.sign)),
  ("exponent", reading fun d => .int (Int64.ofInt d.exp.toInt)),
  ("intPart", reading fun d => .int (Int64.ofInt d.intPart)),
  ("float", reading fun d => .float d.toFloat),
  ("isZero", reading fun d => .bool d.isZero)] ++
  decimalFunctions.map fun (name, op) => (name, fun _ site _ args => runDecimal site args op)

end Method

end ScriptEngine
