import ScriptEngine.Builtin.Arguments

/-!
# Methods of integers and doubles
-/

namespace ScriptEngine.Method

open Eval

/-- The magnitude of an integer, in 64-bit arithmetic. -/
def intAbs (n : Int64) : Int64 := if n < 0 then -n else n

def ofInt : MethodTable Int64 := [
  ("abs", reading fun n => .int (intAbs n)),
  ("str", reading fun n => .text (toString n.toInt)),
  ("float", reading fun n => .float (Float.ofInt n.toInt)),
  ("uint", reading fun n => .uint n.toUInt64),
  ("decimal", reading fun n => .decimal (.ofInt n.toInt)),
  ("isEven", reading fun n => .bool (n % 2 == 0)),
  ("isOdd", reading fun n => .bool (n % 2 != 0))]

def ofUInt : MethodTable UInt64 := [
  ("str", reading fun n => .text (toString n.toNat)),
  ("float", reading fun n => .float (Float.ofNat n.toNat)),
  ("int", reading fun n => .int n.toInt64),
  ("decimal", reading fun n => .decimal (.ofInt n.toNat)),
  ("isEven", reading fun n => .bool (n % 2 == 0)),
  ("isOdd", reading fun n => .bool (n % 2 != 0))]

/-- The power of a double by squaring, with the present power of the base and the product so
far. The first argument bounds the number of squarings. -/
def floatPowFrom : Nat → Float → Float → Nat → Float
  | 0, _, acc, _ => acc
  | fuel + 1, base, acc, n =>
    let acc := if n % 2 = 1 then acc * base else acc
    if n / 2 = 0 then acc else floatPowFrom fuel (base * base) acc (n / 2)

/-- An integer power of ten; negative ones are reciprocals of positive ones. -/
def floatTen (e : Int) : Float :=
  let p := floatPowFrom 32 10.0 1.0 e.natAbs
  if e < 0 then 1.0 / p else p

/-- The greatest number of places a double is rounded to, in either direction. -/
def maxPlaces : Int := 308

/-- A double rounded to decimal places, a half going away from zero. -/
def roundFloat (x : Float) (places : Int) : Float :=
  let factor := floatTen (max (-maxPlaces) (min maxPlaces places))
  (x * factor).round / factor

def ofFloat : MethodTable Float := [
  ("abs", reading fun x => .float x.abs),
  ("str", reading fun x => .text (Binary64.display x)),
  ("int", reading fun x => .int x.toInt64),
  ("round", fun _ site x args => do
    site.oneOf [0, 1] args
    let places ← if args.isEmpty then pure 0 else site.intArg args 0
    return .float (roundFloat x places.toInt)),
  ("floor", reading fun x => .float x.floor),
  ("ceil", reading fun x => .float x.ceil),
  ("decimal", plain fun site x =>
    match Decimal.ofFloat x with
    | .ok d => return .decimal d
    | .error e => site.invalid e.message),
  ("isNaN", reading fun x => .bool x.isNaN)]

end ScriptEngine.Method
