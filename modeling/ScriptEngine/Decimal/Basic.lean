/-!
# Decimals

A `Decimal` is `coeff · 10 ^ exp` with a coefficient of any size and a 32-bit exponent.
One number has many representations; comparison (`Decimal.cmp`) and equality look at the
number, everything that prints or stores a decimal at the representation.

Exact operations bring both operands to the smaller exponent (`Decimal.aligned`).
Multiplication adds the exponents and is refused when the sum leaves 32 bits.
-/

namespace ScriptEngine

/-- The number `coeff · 10 ^ exp`. -/
structure Decimal where
  coeff : Int
  exp : Int32
deriving DecidableEq, Repr, Inhabited

namespace Decimal

/-- What a host cannot carry on from: a precondition of decimal arithmetic that does not
hold. -/
inductive Trap where
  /-- The exponent of a product leaves 32 bits. -/
  | exponentOverflow (exp : Int)
  /-- The power of ten that aligns a quotient is out of reach. -/
  | scaleOverflow
  /-- Division by zero where the caller had to exclude it. -/
  | zeroDivisor
  /-- Halving an exponent does not reach zero at the given precision. -/
  | endlessHalving
deriving DecidableEq, Repr

/-- The text of a trap. -/
def Trap.message : Trap → String
  | exponentOverflow e => "exponent " ++ toString e ++ " overflows an i32!"
  | scaleOverflow => "overflow in decimal QuoRem"
  | zeroDivisor => "decimal division by 0"
  | endlessHalving => "exponent halving does not end"

/-- The integer `n`. -/
def ofInt (n : Int) : Decimal := ⟨n, 0⟩

instance : Zero Decimal := ⟨ofInt 0⟩

/-- A power of ten. -/
def tenPow (k : Nat) : Int := (Nat.pow 10 k : Nat)

/-- The number zero, in any representation. -/
def isZero (a : Decimal) : Bool := a.coeff == 0

/-- `-1`, `0` or `1`. -/
def sign (a : Decimal) : Int := a.coeff.sign

/-- The same number with exponent `exp`. Raising the exponent drops digits, toward zero. -/
def rescale (a : Decimal) (exp : Int32) : Decimal :=
  let shift := exp.toInt - a.exp.toInt
  if 0 < shift then ⟨a.coeff.tdiv (tenPow shift.toNat), exp⟩
  else if shift < 0 then ⟨a.coeff * tenPow (-shift).toNat, exp⟩
  else ⟨a.coeff, exp⟩

/-- The smaller of two exponents. -/
def commonExp (a b : Decimal) : Int32 := if a.exp ≤ b.exp then a.exp else b.exp

/-- Both coefficients at the common exponent. -/
def aligned (a b : Decimal) : Int × Int × Int32 :=
  let e := commonExp a b
  ((a.rescale e).coeff, (b.rescale e).coeff, e)

def abs (a : Decimal) : Decimal := ⟨a.coeff.natAbs, a.exp⟩

def neg (a : Decimal) : Decimal := ⟨-a.coeff, a.exp⟩

def add (a b : Decimal) : Decimal :=
  let (x, y, e) := a.aligned b
  ⟨x + y, e⟩

def sub (a b : Decimal) : Decimal :=
  let (x, y, e) := a.aligned b
  ⟨x - y, e⟩

/-- Whether an integer fits into 32 bits. -/
def fitsExp (e : Int) : Bool := decide (-2147483648 ≤ e ∧ e ≤ 2147483647)

/-- The product, unless its exponent leaves 32 bits. -/
def mul (a b : Decimal) : Except Trap Decimal :=
  let e := a.exp.toInt + b.exp.toInt
  if fitsExp e then .ok ⟨a.coeff * b.coeff, Int32.ofInt e⟩ else .error (.exponentOverflow e)

/-- Comparison of the numbers. -/
def cmp (a b : Decimal) : Ordering :=
  let (x, y, _) := a.aligned b
  compare x y

/-- Equality of the numbers. -/
def eq (a b : Decimal) : Bool := a.cmp b == .eq

instance : BEq Decimal := ⟨eq⟩

/-- The integer part, toward zero, held within 64 bits. -/
def intPart (a : Decimal) : Int :=
  let n := (a.rescale 0).coeff
  if n < -9223372036854775808 then -9223372036854775808
  else if 9223372036854775807 < n then 9223372036854775807
  else n

/-! ### Rounding to given digits -/

/-- The number with `places` fractional digits, a half going away from zero. Negative
places round the integer part. -/
def round (a : Decimal) (places : Int32) : Decimal :=
  let wide := a.rescale (-places - 1)
  let moved := if wide.coeff < 0 then wide.coeff - 5 else wide.coeff + 5
  ⟨moved.tdiv 10, wide.exp + 1⟩

/-- The greatest integer not above the number. -/
def floor (a : Decimal) : Decimal :=
  if 0 ≤ a.exp then a else ⟨a.coeff.fdiv (tenPow a.exp.toInt.natAbs), 0⟩

/-- The least integer not below the number. -/
def ceil (a : Decimal) : Decimal :=
  if 0 ≤ a.exp then a
  else
    let unit : Int := tenPow a.exp.toInt.natAbs
    let q := a.coeff.fdiv unit
    ⟨if a.coeff.fmod unit = 0 then q else q + 1, 0⟩

/-- The number without its digits past `places` fractional ones. -/
def truncate (a : Decimal) (places : Int32) : Decimal :=
  if 0 ≤ places ∧ a.exp < -places then a.rescale (-places) else a

/-! ### Folds -/

/-- The least of the numbers; the first of equal ones. -/
def least (first : Decimal) (rest : List Decimal) : Decimal :=
  rest.foldl (fun acc d => if d.cmp acc == .lt then d else acc) first

/-- The greatest of the numbers; the first of equal ones. -/
def greatest (first : Decimal) (rest : List Decimal) : Decimal :=
  rest.foldl (fun acc d => if d.cmp acc == .gt then d else acc) first

/-- The sum of the numbers. -/
def sum (first : Decimal) (rest : List Decimal) : Decimal := rest.foldl add first

@[simp] theorem rescale_exp (a : Decimal) (e : Int32) : (a.rescale e).exp = e := by
  simp only [rescale]
  split
  · rfl
  · split <;> rfl

@[simp] theorem neg_exp (a : Decimal) : a.neg.exp = a.exp := rfl

end Decimal

end ScriptEngine
