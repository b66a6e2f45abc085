import ScriptEngine.Decimal.Basic

/-!
# Division and powers of decimals

A quotient is computed to a number of fractional digits, the *precision*: `quoRem` cuts
it off there and gives the remainder, `divRound` rounds to nearest with a half going away
from zero. Powers halve the exponent with the same rounding and read the integer part off
each half, so an integer exponent gives the exact power unless a half is rounded up to the
next integer.
-/

namespace ScriptEngine.Decimal

/-- The largest shift by which a coefficient is scaled. -/
def maxShift : Int := 4294967295

/-- The quotient cut off after `precision` fractional digits, and what remains:
`a = b * q + r`. -/
def quoRem (a b : Decimal) (precision : Int32) : Except Trap (Decimal × Decimal) :=
  if b.isZero then .error .zeroDivisor
  else
    let scale : Int := -precision.toInt
    let shift := a.exp.toInt - b.exp.toInt - scale
    if maxShift < shift ∨ shift < -maxShift then .error .scaleOverflow
    else
      let (num, den, rest) :=
        if shift < 0 then (a.coeff, b.coeff * tenPow (-shift).toNat, a.exp.toInt)
        else (a.coeff * tenPow shift.toNat, b.coeff, scale + b.exp.toInt)
      .ok (⟨num.tdiv den, Int32.ofInt scale⟩, ⟨num.tmod den, Int32.ofInt rest⟩)

/-- The sum of two exponents, held within 32 bits. -/
def addExp (e f : Int32) : Int32 :=
  let n := e.toInt + f.toInt
  if n < -2147483648 then Int32.minValue
  else if 2147483647 < n then Int32.maxValue
  else Int32.ofInt n

/-- The quotient rounded to `precision` fractional digits, a half going away from zero. -/
def divRound (a b : Decimal) (precision : Int32) : Except Trap Decimal := do
  let (q, r) ← quoRem a b precision
  let doubled : Decimal := ⟨2 * (r.coeff.natAbs : Int), addExp r.exp precision⟩
  if doubled.cmp b.abs == .lt then return q
  let unit : Decimal := ⟨1, -precision⟩
  if a.sign * b.sign < 0 then return q.sub unit else return q.add unit

/-- The remainder of the quotient cut off to an integer. -/
def modulo (precision : Int32) (a b : Decimal) : Except Trap Decimal := do
  let q ← divRound a b precision
  let product ← b.mul (q.truncate 0)
  return a.sub product

/-- Powers by halving the exponent; `none` when zero is raised to a negative power. The
first argument bounds the number of halvings. -/
def powWithin : Nat → Int32 → Decimal → Decimal → Except Trap (Option Decimal)
  | 0, _, _, _ => .error .endlessHalving
  | fuel + 1, precision, a, b =>
    let n := b.intPart
    if n = 0 then .ok (some (ofInt 1))
    else if n < 0 ∧ a.isZero then .ok none
    else do
      let exponent ← divRound b (ofInt 2) precision
      match ← powWithin fuel precision a exponent with
      | none => return none
      | some half =>
        let square ← half.mul half
        if n % 2 = 0 then return some square
        else if 0 < n then return some (← square.mul a)
        else return some (← divRound square a precision)

/-- `a ^ b`: an approximation for a fractional exponent, and `none` for a zero base with a
negative exponent. At a positive precision the integer part of the exponent, of `n` bits, is
zero after at most `n + 1` halvings. -/
def pow (precision : Int32) (a b : Decimal) : Except Trap (Option Decimal) :=
  powWithin ((b.rescale 0).coeff.natAbs.log2 + 4) precision a b

/-- The mean of the numbers. -/
def mean (precision : Int32) (first : Decimal) (rest : List Decimal) : Except Trap Decimal :=
  divRound (sum first rest) (ofInt (rest.length + 1)) precision

end ScriptEngine.Decimal
