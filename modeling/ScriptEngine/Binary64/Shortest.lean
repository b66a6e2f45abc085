import ScriptEngine.Binary64.Parts

/-!
# The shortest decimal that reads back

`shortest m q` is the decimal `d · 10 ^ e` with the fewest digits among those that lie
in the rounding interval of the double `m · 2 ^ q`; of two with the same number of digits
the nearer one is taken.

The search goes through the decimal grids with one, two, … seventeen significant digits.
A grid has a point in the interval exactly when one of the value's two neighbours on that
grid is in it, so only these two are tested, in integer arithmetic.
-/

namespace ScriptEngine.Binary64

/-- The number of decimal digits of `n`; one for zero. -/
def digitCount (n : Nat) : Nat := n.repr.length

/-- The `k` with `10 ^ (k - 1) ≤ num / den < 10 ^ k`, for a positive quotient. -/
def decimalOrder (num den : Nat) : Int :=
  if den ≤ num then digitCount (num / den)
  else 1 - (digitCount ((den - 1) / num) : Int)

/-- A positive or negative power of ten as a numerator and a denominator. -/
def powTen (e : Int) : Nat × Nat :=
  if 0 ≤ e then (Nat.pow 10 e.toNat, 1) else (1, Nat.pow 10 (-e).toNat)

/-- A double's value and rounding interval over one denominator: `low / den` and
`high / den` are the ends, which belong to the interval when `closed`. -/
structure Interval where
  low : Nat
  value : Nat
  high : Nat
  den : Nat
  closed : Bool

/-- The interval of reals that round to `m · 2 ^ q`. Below a power of two the gap to the
previous double is half as wide, except at the smallest exponent. -/
def Interval.of (m : Nat) (q : Int) : Interval :=
  let (unit, den) := magnitude 1 (q - 2)
  let below := if m = 4503599627370496 ∧ -1074 < q then 1 else 2
  ⟨(4 * m - below) * unit, 4 * m * unit, (4 * m + 2) * unit, den, m % 2 == 0⟩

/-- Whether `d · 10 ^ e` lies in the interval. -/
def Interval.has (i : Interval) (d : Nat) (e : Int) : Bool :=
  let (up, down) := powTen e
  let point := d * up * i.den
  if i.closed then decide (i.low * down ≤ point ∧ point ≤ i.high * down)
  else decide (i.low * down < point ∧ point < i.high * down)

/-- The point of the grid with step `10 ^ e` that lies in the interval and is nearest to
its value, if there is one; a tie goes to the even neighbour. -/
def Interval.nearest? (i : Interval) (e : Int) : Option Nat :=
  let (up, down) := powTen e
  let below := i.value * down / (i.den * up)
  let rest := i.value * down % (i.den * up)
  let lower := i.has below e
  let upper := i.has (below + 1) e
  if lower && upper then
    if 2 * rest < i.den * up then some below
    else if i.den * up < 2 * rest then some (below + 1)
    else some (if below % 2 = 0 then below else below + 1)
  else if lower then some below
  else if upper then some (below + 1)
  else none

/-- Tries the grids of `digits`, `digits + 1`, … significant digits. -/
def Interval.search (i : Interval) (order : Int) : Nat → Nat → Nat × Int
  | 0, digits => (i.value * (powTen (digits - order)).1 / (i.den * (powTen (digits - order)).2),
      order - digits)
  | fuel + 1, digits =>
    match i.nearest? (order - digits) with
    | some d => (d, order - digits)
    | none => i.search order fuel (digits + 1)

/-- Drops the zeros at the end of the digits. -/
def dropZeros : Nat → Nat → Int → Nat × Int
  | 0, d, e => (d, e)
  | fuel + 1, d, e => if d % 10 = 0 then dropZeros fuel (d / 10) (e + 1) else (d, e)

/-- The digits and the decimal exponent of the shortest decimal that reads back as
`m · 2 ^ q`. -/
def shortest (m : Nat) (q : Int) : Nat × Int :=
  if m = 0 then (0, 0)
  else
    let i := Interval.of m q
    let (d, e) := i.search (decimalOrder i.value i.den) 17 1
    dropZeros 20 d e

end ScriptEngine.Binary64
