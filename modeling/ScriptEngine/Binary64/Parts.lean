/-!
# The parts of a double

A finite double is `± m · 2 ^ q` for a natural number `m` and an integer `q`, both read
off its bits. Everything that prints or rounds a double exactly works on these parts, in
integer arithmetic.
-/

namespace ScriptEngine.Binary64

/-- What a bit pattern stands for. -/
inductive Parts where
  | nan
  | infinite (negative : Bool)
  /-- The value `± mantissa · 2 ^ scale`. -/
  | finite (negative : Bool) (mantissa : Nat) (scale : Int)
deriving DecidableEq, Repr

/-- Reads the sign, exponent and fraction fields of a bit pattern. Numbers with exponent
field zero have no implicit leading bit. -/
def Parts.ofBits (bits : UInt64) : Parts :=
  let n : Nat := bits.toNat
  let negative := decide (9223372036854775808 ≤ n)
  let field : Nat := n / 4503599627370496 % 2048
  let fraction : Nat := n % 4503599627370496
  if field = 2047 then
    if fraction = 0 then .infinite negative else .nan
  else if field = 0 then .finite negative fraction (-1074)
  else .finite negative (4503599627370496 + fraction) ((field : Int) - 1075)

/-- The parts of a float. -/
def parts (x : Float) : Parts := .ofBits x.toBits

/-- The magnitude `m · 2 ^ q` as a numerator and a positive denominator. -/
def magnitude (m : Nat) (q : Int) : Nat × Nat :=
  if 0 ≤ q then (m * Nat.pow 2 q.toNat, 1) else (m, Nat.pow 2 (-q).toNat)

/-- Whether the sign bit is set. -/
def isNegative (x : Float) : Bool :=
  match parts x with
  | .nan => false
  | .infinite s => s
  | .finite s _ _ => s

theorem magnitude_den_pos (m : Nat) (q : Int) : 0 < (magnitude m q).2 := by
  unfold magnitude
  split
  · exact Nat.one_pos
  · exact Nat.pow_pos (by decide)

end ScriptEngine.Binary64
