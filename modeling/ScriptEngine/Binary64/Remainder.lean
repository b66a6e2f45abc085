import ScriptEngine.Binary64.Parts

/-!
# Remainders of doubles

The remainder of the quotient cut off to an integer is a double whenever both operands are,
so it is computed exactly on the parts.
-/

namespace ScriptEngine.Binary64

/-- `m · 2 ^ p` modulo `n · 2 ^ q`, as a natural number times the smaller power of two. -/
def remainderParts (m : Nat) (p : Int) (n : Nat) (q : Int) : Nat × Int :=
  if p ≤ q then (m % (n * Nat.pow 2 (q - p).toNat), p) else (m * Nat.pow 2 (p - q).toNat % n, q)

/-- The remainder, with the sign of `x`. -/
def remainder (x y : Float) : Float :=
  match parts x, parts y with
  | .finite _ _ _, .infinite _ => x
  | .finite negative m p, .finite _ n q =>
    if n = 0 then 0.0 / 0.0
    else
      let (r, scale) := remainderParts m p n q
      let magnitude := (Float.ofNat r).scaleB scale
      if negative then -magnitude else magnitude
  | _, _ => 0.0 / 0.0

end ScriptEngine.Binary64
