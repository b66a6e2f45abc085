import ScriptEngine.Proofs.Equality.Order
import ScriptEngine.Proofs.Integer.Kind

/-!
# Arithmetic of integers

Two integers are brought to one kind, unsigned if both are unsigned and signed otherwise
(`Integer.common`, `Integer.as`). The arithmetic operators then compute the lowest 64 bits of the
exact result (`Integer.exactResult`), as an integer of that kind. In particular the least signed
integer divided by minus one is itself.

A power is computed so below the exponent 2 ^ 32 only. From there on it is a double, as it is for
negative exponents.
-/

namespace ScriptEngine

open Eval

/-- What an operator refuses for two numbers of one kind is a fault. -/
theorem Operators.binary_of_refused {op : InfixOp} {a b : Value} {pair : NumberPair} {c : Cause}
    {s : State} (h : Arithmetic.promote a b = .ok (some pair))
    (hc : Arithmetic.onPair s.settings.divisionPrecision op pair = .error (.cause c))
    (span : Span) : binary op a b span s = .stop (.fault ⟨c, span⟩) s := by
  rw [binary, h]
  change (ofRefusal span (Arithmetic.onPair s.settings.divisionPrecision op pair) >>= _) s = _
  rw [hc]
  rfl

/-! ### Words -/

/-- Unsigned words are multiplied modulo 2 ^ 64. -/
theorem toNat_mul_modEq (a b : UInt64) :
    ((a * b).toNat : ℤ) ≡ a.toNat * b.toNat [ZMOD 2 ^ 64] := by
  rw [UInt64.toNat_mul]
  push_cast
  exact Int.mod_modEq _ _

/-- Squaring computes powers, up to the lowest 64 bits. -/
theorem toNat_wrappingPow_modEq (b : UInt64) (n : ℕ) :
    ((Arithmetic.wrappingPow b n).toNat : ℤ) ≡ (b.toNat : ℤ) ^ n [ZMOD 2 ^ 64] := by
  -- on the exponent, which is halved, for every base: the base is squared in the same step
  induction n using Nat.strong_induction_on generalizing b with
  | h n ih =>
    unfold Arithmetic.wrappingPow
    split
    · next hn =>
      subst hn
      rfl
    · next hn =>
      -- the power of the square is the power without the last bit of the exponent
      have hhalf : ((Arithmetic.wrappingPow (b * b) (n / 2)).toNat : ℤ) ≡
          (b.toNat : ℤ) ^ (2 * (n / 2)) [ZMOD 2 ^ 64] := by
        have hsquare := (toNat_mul_modEq b b).pow (n / 2)
        rw [← pow_two (b.toNat : ℤ), ← pow_mul] at hsquare
        exact (ih (n / 2) (by omega) (b * b)).trans hsquare
      split
      · next hodd =>
        have hexp : n = 2 * (n / 2) + 1 := by omega
        have hmul := (toNat_mul_modEq b _).trans (hhalf.mul_left (b.toNat : ℤ))
        rw [← pow_succ', ← hexp] at hmul
        exact hmul
      · next heven =>
        have hexp : 2 * (n / 2) = n := by omega
        rwa [hexp] at hhalf

/-! ### What operators compute -/

namespace Integer

/-- Integers are among the numbers that are held exactly. -/
def toExact : Integer → ExactNumber
  | int n => .int n
  | uint n => .uint n

/-- An integer has one value, also as a number that is held exactly. -/
theorem toValue_toExact (n : Integer) : n.toExact.toValue = n.toValue := by
  cases n <;> rfl

/-- The kind that two integers are brought to. -/
def common : Integer → Integer → IntegerKind
  | uint _, uint _ => .unsigned
  | _, _ => .signed

/-- The number that an integer counts for as one of a kind. -/
def as (n : Integer) (k : IntegerKind) : ℤ := (k.wrap n.number).number

/-- The arithmetic operators. -/
def arithmetic : List InfixOp := [.add, .subtract, .multiply, .divide, .modulo, .power]

/-- The result of an arithmetic operator, before it is wrapped. Quotients go toward zero, and
remainders have the sign of the dividend. Divisions by zero and powers with a negative exponent have
no integer. -/
def exactResult : InfixOp → ℤ → ℤ → Option ℤ
  | .add, x, y => some (x + y)
  | .subtract, x, y => some (x - y)
  | .multiply, x, y => some (x * y)
  | .divide, x, y => if y = 0 then none else some (x.tdiv y)
  | .modulo, x, y => if y = 0 then none else some (x.tmod y)
  | .power, x, y => if y < 0 then none else some (x ^ y.toNat)
  | _, _, _ => none

/-- In the state the operator answers with an integer of the common kind that is congruent to the
number. -/
def Wraps (a : Integer) (s : State) (op : InfixOp) (b : Integer) (z : ℤ) : Prop :=
  ∃ r : Integer, r.kind = a.common b ∧ r.number ≡ z [ZMOD 2 ^ 64] ∧
    ∀ span, Operators.binary op a.toValue b.toValue span s = .done r.toValue s

variable {op : InfixOp} {z : ℤ}

/-- An exponent of a power that is too large for it to be computed as an integer. -/
def TooLarge (op : InfixOp) (y : ℤ) : Prop := op = .power ∧ 2 ^ 32 ≤ y

/-- Signed integers are added, subtracted and multiplied modulo 2 ^ 64; quotients and remainders go
toward zero, and powers are computed on unsigned words. -/
theorem onInts_wraps {x y : Int64} (hz : exactResult op x.toInt y.toInt = some z)
    (hop : ¬ TooLarge op y.toInt) :
    ∃ r : Int64, Arithmetic.onInts op x y = .ok (some (.int r)) ∧ r.toInt ≡ z [ZMOD 2 ^ 64] := by
  -- the operators ask whether the word is zero, not the number
  have hzero : y.toInt ≠ 0 → y ≠ 0 := by
    rintro hy rfl
    exact hy rfl
  cases op with
  | add =>
    -- sums, differences and products are those of the numbers, brought into the range
    obtain rfl := Option.some.inj hz
    refine ⟨x + y, rfl, ?_⟩
    rw [Int64.toInt_add]
    exact bmod_modEq _
  | subtract =>
    obtain rfl := Option.some.inj hz
    refine ⟨x - y, rfl, ?_⟩
    rw [Int64.toInt_sub]
    exact bmod_modEq _
  | multiply =>
    obtain rfl := Option.some.inj hz
    refine ⟨x * y, rfl, ?_⟩
    rw [Int64.toInt_mul]
    exact bmod_modEq _
  | divide =>
    -- of the quotients only the least integer by minus one has to be brought back
    obtain ⟨hy, hz⟩ := Option.ite_none_left_eq_some.mp hz
    obtain rfl := Option.some.inj hz
    refine ⟨x / y, if_neg (hzero hy), ?_⟩
    rw [Int64.toInt_div]
    exact bmod_modEq _
  | modulo =>
    obtain ⟨hy, hz⟩ := Option.ite_none_left_eq_some.mp hz
    obtain rfl := Option.some.inj hz
    refine ⟨x % y, if_neg (hzero hy), ?_⟩
    -- a remainder is always in the range
    rw [Int64.toInt_mod]
  | power =>
    obtain ⟨hy, hz⟩ := Option.ite_none_left_eq_some.mp hz
    obtain rfl := Option.some.inj hz
    have hlarge : y.toInt < 2 ^ 32 := not_le.mp fun h => hop ⟨rfl, h⟩
    have hrange : 0 ≤ y ∧ y.toInt < (Arithmetic.maxExponent : ℤ) :=
      ⟨Int64.le_iff_toInt_le.mpr (not_lt.mp hy), hlarge⟩
    refine ⟨(Arithmetic.wrappingPow x.toUInt64 y.toInt.toNat).toInt64, if_pos hrange, ?_⟩
    -- the same bits, read as unsigned, are raised to the power
    calc (Arithmetic.wrappingPow x.toUInt64 y.toInt.toNat).toInt64.toInt
        ≡ (Arithmetic.wrappingPow x.toUInt64 y.toInt.toNat).toNat [ZMOD 2 ^ 64] :=
          toInt_toInt64_modEq _
      _ ≡ (x.toUInt64.toNat : ℤ) ^ y.toInt.toNat [ZMOD 2 ^ 64] := toNat_wrappingPow_modEq _ _
      _ ≡ x.toInt ^ y.toInt.toNat [ZMOD 2 ^ 64] := (toNat_toUInt64_modEq x).pow _
  | _ => exact nomatch hz

/-- Unsigned integers are computed in the same way; here only sums, differences, products and powers
can leave the range. -/
theorem onUInts_wraps {x y : UInt64} (hz : exactResult op x.toNat y.toNat = some z)
    (hop : ¬ TooLarge op y.toNat) :
    ∃ r : UInt64, Arithmetic.onUInts op x y = .ok (some (.uint r)) ∧
      (r.toNat : ℤ) ≡ z [ZMOD 2 ^ 64] := by
  have hzero : (y.toNat : ℤ) ≠ 0 → y ≠ 0 := by
    rintro hy rfl
    exact hy rfl
  cases op with
  | add =>
    obtain rfl := Option.some.inj hz
    refine ⟨x + y, rfl, ?_⟩
    rw [UInt64.toNat_add]
    push_cast
    exact Int.mod_modEq _ _
  | subtract =>
    obtain rfl := Option.some.inj hz
    refine ⟨x - y, rfl, ?_⟩
    have hy := y.toNat_lt
    rw [UInt64.toNat_sub]
    -- a difference below zero comes back from the upper end
    unfold Int.ModEq
    omega
  | multiply =>
    obtain rfl := Option.some.inj hz
    exact ⟨x * y, rfl, toNat_mul_modEq x y⟩
  | divide =>
    obtain ⟨hy, hz⟩ := Option.ite_none_left_eq_some.mp hz
    obtain rfl := Option.some.inj hz
    refine ⟨x / y, if_neg (hzero hy), ?_⟩
    rw [UInt64.toNat_div, Int.ofNat_tdiv]
  | modulo =>
    obtain ⟨hy, hz⟩ := Option.ite_none_left_eq_some.mp hz
    obtain rfl := Option.some.inj hz
    refine ⟨x % y, if_neg (hzero hy), ?_⟩
    rw [UInt64.toNat_mod, Int.ofNat_tmod]
  | power =>
    have hy : ¬ (y.toNat : ℤ) < 0 := not_lt.mpr (Int.natCast_nonneg _)
    rw [exactResult, if_neg hy] at hz
    obtain rfl := Option.some.inj hz
    have hlarge : y.toNat < Arithmetic.maxExponent := by
      have hy : (y.toNat : ℤ) < 2 ^ 32 := not_le.mp fun h => hop ⟨rfl, h⟩
      unfold Arithmetic.maxExponent
      omega
    refine ⟨Arithmetic.wrappingPow x y.toNat, if_pos hlarge, ?_⟩
    rw [Int.toNat_natCast]
    exact toNat_wrappingPow_modEq x y.toNat
  | _ => exact nomatch hz

/-- Exponents that are negative or too large lead to the doubles. -/
theorem onInts_power {x y : Int64} (hy : y.toInt < 0 ∨ 2 ^ 32 ≤ y.toInt) :
    ∃ w, Arithmetic.onInts .power x y = .ok (some (.float w)) := by
  refine ⟨_, if_neg ?_⟩
  rintro ⟨hlo, hhi⟩
  have hnonneg : 0 ≤ y.toInt := Int64.le_iff_toInt_le.mp hlo
  have hsmall : y.toInt < 2 ^ 32 := hhi
  omega

/-- For unsigned integers the exponent can only be too large. -/
theorem onUInts_power {x y : UInt64} (hy : (2 : ℤ) ^ 32 ≤ y.toNat) :
    ∃ w, Arithmetic.onUInts .power x y = .ok (some (.float w)) := by
  refine ⟨_, if_neg ?_⟩
  unfold Arithmetic.maxExponent
  omega

/-! ### Bringing integers to one kind -/

variable {a b : Integer} {s : State}

/-- An unsigned integer counts as the signed one with the same bits. -/
theorem as_signed_uint (n : UInt64) : (uint n).as .signed = n.toInt64.toInt := by
  rw [toInt_toInt64]
  exact Int64.toInt_ofInt

/-- With a signed integer among them, both are taken as signed. -/
theorem promote_signed (h : a.common b = .signed) :
    ∃ x y : Int64, a.as .signed = x.toInt ∧ b.as .signed = y.toInt ∧
      Arithmetic.promote a.toValue b.toValue = .ok (some (.int x y)) := by
  -- a signed integer counts as itself
  have hint : ∀ n : Int64, (int n).as .signed = n.toInt := fun n => number_wrap (int n).fits
  cases a with
  | int n =>
    cases b with
    | int m => exact ⟨n, m, hint n, hint m, rfl⟩
    | uint m => exact ⟨n, m.toInt64, hint n, as_signed_uint m, rfl⟩
  | uint n =>
    cases b with
    | int m => exact ⟨n.toInt64, m, as_signed_uint n, hint m, rfl⟩
    | uint m => exact nomatch h

/-- Two unsigned integers are taken as they are. -/
theorem promote_unsigned (h : a.common b = .unsigned) :
    ∃ x y : UInt64, a.as .unsigned = x.toNat ∧ b.as .unsigned = y.toNat ∧
      Arithmetic.promote a.toValue b.toValue = .ok (some (.uint x y)) := by
  have huint : ∀ n : UInt64, (uint n).as .unsigned = n.toNat := fun n => number_wrap (uint n).fits
  cases a with
  | int n => cases b <;> exact nomatch h
  | uint n =>
    cases b with
    | int m => exact nomatch h
    | uint m => exact ⟨n, m, huint n, huint m, rfl⟩

/-- **Integers in, an integer out.** -/
theorem wraps (hz : exactResult op (a.as (a.common b)) (b.as (a.common b)) = some z)
    (hop : ¬ TooLarge op (b.as (a.common b))) : a.Wraps s op b z := by
  match h : a.common b with
  -- the exact result is that of the numbers the operands count for
  | .signed =>
    obtain ⟨x, y, hx, hy, hpromote⟩ := promote_signed h
    rw [h, hx, hy] at hz
    rw [h, hy] at hop
    obtain ⟨r, hr, hmod⟩ := onInts_wraps hz hop
    exact ⟨int r, h.symm, hmod, Operators.binary_of_pair hpromote hr⟩
  | .unsigned =>
    obtain ⟨x, y, hx, hy, hpromote⟩ := promote_unsigned h
    rw [h, hx, hy] at hz
    rw [h, hy] at hop
    obtain ⟨r, hr, hmod⟩ := onUInts_wraps hz hop
    exact ⟨uint r, h.symm, hmod, Operators.binary_of_pair hpromote hr⟩

/-- Powers that are not computed as integers are doubles. -/
theorem power_float (h : b.as (a.common b) < 0 ∨ 2 ^ 32 ≤ b.as (a.common b)) :
    ∃ w, ∀ span, Operators.binary .power a.toValue b.toValue span s = .done (.float w) s := by
  match hkind : a.common b with
  | .signed =>
    obtain ⟨x, y, -, hy, hpromote⟩ := promote_signed hkind
    rw [hkind, hy] at h
    obtain ⟨w, hw⟩ := onInts_power (x := x) h
    exact ⟨w, Operators.binary_of_pair hpromote hw⟩
  | .unsigned =>
    obtain ⟨x, y, -, hy, hpromote⟩ := promote_unsigned hkind
    rw [hkind, hy] at h
    -- unsigned exponents are not negative
    have hlarge : (2 : ℤ) ^ 32 ≤ y.toNat := h.resolve_left (not_lt.mpr (Int.natCast_nonneg _))
    obtain ⟨w, hw⟩ := onUInts_power (x := x) hlarge
    exact ⟨w, Operators.binary_of_pair hpromote hw⟩

/-- Nothing is divided by zero. -/
theorem divide_zero (hop : op = .divide ∨ op = .modulo) (h : b.as (a.common b) = 0)
    (span : Span) :
    Operators.binary op a.toValue b.toValue span s =
      .stop (.fault ⟨.divideByZero, span⟩) s := by
  match hkind : a.common b with
  | .signed =>
    obtain ⟨x, y, -, hy, hpromote⟩ := promote_signed hkind
    -- the word is zero because the number is
    have hzero : y = 0 := by
      rw [hkind, hy] at h
      exact Int64.toInt_inj.mp h
    refine Operators.binary_of_refused hpromote ?_ span
    obtain rfl | rfl := hop
    · exact if_pos hzero
    · exact if_pos hzero
  | .unsigned =>
    obtain ⟨x, y, -, hy, hpromote⟩ := promote_unsigned hkind
    have hzero : y = 0 := by
      rw [hkind, hy] at h
      exact UInt64.toNat_inj.mp (Int.ofNat_inj.mp h)
    refine Operators.binary_of_refused hpromote ?_ span
    obtain rfl | rfl := hop
    · exact if_pos hzero
    · exact if_pos hzero

/-- An arithmetic operator has an exact result, or divides by zero, or raises to a negative
power. -/
theorem exactResult_cases (hop : op ∈ arithmetic) (x y : ℤ) :
    (∃ z, exactResult op x y = some z) ∨ ((op = .divide ∨ op = .modulo) ∧ y = 0) ∨
      (op = .power ∧ y < 0) := by
  cases op with
  | add => exact .inl ⟨x + y, rfl⟩
  | subtract => exact .inl ⟨x - y, rfl⟩
  | multiply => exact .inl ⟨x * y, rfl⟩
  | divide =>
    by_cases hy : y = 0
    · exact .inr (.inl ⟨.inl rfl, hy⟩)
    · exact .inl ⟨x.tdiv y, if_neg hy⟩
  | modulo =>
    by_cases hy : y = 0
    · exact .inr (.inl ⟨.inr rfl, hy⟩)
    · exact .inl ⟨x.tmod y, if_neg hy⟩
  | power =>
    by_cases hy : y < 0
    · exact .inr (.inr ⟨rfl, hy⟩)
    · exact .inl ⟨x ^ y.toNat, if_neg hy⟩
  | _ => exact absurd hop (by decide)

end Integer

/-- **Arithmetic of integers wraps.** The operators `+`, `-`, `*`, `/`, `%` and `**` answer for two
integers with an integer of their common kind that is congruent to the exact result modulo 2 ^ 64,
if there is an exact result; but a power whose exponent is 2 ^ 32 or more is a double, like one
whose exponent is negative. Division by zero is a fault. There is no other end: each operator
answers or has that fault, and leaves the state as it is.

An expression with such an operator answers what the operator answers for the values of its
operands. -/
theorem Operators.integers_wrap (a b : Integer) (op : InfixOp) (s : State) :
    (∀ z, Integer.exactResult op (a.as (a.common b)) (b.as (a.common b)) = some z →
      (a.Wraps s op b z ↔ ¬ Integer.TooLarge op (b.as (a.common b)))) ∧
    (op = .power → b.as (a.common b) < 0 ∨ 2 ^ 32 ≤ b.as (a.common b) →
      ∃ w, ∀ span, binary op a.toValue b.toValue span s = .done (.float w) s) ∧
    (op = .divide ∨ op = .modulo → b.as (a.common b) = 0 →
      ∀ span, binary op a.toValue b.toValue span s = .stop (.fault ⟨.divideByZero, span⟩) s) ∧
    (op ∈ Integer.arithmetic → ∀ span,
      (∃ v, binary op a.toValue b.toValue span s = .done v s) ∨
        binary op a.toValue b.toValue span s = .stop (.fault ⟨.divideByZero, span⟩) s) ∧
    ∀ {E : Engine} {scope : Ref .scope} {left right : Expr} {t u : State} (span : Span),
      op ∈ Integer.arithmetic → E.expr scope left t = .done a.toValue u →
      E.expr scope right u = .done b.toValue s →
      Expr.eval E scope (.mk (.binary op left right) span) t =
        binary op a.toValue b.toValue span s := by
  refine ⟨?result, ?float, Integer.divide_zero, ?ends, ?expression⟩
  case result =>
    intro z hz
    constructor
    · rintro ⟨r, -, -, hr⟩ ⟨rfl, hlarge⟩
      -- such a power is a double, which is no integer of either kind
      obtain ⟨w, hw⟩ := Integer.power_float (a := a) (s := s) (.inr hlarge)
      have heq := (hr .unknown).symm.trans (hw .unknown)
      cases r <;> cases heq
    · exact Integer.wraps hz
  case float =>
    rintro rfl h
    exact Integer.power_float h
  case ends =>
    intro hop span
    by_cases hlarge : Integer.TooLarge op (b.as (a.common b))
    · obtain ⟨rfl, hlarge⟩ := hlarge
      obtain ⟨w, hw⟩ := Integer.power_float (a := a) (s := s) (.inr hlarge)
      exact .inl ⟨.float w, hw span⟩
    · obtain ⟨z, hz⟩ | ⟨hdiv, hzero⟩ | ⟨rfl, hneg⟩ :=
        Integer.exactResult_cases hop (a.as (a.common b)) (b.as (a.common b))
      · obtain ⟨r, -, -, hr⟩ := Integer.wraps (s := s) hz hlarge
        exact .inl ⟨r.toValue, hr span⟩
      · exact .inr (Integer.divide_zero hdiv hzero span)
      · obtain ⟨w, hw⟩ := Integer.power_float (a := a) (s := s) (.inl hneg)
        exact .inl ⟨.float w, hw span⟩
  case expression =>
    intro E scope left right t u span hop hleft hright
    -- the two operators that may leave out an operand are not arithmetic
    have hand : op ≠ .and := by
      rintro rfl
      exact absurd hop (by decide)
    have hor : op ≠ .or := by
      rintro rfl
      exact absurd hop (by decide)
    -- expressions are evaluated alike for all numbers that are held exactly
    rw [← a.toValue_toExact] at hleft ⊢
    rw [← b.toValue_toExact] at hright ⊢
    exact ExactNumber.eval_binary hand hor hleft hright span

/-- The least integer divided by minus one wraps, its remainder by zero is refused, and a negative
power of two is a double; an expression with the literals does the division. -/
theorem Operators.integers_wrap_least :
    (Integer.int (-9223372036854775808)).Wraps .blank .divide (.int (-1)) 9223372036854775808 ∧
    (∀ span, binary .modulo (.int (-9223372036854775808)) (.int 0) span .blank =
      .stop (.fault ⟨.divideByZero, span⟩) .blank) ∧
    (∃ w, ∀ span, binary .power (.uint 2) (.int (-1)) span .blank = .done (.float w) .blank) ∧
    Expr.eval (.level 1) State.root
      (.mk (.binary .divide (.mk (.int (-9223372036854775808)) .unknown) (.mk (.int (-1)) .unknown))
        .unknown) .blank =
      binary .divide (.int (-9223372036854775808)) (.int (-1)) .unknown .blank := by
  obtain ⟨hwraps, -, -, -, hexpr⟩ :=
    Operators.integers_wrap (.int (-9223372036854775808)) (.int (-1)) .divide .blank
  obtain ⟨-, -, hzero, -⟩ :=
    Operators.integers_wrap (.int (-9223372036854775808)) (.int 0) .modulo .blank
  obtain ⟨-, hfloat, -⟩ := Operators.integers_wrap (.uint 2) (.int (-1)) .power .blank
  refine ⟨(hwraps _ (by decide)).mpr ?_, hzero (.inr rfl) (by decide), ?_, ?_⟩
  · rintro ⟨hpower, -⟩
    exact nomatch hpower
  · exact hfloat rfl (.inl (by decide))
  · exact hexpr .unknown (by decide) rfl rfl

/-- A power of one whose exponent does not fit into 32 bits is a double. -/
theorem Operators.power_leaves_integers :
    Integer.exactResult .power 1 4294967296 = some 1 ∧
    ∀ r : Integer, binary .power (.int 1) (.int 4294967296) .unknown .blank ≠
      .done r.toValue .blank := by
  constructor
  · rw [Integer.exactResult, if_neg (by decide), one_pow]
  · intro r hr
    have hlarge : (2 : ℤ) ^ 32 ≤ (Integer.int 4294967296).as .signed := by decide
    obtain ⟨w, hw⟩ := Integer.power_float (a := .int 1) (b := .int 4294967296) (s := .blank)
      (.inr hlarge)
    have heq := hr.symm.trans (hw .unknown)
    cases r <;> cases heq

end ScriptEngine
