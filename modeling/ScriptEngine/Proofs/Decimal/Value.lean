import Mathlib.Algebra.Order.Field.Power
import Mathlib.Data.Rat.Floor
import Mathlib.Tactic.FieldSimp
import Mathlib.Tactic.Linarith
import Mathlib.Tactic.Positivity
import Mathlib.Tactic.Ring
import ScriptEngine.Decimal.Basic

/-!
# The number a decimal stands for

`Decimal.toRat d` is the number `coeff · 10 ^ exp`. Alignment does not change it, since it lowers
exponents only, so sums, differences and comparisons of aligned coefficients are those of the
numbers. Raising an exponent drops digits: the coefficient becomes the number in units of the
new exponent, cut off toward zero.
-/

namespace ScriptEngine.Decimal

/-- The number `coeff · 10 ^ exp`. -/
def toRat (d : Decimal) : ℚ := d.coeff * 10 ^ d.exp.toInt

/-- The integer part of a number. -/
def towardZero (x : ℚ) : ℤ := if 0 ≤ x then ⌊x⌋ else ⌈x⌉

@[simp] theorem toRat_mk (n : ℤ) (e : Int32) : toRat ⟨n, e⟩ = n * 10 ^ e.toInt := rfl

/-- An integer stands for itself. -/
@[simp] theorem toRat_ofInt (n : ℤ) : (ofInt n).toRat = n := by
  rw [ofInt, toRat_mk]
  exact mul_one _

/-- A power of ten as a number. -/
@[simp] theorem cast_tenPow (k : ℕ) : (tenPow k : ℚ) = 10 ^ k := by
  simp [tenPow]

/-- Powers of ten are positive. -/
theorem tenPow_pos (k : ℕ) : 0 < tenPow k := by
  simp [tenPow]

/-- The power of ten that a decimal is counted in. -/
theorem unit_pos (e : Int32) : (0 : ℚ) < 10 ^ e.toInt := by positivity

/-! ### Integer parts -/

/-- Below zero the integer part is that of the opposite. -/
theorem towardZero_of_nonpos {x : ℚ} (h : x ≤ 0) : towardZero x = -⌊|x|⌋ := by
  -- between the two signs there is only zero, which is its own integer part
  rw [abs_of_nonpos h, Int.floor_neg, neg_neg, towardZero]
  split
  · next hx => rw [le_antisymm h hx, Int.floor_zero, Int.ceil_zero]
  · rfl

/-- From zero on it is the floor. -/
theorem towardZero_of_nonneg {x : ℚ} (h : 0 ≤ x) : towardZero x = ⌊|x|⌋ := by
  rw [abs_of_nonneg h, towardZero, if_pos h]

/-- Its size is the floor of the size. -/
theorem natAbs_towardZero (x : ℚ) : ((towardZero x).natAbs : ℤ) = ⌊|x|⌋ := by
  have hfloor : 0 ≤ ⌊|x|⌋ := Int.floor_nonneg.mpr (abs_nonneg x)
  obtain hx | hx := le_total 0 x
  -- on either side of zero it is the floor of the size
  · rw [towardZero_of_nonneg hx, Int.natAbs_of_nonneg hfloor]
  · rw [towardZero_of_nonpos hx, Int.natAbs_neg, Int.natAbs_of_nonneg hfloor]

/-- What is cut off is less than one, and on the same side of zero. -/
theorem sub_towardZero (x : ℚ) : |x - towardZero x| < 1 ∧ 0 ≤ (x - towardZero x) * x := by
  unfold towardZero
  split
  · next hx =>
    rw [Int.self_sub_floor, abs_of_nonneg (Int.fract_nonneg x)]
    exact ⟨Int.fract_lt_one x, mul_nonneg (Int.fract_nonneg x) hx⟩
  · next hx =>
    -- the ceiling of a number below zero is above it, by less than one
    have hle : x - ⌈x⌉ ≤ 0 := sub_nonpos.mpr (Int.le_ceil x)
    have hlt := Int.ceil_lt_add_one x
    rw [abs_of_nonpos hle]
    exact ⟨by linarith, mul_nonneg_of_nonpos_of_nonpos hle (not_le.mp hx).le⟩

/-! ### Rescaling -/

/-- Lowering the exponent does not change the number. -/
theorem toRat_rescale_of_le {a : Decimal} {e : Int32} (h : e ≤ a.exp) :
    (a.rescale e).toRat = a.toRat := by
  have he : e.toInt ≤ a.exp.toInt := Int32.le_iff_toInt_le.mp h
  -- the exponent is not raised, so the coefficient is scaled up or kept
  simp only [rescale]
  split
  · omega
  · split
    · obtain ⟨k, hk⟩ : ∃ k : ℕ, a.exp.toInt = e.toInt + k :=
        ⟨(a.exp.toInt - e.toInt).toNat, by omega⟩
      have hshift : (-(e.toInt - a.exp.toInt)).toNat = k := by omega
      rw [hshift, toRat_mk, toRat, hk, zpow_add₀ (by norm_num), zpow_natCast]
      push_cast [cast_tenPow]
      ring
    · have : e.toInt = a.exp.toInt := by omega
      simp [toRat, this]

/-- Division of integers drops the fraction. -/
theorem tdiv_eq_towardZero (n : ℤ) {m : ℤ} (hm : 0 < m) :
    n.tdiv m = towardZero ((n : ℚ) / m) := by
  have hm' : (0 : ℚ) < m := by exact_mod_cast hm
  unfold towardZero
  -- division by truncation rounds down from zero on, and up below it
  by_cases hn : 0 ≤ n
  -- from zero on both are the floor
  · have : (0 : ℚ) ≤ n / m := div_nonneg (by exact_mod_cast hn) hm'.le
    rw [if_pos this, Int.tdiv_eq_ediv_of_nonneg hn]
    obtain ⟨k, rfl⟩ := Int.eq_ofNat_of_zero_le hm.le
    exact_mod_cast (Rat.floor_intCast_div_natCast n k).symm
  · have : ¬ (0 : ℚ) ≤ n / m := by
      rw [not_le]
      exact div_neg_of_neg_of_pos (by exact_mod_cast not_le.mp hn) hm'
    obtain ⟨k, rfl⟩ := Int.eq_ofNat_of_zero_le hm.le
    obtain ⟨l, rfl⟩ := Int.exists_eq_neg_ofNat (not_le.mp hn).le
    rw [if_neg this, Int.neg_tdiv, Int.tdiv_eq_ediv_of_nonneg (Int.natCast_nonneg l)]
    -- below zero both are the ceiling
    have := Rat.ceil_intCast_div_natCast (-l) k
    rw [neg_neg] at this
    exact_mod_cast this.symm

/-- In units of a higher exponent, the coefficient is the number cut off toward zero. -/
theorem coeff_rescale_of_lt {a : Decimal} {e : Int32} (h : a.exp < e) :
    (a.rescale e).coeff = towardZero (a.toRat / 10 ^ e.toInt) := by
  have he : a.exp.toInt < e.toInt := Int32.lt_iff_toInt_lt.mp h
  obtain ⟨k, hk⟩ : ∃ k : ℕ, e.toInt = a.exp.toInt + k :=
    ⟨(e.toInt - a.exp.toInt).toNat, by omega⟩
  have hshift : (e.toInt - a.exp.toInt).toNat = k := by omega
  -- the digits that go are the last `k` of the coefficient
  have hunit : a.toRat / 10 ^ e.toInt = (a.coeff : ℚ) / tenPow k := by
    rw [hk, zpow_add₀ (by norm_num), zpow_natCast, cast_tenPow, toRat]
    field_simp
  rw [hunit, ← tdiv_eq_towardZero _ (tenPow_pos k)]
  unfold rescale
  rw [if_pos (by omega), hshift]

/-- An integer is its own integer part. -/
@[simp] theorem towardZero_intCast (n : ℤ) : towardZero n = n := by
  unfold towardZero
  -- a number that is an integer is its own floor and ceiling
  split
  · exact Int.floor_intCast n
  · exact Int.ceil_intCast n

/-- At exponent zero, the coefficient is the integer part. -/
theorem coeff_rescale_zero (a : Decimal) : (a.rescale 0).coeff = towardZero a.toRat := by
  by_cases h : a.exp < 0
  -- digits have to go, so the number is cut off
  · rw [coeff_rescale_of_lt h]
    simp
  -- the exponent is lowered, so nothing has to go
  · rw [← toRat_rescale_of_le (Int32.not_lt.mp h)]
    simp [toRat]

/-! ### Alignment -/

/-- The common exponent is not above the first one. -/
theorem commonExp_le_left (a b : Decimal) : commonExp a b ≤ a.exp := by
  unfold commonExp
  split
  · exact Int32.le_refl _
  · next h => exact Int32.le_of_lt (Int32.not_le.mp h)

/-- Nor above the second one. -/
theorem commonExp_le_right (a b : Decimal) : commonExp a b ≤ b.exp := by
  unfold commonExp
  split
  · assumption
  · exact Int32.le_refl _

/-- The coefficients at the common exponent, as numbers. -/
theorem toRat_aligned (a b : Decimal) :
    a.toRat = (a.aligned b).1 * 10 ^ (a.aligned b).2.2.toInt ∧
      b.toRat = (a.aligned b).2.1 * 10 ^ (a.aligned b).2.2.toInt := by
  constructor
  -- both exponents are lowered to the common one, if at all
  · rw [← toRat_rescale_of_le (commonExp_le_left a b)]
    simp [toRat, aligned]
  · rw [← toRat_rescale_of_le (commonExp_le_right a b)]
    simp [toRat, aligned]

/-! ### Operations -/

/-- **A sum is the sum of the numbers.** -/
theorem toRat_add (a b : Decimal) : (a.add b).toRat = a.toRat + b.toRat := by
  obtain ⟨ha, hb⟩ := toRat_aligned a b
  rw [ha, hb, ← add_mul]
  simp [add, toRat]

/-- **A difference is that of the numbers.** -/
theorem toRat_sub (a b : Decimal) : (a.sub b).toRat = a.toRat - b.toRat := by
  obtain ⟨ha, hb⟩ := toRat_aligned a b
  rw [ha, hb, ← sub_mul]
  simp [sub, toRat]

/-- The opposite. -/
theorem toRat_neg (a : Decimal) : a.neg.toRat = -a.toRat := by
  simp [neg, toRat]

/-- The size. -/
theorem toRat_abs (a : Decimal) : a.abs.toRat = |a.toRat| := by
  rw [toRat, toRat, abs_mul, abs_of_pos (unit_pos a.exp)]
  simp [abs]

/-- Numbers on one side of zero have one sign. -/
theorem sign_eq_of_mul_pos {a r : Decimal} (h : 0 < r.toRat * a.toRat) : r.sign = a.sign := by
  have hcoeffs : 0 < r.coeff * a.coeff := by
    -- the powers of ten are positive, so the sign is that of the coefficients
    have hunits : r.toRat * a.toRat =
        (r.coeff * a.coeff : ℤ) * (10 ^ r.exp.toInt * 10 ^ a.exp.toInt) := by
      rw [toRat, toRat]
      push_cast
      ring
    rw [hunits, mul_pos_iff_of_pos_right (mul_pos (unit_pos _) (unit_pos _))] at h
    exact_mod_cast h
  obtain ⟨hr, ha⟩ | ⟨hr, ha⟩ := mul_pos_iff.mp hcoeffs
  · rw [sign, sign, Int.sign_eq_one_of_pos hr, Int.sign_eq_one_of_pos ha]
  · rw [sign, sign, Int.sign_eq_neg_one_of_neg hr, Int.sign_eq_neg_one_of_neg ha]

/-- The product, with its range of exponents. -/
theorem mul_map_toRat (a b : Decimal) :
    (a.mul b).map toRat =
      if -2 ^ 31 ≤ a.exp.toInt + b.exp.toInt ∧ a.exp.toInt + b.exp.toInt < 2 ^ 31 then
        .ok (a.toRat * b.toRat)
      else .error (.exponentOverflow (a.exp.toInt + b.exp.toInt)) := by
  -- the sum of the exponents has to fit into 32 bits
  have hiff : fitsExp (a.exp.toInt + b.exp.toInt) = true ↔
      -2 ^ 31 ≤ a.exp.toInt + b.exp.toInt ∧ a.exp.toInt + b.exp.toInt < 2 ^ 31 := by
    simp only [fitsExp, decide_eq_true_eq]
    omega
  by_cases h : fitsExp (a.exp.toInt + b.exp.toInt) = true
  · obtain ⟨hlo, hhi⟩ := hiff.mp h
    rw [if_pos ⟨hlo, hhi⟩]
    simp only [mul, h, if_true, Except.map, toRat, Int32.toInt_ofInt_of_le hlo hhi]
    rw [zpow_add₀ (by norm_num)]
    push_cast
    congr 1
    ring
  -- the exponents do not fit, and this is what is reported
  · rw [if_neg (fun hfits => h (hiff.mpr hfits))]
    simp [mul, h, Except.map]

/-- Multiples of one unit compare as their counts. -/
theorem compare_mul_unit (x y : ℤ) {unit : ℚ} (hu : 0 < unit) :
    compare (x * unit) (y * unit) = compare x y := by
  -- a positive unit keeps the order
  have hscale : ∀ x y : ℤ, (x : ℚ) * unit < y * unit ↔ x < y := fun x y => by
    rw [mul_lt_mul_iff_left₀ hu, Int.cast_lt]
  obtain h | h | h := lt_trichotomy x y
  · rw [compare_lt_iff_lt.mpr h, compare_lt_iff_lt.mpr ((hscale _ _).mpr h)]
  · rw [compare_eq_iff_eq.mpr h, compare_eq_iff_eq.mpr (by rw [h])]
  · rw [compare_gt_iff_gt.mpr h, compare_gt_iff_gt.mpr ((hscale _ _).mpr h)]

/-- Comparison is that of the numbers. -/
theorem cmp_eq_compare (a b : Decimal) : a.cmp b = compare a.toRat b.toRat := by
  obtain ⟨ha, hb⟩ := toRat_aligned a b
  rw [ha, hb, compare_mul_unit _ _ (unit_pos _)]
  rfl

/-- Equal decimals are those that stand for the same number. -/
theorem beq_iff_toRat_eq (a b : Decimal) : (a == b) = true ↔ a.toRat = b.toRat := by
  change (a.cmp b == .eq) = true ↔ _
  rw [beq_iff_eq, cmp_eq_compare, compare_eq_iff_eq]

/-- **Decimal arithmetic is that of the numbers,** whatever the exponents. Sums, differences,
opposites and magnitudes are exact; so are products, which are refused just when the exponents
add up to more than 32 bits; comparison and equality are those of the numbers; and rescaling
keeps the number unless digits have to go, which are cut off toward zero. -/
theorem toRat_operations (a b : Decimal) (e : Int32) :
    (a.add b).toRat = a.toRat + b.toRat ∧
    (a.sub b).toRat = a.toRat - b.toRat ∧
    a.neg.toRat = -a.toRat ∧
    a.abs.toRat = |a.toRat| ∧
    ((a.mul b).map toRat =
      if -2 ^ 31 ≤ a.exp.toInt + b.exp.toInt ∧ a.exp.toInt + b.exp.toInt < 2 ^ 31 then
        .ok (a.toRat * b.toRat)
      else .error (.exponentOverflow (a.exp.toInt + b.exp.toInt))) ∧
    a.cmp b = compare a.toRat b.toRat ∧
    ((a == b) = true ↔ a.toRat = b.toRat) ∧
    (a.rescale e).exp = e ∧
    (a.rescale e).toRat =
      if e ≤ a.exp then a.toRat
      else towardZero (a.toRat / 10 ^ e.toInt) * 10 ^ e.toInt := by
  refine ⟨toRat_add a b, toRat_sub a b, toRat_neg a, toRat_abs a, mul_map_toRat a b,
    cmp_eq_compare a b, beq_iff_toRat_eq a b, rescale_exp a e, ?_⟩
  split
  · next h => exact toRat_rescale_of_le h
  -- a greater exponent drops digits
  · next h =>
    rw [← coeff_rescale_of_lt (Int32.not_le.mp h)]
    simp [toRat]

end ScriptEngine.Decimal
