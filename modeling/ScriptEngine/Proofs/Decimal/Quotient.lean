import ScriptEngine.Decimal.Division
import ScriptEngine.Proofs.Decimal.Value

/-!
# Quotients rounded to nearest

`Decimal.quoRem` divides integers: the coefficients, one of them scaled so that the quotient comes
out in units of `10 ^ -precision`. The remainder is left at another scale, which depends on
whose coefficient was scaled; the comparison of its double with the divisor undoes that, so that
it is the comparison of the integer remainder with the integer divisor (`divRound_eq`). What is
left is a fact about integers: `nearestQuotient` is the quotient rounded to nearest, with a half
going away from zero.
-/

namespace ScriptEngine.Decimal

/-- Among the multiples of `unit`, `y` is nearest to `x`, and of two that are equally near the
one farther from zero. -/
structure IsNearest (unit x y : ℚ) : Prop where
  multiple : ∃ k : ℤ, y = k * unit
  nearest (m : ℤ) : |x - y| ≤ |x - m * unit|
  tie (m : ℤ) : |x - y| = |x - m * unit| → |m * unit| ≤ |y|

/-- The mirror image of a nearest multiple is nearest to the mirror image. -/
theorem IsNearest.neg {unit x y : ℚ} (h : IsNearest unit x y) : IsNearest unit (-x) (-y) := by
  have flip : ∀ z : ℚ, |-x - -z| = |x - z| := fun z => by rw [← abs_neg]; congr 1; ring
  have flip' : ∀ m : ℤ, |-x - m * unit| = |x - (-m : ℤ) * unit| := fun m => by
    rw [← flip]
    push_cast
    congr 1
    ring
  obtain ⟨k, hk⟩ := h.multiple
  refine ⟨⟨-k, by rw [hk]; push_cast; ring⟩, fun m => ?_, fun m hm => ?_⟩
  · rw [flip, flip']
    exact h.nearest (-m)
  · rw [flip, flip'] at hm
    rw [abs_neg y]
    simpa using h.tie (-m) hm

/-- There is only one such multiple. -/
theorem IsNearest.unique {unit x y z : ℚ} (hy : IsNearest unit x y) (hz : IsNearest unit x z) :
    y = z := by
  obtain ⟨k, rfl⟩ := hy.multiple
  obtain ⟨m, rfl⟩ := hz.multiple
  have hdist := (hy.nearest m).antisymm (hz.nearest k)
  obtain h | h := abs_eq_abs.mp ((hz.tie k hdist.symm).antisymm (hy.tie m hdist))
  · exact h
  · -- opposite multiples are equally near to zero only, and zero is nearest to itself
    rw [h, sub_neg_eq_add] at hdist
    obtain h' | h' := abs_eq_abs.mp hdist
    · linarith
    · have hx : x = 0 := by linarith
      have := hz.nearest 0
      simp only [hx, zero_sub, abs_neg, Int.cast_zero, zero_mul, abs_zero, abs_nonpos_iff] at this
      rw [h, this, neg_zero]

/-- What is nearest is at most half a unit away. -/
theorem IsNearest.abs_sub_le {unit x y : ℚ} (h : IsNearest unit x y) (hu : 0 < unit) :
    |x - y| ≤ unit / 2 := by
  obtain ⟨m, hm⟩ : ∃ m : ℤ, |x / unit - m| ≤ 1 / 2 := ⟨_, abs_sub_round (x / unit)⟩
  calc |x - y| ≤ |x - m * unit| := h.nearest m
    _ = |x / unit - m| * unit := by
        rw [← abs_of_pos hu, ← abs_mul, sub_mul, abs_of_pos hu, div_mul_cancel₀ _ hu.ne']
    _ ≤ 1 / 2 * unit := mul_le_mul_of_nonneg_right hm hu.le
    _ = unit / 2 := by ring

/-! ### Integers -/

/-- The quotient of integers rounded to nearest, a half going away from zero. -/
def nearestQuotient (n d : ℤ) : ℤ :=
  if 2 * (n.tmod d).natAbs < d.natAbs then n.tdiv d
  else if n.sign * d.sign < 0 then n.tdiv d - 1
  else n.tdiv d + 1

/-- Unless the remainder is too small to matter, the operands have signs. -/
theorem sign_mul_sign_ne_zero {n d : ℤ} (hd : d ≠ 0)
    (h : ¬ 2 * (n.tmod d).natAbs < d.natAbs) : n.sign * d.sign ≠ 0 := by
  have hn : n ≠ 0 := by
    rintro rfl
    simp at h
    exact hd h
  exact mul_ne_zero (mt Int.sign_eq_zero_iff_zero.mp hn) (mt Int.sign_eq_zero_iff_zero.mp hd)

/-- The quotient changes its sign with the dividend, since a half goes away from zero on both sides. -/
theorem nearestQuotient_neg_left (n : ℤ) {d : ℤ} (hd : d ≠ 0) :
    nearestQuotient (-n) d = -nearestQuotient n d := by
  simp only [nearestQuotient, Int.neg_tmod, Int.natAbs_neg, Int.neg_tdiv, Int.sign_neg, neg_mul]
  split
  · rfl
  · next h =>
    have := sign_mul_sign_ne_zero hd h
    split <;> split <;> omega

/-- It changes its sign with the divisor, too. -/
theorem nearestQuotient_neg_right (n : ℤ) {d : ℤ} (hd : d ≠ 0) :
    nearestQuotient n (-d) = -nearestQuotient n d := by
  simp only [nearestQuotient, Int.tmod_neg, Int.natAbs_neg, Int.tdiv_neg, Int.sign_neg, mul_neg]
  split
  · rfl
  · next h =>
    have := sign_mul_sign_ne_zero hd h
    split <;> split <;> omega

/-- What is left by the nearest quotient is less than half the divisor, or just that. -/
theorem nearestQuotient_bounds {n d : ℤ} (hn : 0 ≤ n) (hd : 0 < d) :
    0 ≤ nearestQuotient n d ∧ -d ≤ 2 * (n - nearestQuotient n d * d) ∧
      2 * (n - nearestQuotient n d * d) < d := by
  have hdiv := Int.mul_ediv_add_emod n d
  have hlt := Int.emod_lt_of_pos n hd
  have hnonneg := Int.emod_nonneg n hd.ne'
  have hq := Int.ediv_nonneg hn hd.le
  have hsign : ¬ n.sign * d.sign < 0 := by
    rw [Int.sign_eq_one_of_pos hd, mul_one, not_lt]
    exact Int.sign_nonneg_iff.mpr hn
  have hrem : (n.tmod d).natAbs = n % d := by
    rw [Int.tmod_eq_emod_of_nonneg hn, Int.natAbs_of_nonneg hnonneg]
  simp only [nearestQuotient, hsign, if_false, Int.tdiv_eq_ediv_of_nonneg hn]
  split
  -- less than half is left, so the quotient toward zero stays
  · next h =>
    have : n - n / d * d = n % d := by linarith [mul_comm d (n / d)]
    rw [this]
    omega
  -- the next multiple is no farther away, and leaves something negative
  · next h =>
    have : n - (n / d + 1) * d = n % d - d := by
      linarith [mul_comm d (n / d), add_one_mul (n / d) d]
    rw [this]
    omega

/-- A multiple that leaves no more than half the divisor is nearest. -/
theorem nearest_of_bounds {n d k : ℤ} (hn : 0 ≤ n) (hd : 0 < d) (hk : 0 ≤ k)
    (hlo : -d ≤ 2 * (n - k * d)) (hhi : 2 * (n - k * d) < d) (m : ℤ) :
    |n - k * d| ≤ |n - m * d| ∧ (|n - k * d| = |n - m * d| → |m| ≤ |k|) := by
  -- `t` is what `k` leaves; every other multiple leaves `t` and a multiple of the divisor
  obtain ⟨t, ht⟩ : ∃ t, t = n - k * d := ⟨_, rfl⟩
  have hm : n - m * d = t - (m - k) * d := by rw [ht]; ring
  rw [← ht] at hlo hhi ⊢
  rw [hm]
  obtain h | rfl | h := lt_trichotomy m k
  · -- farther toward zero: equally near only if the rest is half the divisor, and `k` positive
    have hj : (m - k) * d ≤ -d := by nlinarith
    have hpos : t < 0 → 0 < k := by
      intro hneg
      by_contra hk'
      obtain rfl : k = 0 := by omega
      omega
    rw [abs_of_pos (by omega : 0 < t - (m - k) * d)]
    refine ⟨abs_le.mpr ⟨by omega, by omega⟩, fun h => ?_⟩
    have hneg : t < 0 := by
      by_contra hpos
      rw [abs_of_nonneg (by omega)] at h
      omega
    rw [abs_of_neg hneg] at h
    have hnext : (m - k) * d = -1 * d := by omega
    have : m - k = -1 := mul_right_cancel₀ hd.ne' hnext
    have := hpos hneg
    rw [abs_of_nonneg (by omega), abs_of_nonneg hk]
    omega
  · simp
  · -- farther from zero: never equally near
    have hj : d ≤ (m - k) * d := by nlinarith
    have hlt : |t| < |t - (m - k) * d| := by
      rw [abs_of_neg (by omega : t - (m - k) * d < 0)]
      exact abs_lt.mpr ⟨by omega, by omega⟩
    exact ⟨hlt.le, fun h => absurd h hlt.ne⟩

/-- Where neither is negative, the bounds on what is left decide. -/
theorem isNearest_of_nonneg {n d : ℤ} (hn : 0 ≤ n) (hd : 0 < d) {unit : ℚ} (hu : 0 < unit) :
    IsNearest unit (n / d * unit) (nearestQuotient n d * unit) := by
  obtain ⟨hk, hlo, hhi⟩ := nearestQuotient_bounds hn hd
  have hd' : (0 : ℚ) < d := by exact_mod_cast hd
  -- distances are those of integers, in parts of the unit
  have dist : ∀ m : ℤ, |(n : ℚ) / d * unit - m * unit| = (|n - m * d| : ℤ) * (unit / d) := by
    intro m
    rw [Int.cast_abs, ← abs_of_pos (div_pos hu hd'), ← abs_mul]
    congr 1
    push_cast
    field_simp
  have hpos := div_pos hu hd'
  refine ⟨⟨_, rfl⟩, fun m => ?_, fun m hm => ?_⟩
  · rw [dist, dist]
    have := (nearest_of_bounds hn hd hk hlo hhi m).1
    exact mul_le_mul_of_nonneg_right (by exact_mod_cast this) hpos.le
  · rw [dist, dist] at hm
    have heq : |n - nearestQuotient n d * d| = |n - m * d| := by
      exact_mod_cast mul_right_cancel₀ hpos.ne' hm
    have := (nearest_of_bounds hn hd hk hlo hhi m).2 heq
    rw [abs_mul, abs_mul]
    exact mul_le_mul_of_nonneg_right (by exact_mod_cast this) (abs_nonneg unit)

/-- The nearest quotient counts the multiple of any unit that is nearest to the exact quotient
of as many units. -/
theorem isNearest_nearestQuotient (n : ℤ) {d : ℤ} (hd : d ≠ 0) {unit : ℚ} (hu : 0 < unit) :
    IsNearest unit (n / d * unit) (nearestQuotient n d * unit) := by
  have ofPos : ∀ {d : ℤ}, 0 < d →
      IsNearest unit (n / d * unit) (nearestQuotient n d * unit) := by
    intro d hd
    obtain hn | hn := le_or_gt 0 n
    · exact isNearest_of_nonneg hn hd hu
    · have := (isNearest_of_nonneg (neg_nonneg.mpr hn.le) hd hu).neg
      rw [nearestQuotient_neg_left n hd.ne'] at this
      simpa [neg_div] using this
  -- a divisor below zero is turned to the other side
  obtain hd' | hd' := lt_or_gt_of_ne hd
  · have := (ofPos (neg_pos.mpr hd')).neg
    rw [nearestQuotient_neg_right n hd] at this
    simpa [div_neg] using this
  · exact ofPos hd'

/-! ### Exponents -/

/-- The integer fits into 32 bits. -/
def Fits (n : ℤ) : Prop := -2 ^ 31 ≤ n ∧ n < 2 ^ 31

instance (n : ℤ) : Decidable (Fits n) := inferInstanceAs (Decidable (_ ∧ _))

/-- An exponent is checked against the range of 32 bits. -/
theorem fitsExp_iff (n : ℤ) : fitsExp n = true ↔ Fits n := by
  rw [fitsExp, decide_eq_true_eq, Fits]
  omega

/-- Within the range nothing is lost. -/
theorem toInt_ofInt_of_fits {n : ℤ} (h : Fits n) : (Int32.ofInt n).toInt = n :=
  Int32.toInt_ofInt_of_le h.1 h.2

/-- Only the least integer of 32 bits has no opposite. -/
theorem fits_neg_of_ne {p : Int32} (hp : p ≠ Int32.minValue) : Fits (-p.toInt) := by
  have hlo := p.le_toInt
  have hhi := p.toInt_lt
  have hne : p.toInt ≠ -2 ^ 31 := fun h => hp (Int32.toInt_inj.mp h)
  exact ⟨by omega, by omega⟩

/-- The opposite is exact where it fits. -/
theorem toInt_neg_of_fits {p : Int32} (h : Fits (-p.toInt)) : (-p).toInt = -p.toInt := by
  rw [Int32.toInt_neg]
  exact Int.bmod_eq_of_le (by have := h.1; omega) (by have := h.2; omega)

/-- The sum is exact where it fits, and otherwise saturates. -/
theorem addExp_eq {e f : Int32} (h : Fits (e.toInt + f.toInt)) :
    addExp e f = Int32.ofInt (e.toInt + f.toInt) := by
  have := h.1
  have := h.2
  simp only [addExp]
  rw [if_neg (by omega), if_neg (by omega)]

/-- The number of units of a precision in one. -/
def unit (precision : Int32) : ℕ := 10 ^ precision.toInt.toNat

/-- There is at least one unit in one. -/
theorem zero_lt_unit (precision : Int32) : 0 < unit precision := Nat.pow_pos (by decide)

/-- One unit, as a power of ten. -/
theorem cast_unit {precision : Int32} (hp : 0 ≤ precision) :
    (10 : ℚ) ^ (-precision.toInt) = (unit precision : ℚ)⁻¹ := by
  have hp' : 0 ≤ precision.toInt := Int32.le_iff_toInt_le.mp hp
  obtain ⟨k, hk⟩ : ∃ k : ℕ, precision.toInt = k := ⟨precision.toInt.toNat, by omega⟩
  simp [unit, hk]

/-! ### Division -/

/-- What a division of decimals comes to: one of integers, in units of `10 ^ -precision`, whose
remainder is counted in units of `10 ^ rest`. Neither exponent need fit into 32 bits. -/
structure Division (a b : Decimal) (precision : Int32) (num den rest : ℤ) : Prop where
  quoRem_eq : a.quoRem b precision =
    .ok (⟨num.tdiv den, -precision⟩, ⟨num.tmod den, Int32.ofInt rest⟩)
  quotient : a.toRat / b.toRat = num / den * 10 ^ (-precision.toInt)
  divisor : b.toRat = den * 10 ^ (rest + precision.toInt)
  sign_num : num.sign = a.sign
  sign_den : den.sign = b.sign
  rest_eq : rest = min a.exp.toInt (b.exp.toInt - precision.toInt)

/-- The same with an exponent for the remainder, and one for its double. -/
structure Scaled (a b : Decimal) (precision : Int32) (num den rest : ℤ) : Prop
    extends Division a b precision num den rest where
  fits : Fits rest
  fits_doubled : Fits (rest + precision.toInt)

/-- Exponents fit by their type. -/
theorem fits_toInt (e : Int32) : Fits e.toInt := ⟨e.le_toInt, e.toInt_lt⟩

section

variable {a b : Decimal} {precision : Int32}

/-- The gap between the exponents is too wide for a division. -/
theorem quoRem_eq_error_iff (hb : b.coeff ≠ 0) {t : Trap} :
    a.quoRem b precision = .error t ↔
      maxShift < |a.exp.toInt - b.exp.toInt + precision.toInt| ∧ t = .scaleOverflow := by
  have hzero : b.isZero = false := by simpa [isZero] using hb
  have hrange : (maxShift < a.exp.toInt - b.exp.toInt - -precision.toInt ∨
      a.exp.toInt - b.exp.toInt - -precision.toInt < -maxShift) ↔
        maxShift < |a.exp.toInt - b.exp.toInt + precision.toInt| := by
    rw [lt_abs]
    omega
  unfold quoRem
  simp only [hzero, hrange, Bool.false_eq_true, if_false]
  split
  · next h => simp [h, eq_comm]
  · next h => simp [h]

/-- Within the gap, coefficients are divided, of which one is scaled. -/
theorem exists_division (hb : b.coeff ≠ 0)
    (hshift : |a.exp.toInt - b.exp.toInt + precision.toInt| ≤ maxShift) :
    ∃ num den rest, den ≠ 0 ∧ Division a b precision num den rest := by
  have hzero : b.isZero = false := by simpa [isZero] using hb
  have hneg : Int32.ofInt (-precision.toInt) = -precision := by
    rw [Int32.ofInt_neg, Int32.ofInt_toInt]
  obtain ⟨hlo, hhi⟩ := abs_le.mp hshift
  -- the gap is in range, so the division is not refused
  have hrange : ¬ (maxShift < a.exp.toInt - b.exp.toInt - -precision.toInt ∨
      a.exp.toInt - b.exp.toInt - -precision.toInt < -maxShift) := by omega
  have ten : (10 : ℚ) ≠ 0 := by norm_num
  obtain hs | hs := lt_or_ge (a.exp.toInt - b.exp.toInt - -precision.toInt) 0
  · -- the divisor is scaled
    obtain ⟨k, hk⟩ : ∃ k : ℕ, b.exp.toInt = a.exp.toInt + precision.toInt + k :=
      ⟨(b.exp.toInt - a.exp.toInt - precision.toInt).toNat, by omega⟩
    have hnat : (-(a.exp.toInt - b.exp.toInt - -precision.toInt)).toNat = k := by omega
    have hpos := tenPow_pos k
    refine ⟨a.coeff, b.coeff * tenPow k, a.exp.toInt, mul_ne_zero hb hpos.ne', ?_, ?_, ?_, rfl,
      ?_, by omega⟩
    · simp only [quoRem, hzero, hrange, hs, if_true, hnat, hneg, Bool.false_eq_true, if_false]
    · rw [toRat, toRat, hk, zpow_add₀ ten, zpow_add₀ ten, zpow_natCast, zpow_neg]
      push_cast [cast_tenPow]
      field_simp
    · rw [toRat, hk, zpow_add₀ ten _ (k : ℤ), zpow_natCast]
      push_cast [cast_tenPow]
      ring
    · rw [Int.sign_mul, Int.sign_eq_one_of_pos hpos, mul_one]
      rfl
  · -- the dividend is scaled
    obtain ⟨k, hk⟩ : ∃ k : ℕ, a.exp.toInt + precision.toInt = b.exp.toInt + k :=
      ⟨(a.exp.toInt + precision.toInt - b.exp.toInt).toNat, by omega⟩
    have hnat : (a.exp.toInt - b.exp.toInt - -precision.toInt).toNat = k := by omega
    have hpos := tenPow_pos k
    refine ⟨a.coeff * tenPow k, b.coeff, -precision.toInt + b.exp.toInt, hb, ?_, ?_, ?_, ?_,
      rfl, by omega⟩
    · simp only [quoRem, hzero, hrange, not_lt.mpr hs, hnat, hneg, Bool.false_eq_true, if_false]
    · have hexp : a.exp.toInt = b.exp.toInt + k - precision.toInt := by omega
      rw [toRat, toRat, hexp, zpow_sub₀ ten, zpow_add₀ ten, zpow_natCast, zpow_neg]
      push_cast [cast_tenPow]
      field_simp
    · rw [toRat]
      congr 2
      ring
    · rw [Int.sign_mul, Int.sign_eq_one_of_pos hpos, mul_one]
      rfl

/-- The exponent of the remainder matters only where it is taken from the operand that is not
scaled. -/
theorem exists_scaled_of_gap (hb : b.coeff ≠ 0)
    (ha : a.exp.toInt + precision.toInt < b.exp.toInt → Fits (a.exp.toInt + precision.toInt))
    (hbp : b.exp.toInt ≤ a.exp.toInt + precision.toInt → Fits (b.exp.toInt - precision.toInt))
    (hshift : |a.exp.toInt - b.exp.toInt + precision.toInt| ≤ maxShift) :
    ∃ num den rest, den ≠ 0 ∧ Scaled a b precision num den rest := by
  obtain ⟨num, den, rest, hden, h⟩ := exists_division hb hshift
  refine ⟨num, den, rest, hden, h, ?_, ?_⟩
  -- the remainder takes the lesser of the two exponents
  · rw [h.rest_eq]
    obtain hgap | hgap := lt_or_ge (a.exp.toInt + precision.toInt) b.exp.toInt
    · rw [min_eq_left (by omega)]
      exact fits_toInt a.exp
    · rw [min_eq_right (by omega)]
      exact hbp hgap
  -- its double takes the other one
  · rw [h.rest_eq]
    obtain hgap | hgap := lt_or_ge (a.exp.toInt + precision.toInt) b.exp.toInt
    · rw [min_eq_left (by omega)]
      exact ha hgap
    · rw [min_eq_right (by omega), sub_add_cancel]
      exact fits_toInt b.exp

/-- The double of the remainder is compared with the divisor as the integers are. -/
theorem Scaled.cmp_doubled {num den rest : ℤ} (h : Scaled a b precision num den rest) :
    (⟨2 * ((num.tmod den).natAbs : ℤ), addExp (Int32.ofInt rest) precision⟩ : Decimal).cmp b.abs =
      compare (2 * ((num.tmod den).natAbs : ℤ)) den.natAbs := by
  -- the exponents add up without saturation
  have hexp : (addExp (Int32.ofInt rest) precision).toInt = rest + precision.toInt := by
    have hrest := toInt_ofInt_of_fits h.fits
    rw [addExp_eq (by rw [hrest]; exact h.fits_doubled), hrest]
    exact toInt_ofInt_of_fits h.fits_doubled
  have hunit : (0 : ℚ) < 10 ^ (rest + precision.toInt) := zpow_pos (by norm_num) _
  -- both sides are counted in one unit
  have hdiv : b.abs.toRat = (den.natAbs : ℤ) * 10 ^ (rest + precision.toInt) := by
    rw [toRat_abs, h.divisor, abs_mul, abs_of_pos hunit, Int.natCast_natAbs, Int.cast_abs]
  rw [cmp_eq_compare, hdiv, toRat_mk, hexp, compare_mul_unit _ _ hunit]

/-- Decimals of one exponent are added by their coefficients. -/
theorem add_same (n m : ℤ) (e : Int32) : (⟨n, e⟩ : Decimal).add ⟨m, e⟩ = ⟨n + m, e⟩ := by
  simp [add, aligned, commonExp, rescale]

/-- They are subtracted alike. -/
theorem sub_same (n m : ℤ) (e : Int32) : (⟨n, e⟩ : Decimal).sub ⟨m, e⟩ = ⟨n - m, e⟩ := by
  simp [sub, aligned, commonExp, rescale]

/-- The rounded quotient is the nearest quotient of the integers. -/
theorem Scaled.divRound_eq {num den rest : ℤ} (h : Scaled a b precision num den rest) :
    a.divRound b precision = .ok ⟨nearestQuotient num den, -precision⟩ := by
  have hsmall : ((⟨2 * ((num.tmod den).natAbs : ℤ), addExp (Int32.ofInt rest) precision⟩ :
      Decimal).cmp b.abs == .lt) = true ↔ 2 * (num.tmod den).natAbs < den.natAbs := by
    rw [h.cmp_doubled, beq_iff_eq, compare_lt_iff_lt]
    omega
  have hsign : a.sign * b.sign < 0 ↔ num.sign * den.sign < 0 := by rw [h.sign_num, h.sign_den]
  unfold divRound
  -- whether the double is less than the divisor, and the sign, are read off the integers
  simp only [h.quoRem_eq, bind, Except.bind, pure, Except.pure, hsmall, hsign, nearestQuotient]
  split
  · rfl
  · split
    · rw [sub_same]
    · rw [add_same]

/-- **Division rounds to nearest.** With a divisor that is not zero, and unless an exponent or
the gap between them leaves its range, the rounded quotient exists, has exactly the wanted number
of fractional digits, and is the multiple of its unit nearest to the exact quotient, a half
going away from zero. -/
theorem divRound_isNearest (hb : b.toRat ≠ 0) (hp : Fits (-precision.toInt))
    (ha : Fits (a.exp.toInt + precision.toInt)) (hbp : Fits (b.exp.toInt - precision.toInt))
    (hshift : |a.exp.toInt - b.exp.toInt + precision.toInt| ≤ 4294967295) :
    ∃ q, a.divRound b precision = .ok q ∧ q.exp.toInt = -precision.toInt ∧
      IsNearest (10 ^ (-precision.toInt)) (a.toRat / b.toRat) q.toRat := by
  have hcoeff : b.coeff ≠ 0 := by
    rintro h
    exact hb (by simp [toRat, h])
  -- a division of integers in units of the result, whose nearest quotient is the coefficient
  obtain ⟨num, den, rest, hden, h⟩ := exists_scaled_of_gap hcoeff (fun _ => ha) (fun _ => hbp) hshift
  refine ⟨_, h.divRound_eq, toInt_neg_of_fits hp, ?_⟩
  rw [h.quotient, toRat_mk, toInt_neg_of_fits hp]
  exact isNearest_nearestQuotient num hden (zpow_pos (by norm_num) _)

/-- Two thirds, to two fractional digits. -/
theorem divRound_isNearest_twoThirds :
    (ofInt 3).toRat ≠ 0 ∧
    ∃ q, (ofInt 2).divRound (ofInt 3) 2 = .ok q ∧ q.exp.toInt = -2 ∧
      IsNearest (10 ^ (-2 : ℤ)) ((ofInt 2).toRat / (ofInt 3).toRat) q.toRat := by
  have three : (ofInt 3).toRat ≠ 0 := by simp [toRat, ofInt]
  exact ⟨three, divRound_isNearest three ⟨by decide, by decide⟩ ⟨by decide, by decide⟩
    ⟨by decide, by decide⟩ (by decide)⟩

/-- A tie below zero goes down. -/
example : (ofInt (-1)).divRound (ofInt 8) 2 = .ok ⟨-13, -2⟩ := by decide

end

end ScriptEngine.Decimal
