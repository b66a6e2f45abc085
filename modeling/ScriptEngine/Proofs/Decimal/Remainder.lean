import ScriptEngine.Proofs.Decimal.Quotient

/-!
# Remainders

`Decimal.quoRem` gives a quotient and a remainder at exponents that are held within 32 bits. Both
are right as long as they fit (`Division.isQuotient_iff`): the exponent of the quotient is too great
only at the least precision, and that of the remainder, which is the smaller one of two, only too
small. A division that goes wrong there is not refused, since what is checked before is the gap
between the exponents of the operands (`quoRem_right_iff`).

`Decimal.modulo` cuts off a quotient that has been rounded before. That is the integer part of the
exact quotient unless rounding goes up to the next integer, which it does from the last half unit
before it (`modulo_isRemainder_iff`).
-/

namespace ScriptEngine.Decimal

section

variable {a b : Decimal} {precision : Int32} {num den rest : ℤ}

/-! ### Quotient and remainder -/

/-- The quotient counts units of the precision, and the remainder is what it leaves of `a`: less
than a unit of the divisor, and of the sign of `a` if it is not zero. -/
structure IsQuotient (a b : Decimal) (precision : Int32) (q r : Decimal) : Prop where
  exp : q.exp.toInt = -precision.toInt
  sum : a.toRat = b.toRat * q.toRat + r.toRat
  small : |r.toRat| < |b.toRat| * 10 ^ (-precision.toInt)
  sign : r.toRat = 0 ∨ r.sign = a.sign

/-- The dividend in terms of the two integers that are divided. -/
theorem Division.dividend (h : Division a b precision num den rest) (hden : den ≠ 0) :
    a.toRat = num * 10 ^ rest := by
  have hden' : (den : ℚ) ≠ 0 := by exact_mod_cast hden
  -- the divisor is not zero, so the quotient can be multiplied back
  have hb : b.toRat ≠ 0 := by
    rw [h.divisor]
    exact mul_ne_zero hden' (zpow_ne_zero _ (by norm_num))
  rw [(div_eq_iff hb).mp h.quotient, h.divisor, zpow_add₀ (by norm_num), zpow_neg]
  field_simp

/-- A division toward zero and what it leaves. -/
theorem num_eq_tdiv_add_tmod (num den : ℤ) :
    (num : ℚ) = den * num.tdiv den + num.tmod den := by
  exact_mod_cast (Int.mul_tdiv_add_tmod num den).symm

/-- What a division toward zero leaves is smaller than the divisor. -/
theorem abs_tmod_lt (hden : den ≠ 0) : |(num.tmod den : ℚ)| < |(den : ℚ)| := by
  have hlt : (num.tmod den).natAbs < den.natAbs := by
    rw [Int.natAbs_tmod]
    exact Nat.mod_lt _ (Int.natAbs_pos.mpr hden)
  rw [← Int.cast_abs, ← Int.cast_abs, Int.cast_lt, Int.abs_eq_natAbs, Int.abs_eq_natAbs]
  exact_mod_cast hlt

/-- Numbers that are right have exponents that fit. Only of zero the exponent may be any. -/
theorem Division.fits_of_isQuotient (h : Division a b precision num den rest) (hden : den ≠ 0)
    (hright : IsQuotient a b precision ⟨num.tdiv den, -precision⟩
      ⟨num.tmod den, Int32.ofInt rest⟩) :
    Fits (-precision.toInt) ∧ (Fits rest ∨ num.tmod den = 0) := by
  have ten : (10 : ℚ) ≠ 0 := by norm_num
  have hexp := hright.exp
  have hsum := hright.sum
  dsimp only at hexp
  have hp : Fits (-precision.toInt) := hexp ▸ fits_toInt (-precision)
  refine ⟨hp, or_iff_not_imp_right.mpr fun hne => ?_⟩
  -- a remainder that is not zero has just one exponent
  have hunits : (num.tmod den : ℚ) * 10 ^ rest =
      num.tmod den * 10 ^ (Int32.ofInt rest).toInt := by
    rw [h.dividend hden, h.divisor, toRat_mk, toRat_mk, hexp, num_eq_tdiv_add_tmod num den,
      zpow_add₀ ten, zpow_neg] at hsum
    field_simp at hsum
    linarith
  have hpow := mul_left_cancel₀ (by exact_mod_cast hne) hunits
  have hrest : rest = (Int32.ofInt rest).toInt :=
    zpow_right_injective₀ (by norm_num) (by norm_num) hpow
  exact hrest ▸ fits_toInt _

/-- Where the exponents fit, the numbers are right. -/
theorem Division.isQuotient (h : Division a b precision num den rest) (hden : den ≠ 0)
    (hp : Fits (-precision.toInt)) (hrest : Fits rest ∨ num.tmod den = 0) :
    IsQuotient a b precision ⟨num.tdiv den, -precision⟩ ⟨num.tmod den, Int32.ofInt rest⟩ := by
  have ten : (10 : ℚ) ≠ 0 := by norm_num
  have hunit : (0 : ℚ) < 10 ^ rest := zpow_pos (by norm_num) _
  have hdivisor : (0 : ℚ) < 10 ^ (rest + precision.toInt) := zpow_pos (by norm_num) _
  have hremainder : (⟨num.tmod den, Int32.ofInt rest⟩ : Decimal).toRat =
      num.tmod den * 10 ^ rest := by
    -- a remainder of zero is the same number at every exponent
    obtain hfits | hzero := hrest
    · rw [toRat_mk, toInt_ofInt_of_fits hfits]
    · rw [toRat_mk, hzero]
      simp
  refine ⟨toInt_neg_of_fits hp, ?sum, ?small, ?sign⟩
  case sum =>
    rw [h.dividend hden, h.divisor, hremainder, toRat_mk, toInt_neg_of_fits hp,
      num_eq_tdiv_add_tmod num den, zpow_add₀ ten, zpow_neg]
    field_simp
  case small =>
    rw [hremainder, h.divisor, abs_mul, abs_mul, mul_assoc, abs_of_pos hunit, abs_of_pos hdivisor,
      ← zpow_add₀ ten, add_neg_cancel_right]
    exact mul_lt_mul_of_pos_right (abs_tmod_lt hden) hunit
  case sign =>
    rw [hremainder]
    -- what a division toward zero leaves has the sign of the dividend, or is zero
    by_cases hdvd : den ∣ num
    · left
      rw [Int.dvd_iff_tmod_eq_zero.mp hdvd]
      simp
    · right
      rw [← h.sign_num, sign, Int.sign_tmod, if_neg hdvd]

/-- The numbers are right if both exponents fit; that of zero does not matter. -/
theorem Division.isQuotient_iff (h : Division a b precision num den rest) (hden : den ≠ 0) :
    IsQuotient a b precision ⟨num.tdiv den, -precision⟩ ⟨num.tmod den, Int32.ofInt rest⟩ ↔
      Fits (-precision.toInt) ∧ (Fits rest ∨ num.tmod den = 0) :=
  ⟨h.fits_of_isQuotient hden, fun ⟨hp, hrest⟩ => h.isQuotient hden hp hrest⟩

/-- The remainder is zero if the dividend is a number of units of the divisor. -/
theorem Division.tmod_eq_zero_iff (h : Division a b precision num den rest) (hden : den ≠ 0) :
    num.tmod den = 0 ↔ ∃ k : ℤ, a.toRat = k * (b.toRat * 10 ^ (-precision.toInt)) := by
  have hunit : (10 : ℚ) ^ rest ≠ 0 := zpow_ne_zero _ (by norm_num)
  -- the units of the two sides cancel, so it is a matter of the integers
  have hmultiple : ∀ k : ℤ, a.toRat = k * (b.toRat * 10 ^ (-precision.toInt)) ↔ num = den * k := by
    intro k
    rw [h.dividend hden, h.divisor, mul_assoc, ← zpow_add₀ (by norm_num), add_neg_cancel_right,
      ← mul_assoc, mul_left_inj' hunit, mul_comm]
    exact_mod_cast Iff.rfl
  simp only [hmultiple]
  exact Int.dvd_iff_tmod_eq_zero.symm

/-- A number that is not zero has a coefficient that is not. -/
theorem coeff_ne_zero_of_toRat (hb : b.toRat ≠ 0) : b.coeff ≠ 0 := by
  intro h
  exact hb (by simp [toRat, h])

/-- **A division with remainder is right unless an exponent is out of range.** Let the divisor not
be zero. Then the division is refused, or its quotient has the wanted number of fractional digits
and the remainder is what it leaves of the dividend, in all of these cases and in no other: the gap
between the exponents is too wide, which is refused; or the quotient's exponent `-precision` fits
into 32 bits, and so does the remainder's, unless there is no remainder. -/
theorem quoRem_right_iff (hb : b.toRat ≠ 0) :
    ((∃ t, a.quoRem b precision = .error t) ∨
        ∃ q r, a.quoRem b precision = .ok (q, r) ∧ IsQuotient a b precision q r) ↔
      4294967295 < |a.exp.toInt - b.exp.toInt + precision.toInt| ∨
        -precision.toInt < 2 ^ 31 ∧
          (-2 ^ 31 ≤ b.exp.toInt - precision.toInt ∨
            ∃ k : ℤ, a.toRat = k * (b.toRat * 10 ^ (-precision.toInt))) := by
  have hcoeff := coeff_ne_zero_of_toRat hb
  obtain hwide | hgap := lt_or_ge maxShift |a.exp.toInt - b.exp.toInt + precision.toInt|
  · exact iff_of_true (.inl ⟨_, (quoRem_eq_error_iff hcoeff).mpr ⟨hwide, rfl⟩⟩) (.inl hwide)
  obtain ⟨num, den, rest, hden, h⟩ := exists_division hcoeff hgap
  have ha := fits_toInt a.exp
  have hp := precision.toInt_lt
  -- of the two exponents that the remainder can have, that of the dividend always fits
  have hfits : Fits rest ↔ -2 ^ 31 ≤ b.exp.toInt - precision.toInt := by
    rw [h.rest_eq, Fits]
    obtain ⟨hlo, hhi⟩ := ha
    omega
  have hneg : Fits (-precision.toInt) ↔ -precision.toInt < 2 ^ 31 := by
    rw [Fits]
    omega
  have hnarrow : ¬ 4294967295 < |a.exp.toInt - b.exp.toInt + precision.toInt| := not_lt.mpr hgap
  rw [or_iff_right hnarrow, ← h.tmod_eq_zero_iff hden, ← hfits, ← hneg,
    ← h.isQuotient_iff hden, h.quoRem_eq]
  constructor
  · rintro (⟨_, hq⟩ | ⟨q, r, hq, hright⟩)
    · cases hq
    · cases hq
      exact hright
  · exact fun hright => .inr ⟨_, _, rfl, hright⟩

/-- Two thirds to two digits leave two units of the fourth place. -/
theorem quoRem_right_iff_twoThirds :
    (ofInt 3).toRat ≠ 0 ∧
    (((∃ t, (ofInt 2).quoRem (ofInt 3) 2 = .error t) ∨
        ∃ q r, (ofInt 2).quoRem (ofInt 3) 2 = .ok (q, r) ∧
          IsQuotient (ofInt 2) (ofInt 3) 2 q r) ↔
      (4294967295 : ℤ) < |0 - 0 + 2| ∨
        -2 < (2 : ℤ) ^ 31 ∧
          (-2 ^ 31 ≤ 0 - (2 : ℤ) ∨
            ∃ k : ℤ, (ofInt 2).toRat = k * ((ofInt 3).toRat * 10 ^ (-2 : ℤ)))) := by
  have three : (ofInt 3).toRat ≠ 0 := by
    rw [toRat_ofInt]
    norm_num
  exact ⟨three, quoRem_right_iff three⟩

/-- At the least precision, the quotient would need an exponent of more than 32 bits, and gets the
least one. A third in the last place there is, to one more digit, leaves a remainder that would need
less than the least exponent, and gets the greatest. -/
theorem quoRem_wraps :
    ((ofInt 4).quoRem ⟨3, -2147483648⟩ (-2147483648) = .ok (⟨1, -2147483648⟩, ofInt 1) ∧
      ¬ IsQuotient (ofInt 4) ⟨3, -2147483648⟩ (-2147483648) ⟨1, -2147483648⟩ (ofInt 1)) ∧
    (⟨1, -2147483648⟩ : Decimal).quoRem ⟨3, -2147483648⟩ 1 = .ok (⟨3, -1⟩, ⟨1, 2147483647⟩) ∧
      ¬ IsQuotient ⟨1, -2147483648⟩ ⟨3, -2147483648⟩ 1 ⟨3, -1⟩ ⟨1, 2147483647⟩ := by
  have hthird : (⟨1, -2147483648⟩ : Decimal).quoRem ⟨3, -2147483648⟩ 1 =
      .ok (⟨3, -1⟩, ⟨1, 2147483647⟩) := by decide
  refine ⟨⟨by decide, fun hright => absurd hright.exp (by decide)⟩, hthird, fun hright => ?_⟩
  obtain ⟨num, den, rest, hden, h⟩ : ∃ num den rest, den ≠ 0 ∧
      Division ⟨1, -2147483648⟩ ⟨3, -2147483648⟩ 1 num den rest :=
    exists_division (by decide) (by decide)
  have hpair := h.quoRem_eq.symm.trans hthird
  injection hpair with hpair
  injection hpair with hq hr
  -- had the remainder been right, its exponent would fit, or it would be zero
  rw [← hq, ← hr, h.isQuotient_iff hden] at hright
  obtain ⟨-, ⟨hlo, -⟩ | hzero⟩ := hright
  · rw [h.rest_eq] at hlo
    exact absurd hlo (by decide)
  · injection hr with hone
    exact absurd (hzero.symm.trans hone) (by decide)

/-! ### The remainder of the quotient that is cut off -/

/-- What is left of `a` by the integer part of the quotient: less than the divisor, and of the sign
of `a` if it is not zero. -/
structure IsRemainder (a b r : Decimal) : Prop where
  eq : r.toRat = a.toRat - b.toRat * towardZero (a.toRat / b.toRat)
  lt : |r.toRat| < |b.toRat|
  sign : r.toRat = 0 ∨ r.sign = a.sign

/-- Numbers that do not lie on different sides of zero have one integer part if their magnitudes
do. -/
theorem towardZero_eq_iff {x y : ℚ} (h : 0 ≤ x * y) :
    towardZero x = towardZero y ↔ ⌊|x|⌋ = ⌊|y|⌋ := by
  obtain ⟨hx, hy⟩ | ⟨hx, hy⟩ := mul_nonneg_iff.mp h
  · rw [towardZero_of_nonneg hx, towardZero_of_nonneg hy]
  · rw [towardZero_of_nonpos hx, towardZero_of_nonpos hy, neg_inj]

/-- The rest follows from what the remainder is. -/
theorem isRemainder_iff (hb : b.toRat ≠ 0) {r : Decimal} :
    IsRemainder a b r ↔ r.toRat = a.toRat - b.toRat * towardZero (a.toRat / b.toRat) := by
  refine ⟨IsRemainder.eq, fun hr => ⟨hr, ?_, ?_⟩⟩
  all_goals
    obtain ⟨hlt, hside⟩ := sub_towardZero (a.toRat / b.toRat)
    have hpart : r.toRat = b.toRat * (a.toRat / b.toRat - towardZero (a.toRat / b.toRat)) := by
      rw [hr, mul_sub, mul_div_cancel₀ _ hb]
  · rw [hpart, abs_mul]
    exact mul_lt_of_lt_one_right (abs_pos.mpr hb) hlt
  · refine or_iff_not_imp_left.mpr fun hne => sign_eq_of_mul_pos ?_
    have hprod : r.toRat * a.toRat = b.toRat ^ 2 *
        ((a.toRat / b.toRat - towardZero (a.toRat / b.toRat)) * (a.toRat / b.toRat)) := by
      rw [hpart]
      field_simp
    have hnonneg : 0 ≤ r.toRat * a.toRat := hprod ▸ mul_nonneg (sq_nonneg _) hside
    refine hnonneg.lt_of_ne' (mul_ne_zero hne ?_)
    -- nothing is left of zero
    intro hzero
    rw [hr, hzero] at hne
    exact hne (by simp [towardZero])

/-- With a rounded quotient, the remainder is that of its integer part. -/
theorem exists_modulo {q : Decimal} (hq : a.divRound b precision = .ok q) (he : q.exp ≤ 0) :
    ∃ r, modulo precision a b = .ok r ∧
      r.toRat = a.toRat - b.toRat * towardZero q.toRat := by
  -- the quotient has no negative places, so cutting it off at the point gives its integer part
  have hcut : q.truncate 0 = ofInt (towardZero q.toRat) := by
    have hrescale : q.truncate 0 = q.rescale 0 := by
      unfold truncate
      split
      · rfl
      · next hnot =>
        have hexp : q.exp = 0 :=
          Int32.le_antisymm he (Int32.not_lt.mp fun hlt => hnot ⟨Int32.le_refl 0, hlt⟩)
        simp [rescale, ← hexp]
    rw [hrescale, ← coeff_rescale_zero]
    exact congrArg (Decimal.mk (q.rescale 0).coeff) (rescale_exp q 0)
  -- the product has the exponent of the divisor, which fits, so it is not refused
  have hproduct := mul_map_toRat b (ofInt (towardZero q.toRat))
  obtain ⟨hlo, hhi⟩ := fits_toInt b.exp
  have hexp : (ofInt (towardZero q.toRat)).exp.toInt = 0 := rfl
  rw [hexp, add_zero, if_pos ⟨hlo, hhi⟩, toRat_ofInt] at hproduct
  obtain ⟨product, hmul, hval⟩ : ∃ product, b.mul (ofInt (towardZero q.toRat)) = .ok product ∧
      product.toRat = b.toRat * towardZero q.toRat := by
    cases hmul : b.mul (ofInt (towardZero q.toRat)) with
    | error t =>
      rw [hmul] at hproduct
      cases hproduct
    | ok product =>
      rw [hmul] at hproduct
      exact ⟨product, rfl, Except.ok.inj hproduct⟩
  refine ⟨a.sub product, ?_, by rw [toRat_sub, hval]⟩
  simp only [modulo, hq, hcut, hmul, bind, Except.bind, pure, Except.pure]

/-! ### Rounding before cutting off -/

/-- From which part of a unit on a quotient is rounded up: the half, and next to nothing if the
remainder has no exponent, since its double is then taken at the greatest one. -/
def roundsUpFrom (b : Decimal) (precision : Int32) : ℚ :=
  if -2 ^ 31 ≤ b.exp.toInt - precision.toInt then 1 / 2
  else 10 ^ (b.exp.toInt - (2 ^ 31 - 1)) / 2

/-- The number of units in a quotient that is rounded up from a part of a unit on. -/
def unitsFrom (part : ℚ) (n d : ℕ) : ℕ := n / d + if (n % d : ℕ) < part * d then 0 else 1

theorem roundsUpFrom_pos (b : Decimal) (precision : Int32) : 0 < roundsUpFrom b precision := by
  unfold roundsUpFrom
  split <;> positivity

/-- At a precision of zero or more, the exponents of a remainder and the precision add up to that
of the divisor, unless the former has been wrapped. -/
theorem Division.toInt_addExp (h : Division a b precision num den rest) (hp : 0 ≤ precision) :
    (addExp (Int32.ofInt rest) precision).toInt =
      if -2 ^ 31 ≤ b.exp.toInt - precision.toInt then rest + precision.toInt else 2 ^ 31 - 1 := by
  have hp' : 0 ≤ precision.toInt := Int32.le_iff_toInt_le.mp hp
  have hmax := precision.toInt_lt
  obtain ⟨halo, hahi⟩ := fits_toInt a.exp
  obtain ⟨hblo, hbhi⟩ := fits_toInt b.exp
  have hrest := h.rest_eq
  split
  · next hlow =>
    -- each exponent on the way fits, so nothing has been wrapped
    have hfits : Fits rest := ⟨by omega, by omega⟩
    have hsum : Fits ((Int32.ofInt rest).toInt + precision.toInt) := by
      rw [toInt_ofInt_of_fits hfits]
      exact ⟨by omega, by omega⟩
    rw [addExp_eq hsum, toInt_ofInt_of_fits hsum, toInt_ofInt_of_fits hfits]
  · next hlow =>
    -- the exponent below the least one has come out as a great one
    have hwrapped : (Int32.ofInt rest).toInt = rest + 2 ^ 32 := by
      have hsize : (Int32.size : ℤ) = 2 ^ 32 := rfl
      rw [Int32.toInt_ofInt, Int.bmod_def, hsize]
      split <;> omega
    simp only [addExp, hwrapped]
    rw [if_neg (by omega), if_pos (by omega)]
    rfl

/-- The double of the remainder is less than the divisor if the remainder is less than the part of
the divisor. -/
theorem Division.doubled_lt_iff (h : Division a b precision num den rest) (hp : 0 ≤ precision) :
    (⟨2 * ((num.tmod den).natAbs : ℤ), addExp (Int32.ofInt rest) precision⟩ : Decimal).cmp b.abs =
        .lt ↔
      ((num.natAbs % den.natAbs : ℕ) : ℚ) < roundsUpFrom b precision * den.natAbs := by
  obtain ⟨e, he⟩ : ∃ e, (addExp (Int32.ofInt rest) precision).toInt = e := ⟨_, rfl⟩
  -- both sides count units of one exponent: that of the doubled remainder, which is the great one
  -- if it was wrapped
  have hpart : roundsUpFrom b precision = 10 ^ (rest + precision.toInt - e) / 2 := by
    rw [h.toInt_addExp hp] at he
    unfold roundsUpFrom
    split at he
    · next hlow => rw [if_pos hlow, he, sub_self, zpow_zero]
    · next hlow =>
      have hp' : 0 ≤ precision.toInt := Int32.le_iff_toInt_le.mp hp
      obtain ⟨halo, -⟩ := fits_toInt a.exp
      have hrest : rest + precision.toInt = b.exp.toInt := by
        rw [h.rest_eq]
        omega
      rw [if_neg hlow, hrest, he]
  have hdivisor : b.abs.toRat = (den.natAbs : ℤ) * 10 ^ (rest + precision.toInt) := by
    have hunit : (0 : ℚ) < 10 ^ (rest + precision.toInt) := zpow_pos (by norm_num) _
    rw [toRat_abs, h.divisor, abs_mul, abs_of_pos hunit, Int.natCast_natAbs, Int.cast_abs]
  have hunit : (0 : ℚ) < 10 ^ e := zpow_pos (by norm_num) _
  rw [cmp_eq_compare, compare_lt_iff_lt, hdivisor, toRat_mk, he, hpart, Int.natAbs_tmod,
    zpow_sub₀ (by norm_num), div_div, div_mul_eq_mul_div, lt_div_iff₀ (by positivity)]
  rw [Int.cast_mul, Int.cast_natCast, Int.cast_natCast, Int.cast_ofNat,
    mul_comm (den.natAbs : ℚ), mul_comm (2 : ℚ), mul_assoc, mul_comm (2 : ℚ)]

/-- A division toward zero divides the magnitudes and gives the result its sign. -/
theorem tdiv_eq_sign_mul (n d : ℤ) :
    n.tdiv d = n.sign * d.sign * (n.natAbs / d.natAbs : ℕ) := by
  have habs : (n.tdiv d).natAbs = n.natAbs / d.natAbs := Int.natAbs_tdiv n d
  rw [← Int.sign_mul_natAbs (n.tdiv d), Int.sign_tdiv, habs]
  split
  · next hlt => rw [Nat.div_eq_of_lt hlt, Nat.cast_zero, mul_zero, mul_zero]
  · rfl

/-- A quotient is positive, negative, or that of zero. -/
theorem sign_mul_sign_cases (n : ℤ) {d : ℤ} (hd : d ≠ 0) :
    n.sign * d.sign = 1 ∨ n.sign * d.sign = -1 ∨ n.sign * d.sign = 0 ∧ n = 0 := by
  obtain hn | rfl | hn := lt_trichotomy n 0
  -- the four cases of signs give two signs of the quotient
  · obtain hd | hd := lt_or_gt_of_ne hd
    · simp [Int.sign_eq_neg_one_of_neg hn, Int.sign_eq_neg_one_of_neg hd]
    · simp [Int.sign_eq_neg_one_of_neg hn, Int.sign_eq_one_of_pos hd]
  · simp
  · obtain hd | hd := lt_or_gt_of_ne hd
    · simp [Int.sign_eq_one_of_pos hn, Int.sign_eq_neg_one_of_neg hd]
    · simp [Int.sign_eq_one_of_pos hn, Int.sign_eq_one_of_pos hd]

/-- The quotient counts units of the precision, on the side of zero of the exact one. -/
theorem Division.exists_divRound (h : Division a b precision num den rest) (hp : 0 ≤ precision)
    (hden : den ≠ 0) :
    ∃ n : ℤ, a.divRound b precision = .ok ⟨n, -precision⟩ ∧
      n.natAbs = unitsFrom (roundsUpFrom b precision) num.natAbs den.natAbs ∧
      0 ≤ num.sign * den.sign * n := by
  have hpart := roundsUpFrom_pos b precision
  -- the parts of the two cases are named, so that they are not unfolded below
  obtain ⟨part, hpart'⟩ : ∃ part, roundsUpFrom b precision = part := ⟨_, rfl⟩
  obtain ⟨side, hside⟩ : ∃ side, num.sign * den.sign = side := ⟨_, rfl⟩
  obtain ⟨k, hk⟩ : ∃ k, num.natAbs / den.natAbs = k := ⟨_, rfl⟩
  have hcut := tdiv_eq_sign_mul num den
  rw [hside, hk] at hcut
  rw [hpart'] at hpart ⊢
  have hsides : side = 1 ∨ side = -1 ∨ side = 0 ∧ num = 0 := hside ▸ sign_mul_sign_cases num hden
  unfold divRound unitsFrom
  simp only [h.quoRem_eq, bind, Except.bind, pure, Except.pure, beq_iff_eq, h.doubled_lt_iff hp,
    ← h.sign_num, ← h.sign_den, hside, hpart', hcut, hk]
  split
  -- the quotient that has been cut off stays
  · next hsmall =>
    refine ⟨_, rfl, ?_, ?_⟩
    · obtain rfl | rfl | ⟨rfl, rfl⟩ := hsides
      · omega
      · omega
      · rw [← hk, Int.natAbs_zero, Nat.zero_div, Nat.cast_zero, mul_zero]
        rfl
    · rw [← mul_assoc]
      exact mul_nonneg (mul_self_nonneg side) (Int.natCast_nonneg _)
  · next hlarge =>
    -- it goes up by a unit, away from zero
    obtain rfl | rfl | ⟨rfl, rfl⟩ := hsides
    · refine ⟨_, by rw [if_neg (by decide), add_same], ?_, ?_⟩ <;> omega
    · refine ⟨_, by rw [if_pos (by decide), sub_same], ?_, ?_⟩ <;> omega
    · -- of zero nothing remains to be rounded
      refine absurd ?_ hlarge
      have hd : (0 : ℚ) < den.natAbs := by exact_mod_cast Int.natAbs_pos.mpr hden
      simpa using mul_pos hpart hd

section

variable {part : ℚ} {n d u : ℕ}

/-- Rounding to a `u`-th leaves the integer part as it is unless it goes up from the last of them. -/
theorem unitsFrom_div_eq_iff (hpart : 0 < part) (hd : 0 < d) (hu : 0 < u) :
    unitsFrom part n d / u = n / d / u ↔
      Int.fract ((n : ℚ) / (d * u : ℕ)) < 1 - (1 - part) / u := by
  have hd' : (0 : ℚ) < d := by exact_mod_cast hd
  have hu' : (0 : ℚ) < u := by exact_mod_cast hu
  obtain ⟨t, ht⟩ : ∃ t, n / d % u = t := ⟨_, rfl⟩
  obtain ⟨r, hr⟩ : ∃ r, n % d = r := ⟨_, rfl⟩
  have htu : t < u := ht ▸ Nat.mod_lt _ hu
  have hrd : r < d := hr ▸ Nat.mod_lt _ hd
  -- the count goes beyond a multiple of `u` just if it was rounded up from the last place before it
  have hcount : unitsFrom part n d / u = n / d / u ↔ (r : ℚ) < part * d ∨ t + 1 < u := by
    rw [unitsFrom, hr]
    split
    · next hsmall => exact iff_of_true rfl (.inl hsmall)
    · next hlarge =>
      rw [or_iff_right hlarge, ← ht]
      have hnext := Nat.div_add_mod (n / d) u
      rw [Nat.div_eq_iff hu]
      rw [mul_comm] at hnext
      omega
  -- and the fraction says how far the last place and the rest go
  have hfract : Int.fract ((n : ℚ) / (d * u : ℕ)) < 1 - (1 - part) / u ↔
      (r : ℚ) < part * d + d * (u - 1 - t) := by
    rw [Int.fract_div_natCast_eq_div_natCast_mod, Nat.mod_mul, hr, ht,
      div_lt_iff₀ (by exact_mod_cast Nat.mul_pos hd hu)]
    have hscale : (1 - (1 - part) / u) * (d * u : ℕ) = part * d + d * (u - 1 - t) + d * t := by
      push_cast
      field_simp
      ring
    rw [hscale]
    push_cast
    exact add_lt_add_iff_right _
  rw [hcount, hfract]
  constructor
  · rintro (hsmall | hlast)
    · have : (t : ℚ) + 1 ≤ u := by exact_mod_cast htu
      nlinarith
    -- the last place has not been reached, so a whole unit is left
    · have : (t : ℚ) + 2 ≤ u := by exact_mod_cast hlast
      have : (r : ℚ) < d := by exact_mod_cast hrd
      nlinarith
  · intro h
    refine or_iff_not_imp_right.mpr fun hlast => ?_
    have hlast : (u : ℚ) = t + 1 := by exact_mod_cast (by omega : u = t + 1)
    rw [hlast] at h
    linarith

end

section

variable {n : ℤ}

/-- The number of so many units. -/
theorem toRat_units (hp : 0 ≤ precision) :
    (⟨n, -precision⟩ : Decimal).toRat = n / unit precision := by
  have hp' : 0 ≤ precision.toInt := Int32.le_iff_toInt_le.mp hp
  have hfits : Fits (-precision.toInt) := ⟨by have := precision.toInt_lt; omega, by omega⟩
  rw [toRat_mk, toInt_neg_of_fits hfits, cast_unit hp, div_eq_mul_inv]

/-- The magnitude of the quotient in terms of those of the two integers. -/
theorem Division.abs_quotient (h : Division a b precision num den rest) (hp : 0 ≤ precision) :
    |a.toRat / b.toRat| = (num.natAbs : ℚ) / (den.natAbs * unit precision : ℕ) := by
  have hunit : (0 : ℚ) < unit precision := by exact_mod_cast zero_lt_unit precision
  rw [h.quotient, cast_unit hp, abs_mul, abs_div, abs_inv, abs_of_pos hunit]
  push_cast [Nat.cast_natAbs]
  field_simp

/-- A number of units on the side of zero where the quotient is. -/
theorem Division.mul_quotient_nonneg (h : Division a b precision num den rest)
    (hp : 0 ≤ precision) (hden : den ≠ 0) (hside : 0 ≤ num.sign * den.sign * n) :
    0 ≤ (⟨n, -precision⟩ : Decimal).toRat * (a.toRat / b.toRat) := by
  have hproduct : 0 ≤ num * den * n := by
    calc 0 ≤ num.sign * den.sign * n * (num.natAbs * den.natAbs : ℕ) :=
          mul_nonneg hside (Int.natCast_nonneg _)
      _ = (num.sign * num.natAbs) * (den.sign * den.natAbs) * n := by
          push_cast
          ring
      _ = num * den * n := by rw [Int.sign_mul_natAbs, Int.sign_mul_natAbs]
  have hproduct' : (0 : ℚ) ≤ num * den * n := by exact_mod_cast hproduct
  have hden' : (den : ℚ) ≠ 0 := by exact_mod_cast hden
  have hunit : (0 : ℚ) < unit precision := by exact_mod_cast zero_lt_unit precision
  have heq : (⟨n, -precision⟩ : Decimal).toRat * (a.toRat / b.toRat) =
      num * den * n / (den * unit precision) ^ 2 := by
    rw [toRat_units hp, h.quotient, cast_unit hp]
    field_simp
  rw [heq]
  exact div_nonneg hproduct' (sq_nonneg _)

/-- The rounded quotient has the integer part of the exact one unless it is rounded up to the next
integer. -/
theorem Division.towardZero_eq_iff (h : Division a b precision num den rest) (hp : 0 ≤ precision)
    (hden : den ≠ 0)
    (hn : n.natAbs = unitsFrom (roundsUpFrom b precision) num.natAbs den.natAbs)
    (hside : 0 ≤ num.sign * den.sign * n) :
    towardZero (⟨n, -precision⟩ : Decimal).toRat = towardZero (a.toRat / b.toRat) ↔
      Int.fract |a.toRat / b.toRat| <
        1 - (1 - roundsUpFrom b precision) * 10 ^ (-precision.toInt) := by
  have hunit := zero_lt_unit precision
  have hd : 0 < den.natAbs := Int.natAbs_pos.mpr hden
  have hrounded : |(⟨n, -precision⟩ : Decimal).toRat| = (n.natAbs : ℚ) / unit precision := by
    have hunit' : (0 : ℚ) < unit precision := by exact_mod_cast hunit
    rw [toRat_units hp, abs_div, abs_of_pos hunit', Nat.cast_natAbs, Int.cast_abs]
  rw [Decimal.towardZero_eq_iff (h.mul_quotient_nonneg hp hden hside), hrounded, h.abs_quotient hp,
    Rat.floor_natCast_div_natCast, Rat.floor_natCast_div_natCast, ← Int.natCast_ediv,
    ← Int.natCast_ediv, Nat.cast_inj, hn, cast_unit hp, ← div_eq_mul_inv,
    ← unitsFrom_div_eq_iff (roundsUpFrom_pos b precision) hd hunit, Nat.div_div_eq_div_mul]

end

/-- A division that is refused is not rounded. -/
theorem divRound_eq_error {t : Trap} (h : a.quoRem b precision = .error t) :
    a.divRound b precision = .error t := by
  rw [divRound, h]
  rfl

/-- **The remainder is that of the integer part unless the quotient is rounded up to the next
integer.** Let the divisor not be zero, and the precision not be negative. Then there is a remainder
just if the gap between the exponents is not too wide. It is the remainder of division toward zero,
less than the divisor and of the sign of the dividend, if and only if the fraction of the exact
quotient is far enough from the next integer not to be rounded there: by more than half a unit of the
precision, or by more than nearly all of it if the remainder of the rounded division has no
exponent of 32 bits. -/
theorem modulo_isRemainder_iff (hb : b.toRat ≠ 0) (hp : 0 ≤ precision) :
    ((∃ r, modulo precision a b = .ok r) ↔
      |a.exp.toInt - b.exp.toInt + precision.toInt| ≤ 4294967295) ∧
    ∀ r, modulo precision a b = .ok r →
      (IsRemainder a b r ↔
        Int.fract |a.toRat / b.toRat| <
          1 - (1 - roundsUpFrom b precision) * 10 ^ (-precision.toInt)) := by
  have hcoeff := coeff_ne_zero_of_toRat hb
  obtain hwide | hgap := lt_or_ge maxShift |a.exp.toInt - b.exp.toInt + precision.toInt|
  · -- the division is refused, and so is what needs it
    have hrefused : modulo precision a b = .error .scaleOverflow := by
      rw [modulo, divRound_eq_error ((quoRem_eq_error_iff hcoeff).mpr ⟨hwide, rfl⟩)]
      rfl
    rw [hrefused]
    exact ⟨iff_of_false (fun ⟨_, h⟩ => nomatch h) (not_le.mpr hwide), fun _ h => nomatch h⟩
  obtain ⟨num, den, rest, hden, h⟩ := exists_division hcoeff hgap
  obtain ⟨n, hq, hn, hside⟩ := h.exists_divRound hp hden
  have hexp : -precision ≤ 0 := by
    have hp' : 0 ≤ precision.toInt := Int32.le_iff_toInt_le.mp hp
    have hmax := precision.toInt_lt
    rw [Int32.le_iff_toInt_le, toInt_neg_of_fits ⟨by omega, by omega⟩, Int32.toInt_zero]
    omega
  obtain ⟨r, hr, hval⟩ := exists_modulo hq hexp
  refine ⟨iff_of_true ⟨r, hr⟩ hgap, fun r' hr' => ?_⟩
  obtain rfl : r = r' := Except.ok.inj (hr.symm.trans hr')
  -- the remainder is right just if the integer part that was cut off is that of the exact quotient
  rw [isRemainder_iff hb, hval, ← h.towardZero_eq_iff hp hden hn hside, sub_right_inj,
    mul_right_inj' hb, Int.cast_inj]

/-- Seven by two below zero, at two digits. -/
theorem modulo_isRemainder_iff_seven :
    ((ofInt (-2)).toRat ≠ 0 ∧ (0 : Int32) ≤ 2) ∧
    ((∃ r, modulo 2 (ofInt 7) (ofInt (-2)) = .ok r) ↔ |(0 : ℤ) - 0 + 2| ≤ 4294967295) ∧
    ∀ r, modulo 2 (ofInt 7) (ofInt (-2)) = .ok r →
      (IsRemainder (ofInt 7) (ofInt (-2)) r ↔
        Int.fract |(ofInt 7).toRat / (ofInt (-2)).toRat| <
          1 - (1 - roundsUpFrom (ofInt (-2)) 2) * 10 ^ (-2 : ℤ)) := by
  have two : (ofInt (-2)).toRat ≠ 0 := by
    rw [toRat_ofInt]
    norm_num
  have digits : (0 : Int32) ≤ 2 := by decide
  exact ⟨⟨two, digits⟩, modulo_isRemainder_iff two digits⟩

/-- At sixteen digits, a quotient of seventeen nines behind the point is rounded up to one, and at
no digits three halves are rounded up to two; the divisor is then subtracted once too often. -/
theorem modulo_roundedUp :
    (modulo 16 (ofInt 99999999999999999) (ofInt 100000000000000000) = .ok (ofInt (-1)) ∧
      ¬ IsRemainder (ofInt 99999999999999999) (ofInt 100000000000000000) (ofInt (-1))) ∧
    modulo 0 (ofInt 3) (ofInt 2) = .ok (ofInt (-1)) ∧
      ¬ IsRemainder (ofInt 3) (ofInt 2) (ofInt (-1)) := by
  refine ⟨⟨by decide, fun h => ?_⟩, by decide, fun h => ?_⟩
  all_goals
    obtain hzero | hsign := h.sign
    · rw [toRat_ofInt] at hzero
      exact absurd hzero (by norm_num)
    · exact absurd hsign (by decide)

/-- The remainder has the sign of the dividend. -/
example : modulo 16 (ofInt (-7)) (ofInt 2) = .ok (ofInt (-1)) := by decide

end

end ScriptEngine.Decimal
