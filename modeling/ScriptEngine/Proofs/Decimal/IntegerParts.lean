import ScriptEngine.Proofs.Decimal.Quotient

/-!
# Integer parts

A decimal is cut in four ways: `Decimal.floor` and `Decimal.ceil` divide the coefficient by a power
of ten, `Decimal.truncate` raises the exponent, and `Decimal.intPart` raises it to zero and holds
what comes out within 64 bits. A number without fractional digits passes through the first two, and
one with few enough of them through the third. All of them are integer parts of the number that the
decimal stands for (`toRat_floor`, `toRat_ceil`, `toRat_truncate`, `intPart_eq`), so how it is
written makes no difference (`cuts_of_number`).
-/

namespace ScriptEngine.Decimal

/-! ### Floor and ceiling -/

/-- Without a positive exponent, the number is a fraction over a power of ten. -/
theorem toRat_eq_div {d : Decimal} (h : d.exp < 0) :
    d.toRat = (d.coeff : ℚ) / (10 ^ d.exp.toInt.natAbs : ℕ) := by
  have hexp : d.exp.toInt < 0 := Int32.lt_iff_toInt_lt.mp h
  have hneg : d.exp.toInt = -(d.exp.toInt.natAbs : ℤ) := by omega
  rw [toRat, hneg, zpow_neg, zpow_natCast, Int.natAbs_neg, Int.natAbs_natCast, div_eq_mul_inv]
  push_cast
  rfl

/-- With an exponent of zero or more, it is an integer. -/
theorem toRat_eq_intCast {d : Decimal} (h : 0 ≤ d.exp) :
    d.toRat = (d.coeff * (10 ^ d.exp.toInt.toNat : ℕ) : ℤ) := by
  have hexp : 0 ≤ d.exp.toInt := Int32.le_iff_toInt_le.mp h
  obtain ⟨k, hk⟩ := Int.eq_ofNat_of_zero_le hexp
  rw [toRat, hk, zpow_natCast, Int.toNat_natCast]
  push_cast
  rfl

/-- The greatest integer that is not above the number. -/
theorem toRat_floor (d : Decimal) : d.floor.toRat = ⌊d.toRat⌋ := by
  unfold floor
  split
  · next h => rw [toRat_eq_intCast h, Int.floor_intCast]
  · next h =>
    rw [toRat_eq_div (Int32.not_le.mp h), Rat.floor_intCast_div_natCast, tenPow,
      Int.fdiv_eq_ediv_of_nonneg _ (Int.natCast_nonneg _)]
    exact toRat_ofInt _

/-- Rounding up is rounding down on the other side of zero. -/
theorem ceil_eq_neg_floor_neg (d : Decimal) : d.ceil = d.neg.floor.neg := by
  unfold ceil floor
  rw [neg_exp]
  split
  · simp [neg]
  · have hpos := tenPow_pos d.exp.toInt.natAbs
    simp only [neg, Decimal.mk.injEq, and_true]
    rw [Int.fdiv_eq_ediv_of_nonneg _ hpos.le, Int.fdiv_eq_ediv_of_nonneg _ hpos.le,
      Int.fmod_eq_emod_of_nonneg _ hpos.le, Int.neg_ediv, Int.sign_eq_one_of_pos hpos]
    simp only [← Int.dvd_iff_emod_eq_zero]
    split <;> omega

/-- The least integer that is not below the number. -/
theorem toRat_ceil (d : Decimal) : d.ceil.toRat = ⌈d.toRat⌉ := by
  rw [ceil_eq_neg_floor_neg, toRat_neg, toRat_floor, toRat_neg, Int.floor_neg, Int.cast_neg,
    neg_neg]

/-! ### Digits that are dropped -/

/-- What `d` is without its digits past `places` fractional ones. -/
structure IsCut (d : Decimal) (places : ℤ) (r : Decimal) : Prop where
  multiple : ∃ k : ℤ, r.toRat = k * 10 ^ (-places)
  magnitude : |r.toRat| ≤ |d.toRat|
  near : |d.toRat - r.toRat| < 10 ^ (-places)
  sign : r.toRat = 0 ∨ r.sign = d.sign

/-- An integer part is not farther from zero, and on the same side if it is not zero. -/
theorem towardZero_between (x : ℚ) :
    |(towardZero x : ℚ)| ≤ |x| ∧ ((towardZero x : ℚ) = 0 ∨ 0 < towardZero x * x) := by
  have hfloor : (0 : ℚ) ≤ ⌊|x|⌋ := by exact_mod_cast Int.floor_nonneg.mpr (abs_nonneg x)
  have hle : (⌊|x|⌋ : ℚ) ≤ |x| := Int.floor_le _
  have hside : (⌊|x|⌋ : ℚ) ≠ 0 → 0 < |x| := fun hne => lt_of_lt_of_le (hfloor.lt_of_ne' hne) hle
  obtain hx | hx := le_total 0 x
  · rw [towardZero_of_nonneg hx, abs_of_nonneg hfloor]
    refine ⟨hle, or_iff_not_imp_left.mpr fun hne => ?_⟩
    exact mul_pos (hfloor.lt_of_ne' hne) (abs_of_nonneg hx ▸ hside hne)
  · rw [towardZero_of_nonpos hx, Int.cast_neg, abs_neg, abs_of_nonneg hfloor, neg_eq_zero]
    refine ⟨hle, or_iff_not_imp_left.mpr fun hne => ?_⟩
    have hneg : 0 < -x := abs_of_nonpos hx ▸ hside hne
    exact neg_mul_comm (⌊|x|⌋ : ℚ) x ▸ mul_pos (hfloor.lt_of_ne' hne) hneg

section

variable {places : Int32}

/-- The number of units that are left. -/
theorem toRat_truncate (d : Decimal) (hp : 0 ≤ places) :
    (d.truncate places).toRat =
      towardZero (d.toRat / 10 ^ (-places.toInt)) * 10 ^ (-places.toInt) := by
  have hp' : 0 ≤ places.toInt := Int32.le_iff_toInt_le.mp hp
  have hexp : (-places).toInt = -places.toInt :=
    toInt_neg_of_fits ⟨by have := places.toInt_lt; omega, by omega⟩
  have hunit : (10 : ℚ) ^ (-places.toInt) ≠ 0 := zpow_ne_zero _ (by norm_num)
  unfold truncate
  split
  · next h =>
    rw [← hexp, ← coeff_rescale_of_lt h.2, toRat, rescale_exp]
  · next h =>
    -- all of the digits are within the places
    have hle : -places ≤ d.exp := Int32.not_lt.mp fun hlt => h ⟨hp, hlt⟩
    have hcount : d.toRat = (d.rescale (-places)).coeff * 10 ^ (-places.toInt) := by
      rw [← toRat_rescale_of_le hle, toRat, rescale_exp, hexp]
    rw [hcount, mul_div_cancel_right₀ _ hunit, towardZero_intCast]

theorem truncate_isCut (d : Decimal) (hp : 0 ≤ places) :
    IsCut d places.toInt (d.truncate places) := by
  have hunit : (0 : ℚ) < 10 ^ (-places.toInt) := zpow_pos (by norm_num) _
  obtain ⟨unit, hdef⟩ : ∃ unit : ℚ, 10 ^ (-places.toInt) = unit := ⟨_, rfl⟩
  have hval := toRat_truncate d hp
  rw [hdef] at hunit hval
  -- everything is counted in units
  obtain ⟨x, hx⟩ : ∃ x, d.toRat / unit = x := ⟨_, rfl⟩
  have hnumber : d.toRat = x * unit := by rw [← hx, div_mul_cancel₀ _ hunit.ne']
  rw [hx] at hval
  obtain ⟨hmagnitude, hside⟩ := towardZero_between x
  refine ⟨⟨towardZero x, hdef ▸ hval⟩, ?_, ?_, ?_⟩
  · rw [hval, hnumber, abs_mul, abs_mul]
    exact mul_le_mul_of_nonneg_right hmagnitude (abs_nonneg unit)
  · rw [hdef, hval, hnumber, ← sub_mul, abs_mul, abs_of_pos hunit]
    exact mul_lt_of_lt_one_left hunit (sub_towardZero x).1
  · rw [hval]
    refine hside.imp (fun hzero => by rw [hzero, zero_mul]) fun hpos => sign_eq_of_mul_pos ?_
    rw [hval, hnumber, mul_mul_mul_comm]
    exact mul_pos hpos (mul_pos hunit hunit)

/-- What is left has no digits past the places. -/
theorem truncate_truncate (d : Decimal) :
    (d.truncate places).truncate places = d.truncate places := by
  have hnot : ∀ {r : Decimal}, ¬ (0 ≤ places ∧ r.exp < -places) → r.truncate places = r :=
    fun h => if_neg h
  by_cases h : 0 ≤ places ∧ d.exp < -places
  · refine hnot fun hagain => ?_
    have hexp : (d.truncate places).exp = -places := by
      rw [truncate, if_pos h, rescale_exp]
    rw [hexp] at hagain
    exact Int32.lt_irrefl hagain.2
  · rw [hnot h, hnot h]

end

/-! ### Within 64 bits -/

theorem intPart_eq (d : Decimal) :
    d.intPart = max (-2 ^ 63) (min (2 ^ 63 - 1) (towardZero d.toRat)) := by
  unfold intPart
  rw [coeff_rescale_zero]
  dsimp only
  split
  · omega
  · split <;> omega

theorem towardZero_eq_zero_iff {x : ℚ} : towardZero x = 0 ↔ |x| < 1 := by
  rw [← Int.natAbs_eq_zero, ← Int.natCast_eq_zero, natAbs_towardZero, Int.floor_eq_zero_iff,
    Set.mem_Ico, and_iff_right (abs_nonneg x)]

theorem intPart_eq_zero_iff {d : Decimal} : d.intPart = 0 ↔ |d.toRat| < 1 := by
  rw [intPart_eq, ← towardZero_eq_zero_iff]
  omega

/-! ### All four -/

/-- **The parts of a decimal are those of its number,** whatever the coefficient and the exponent.
Floor and ceiling are the greatest integer not above the number and the least one not below it, and
the latter is the former on the other side of zero. Truncation to `p ≥ 0` places leaves the number
without its further digits, and nothing to truncate. The integer part is that of the number, cut off
toward zero and held within 64 bits. So equal decimals have equal parts. -/
theorem toRat_integerParts (d : Decimal) :
    d.floor.toRat = ⌊d.toRat⌋ ∧
    d.ceil.toRat = ⌈d.toRat⌉ ∧
    d.ceil = d.neg.floor.neg ∧
    (∀ p : Int32, 0 ≤ p → IsCut d p.toInt (d.truncate p) ∧
      (d.truncate p).truncate p = d.truncate p) ∧
    d.intPart = max (-2 ^ 63) (min (2 ^ 63 - 1) (towardZero d.toRat)) ∧
    ∀ e : Decimal, e.toRat = d.toRat →
      e.floor.toRat = d.floor.toRat ∧
      e.ceil.toRat = d.ceil.toRat ∧
      (∀ p : Int32, 0 ≤ p → (e.truncate p).toRat = (d.truncate p).toRat) ∧
      e.intPart = d.intPart := by
  refine ⟨toRat_floor d, toRat_ceil d, ceil_eq_neg_floor_neg d,
    fun p hp => ⟨truncate_isCut d hp, truncate_truncate d⟩, intPart_eq d, fun e he => ?_⟩
  refine ⟨?_, ?_, fun p hp => ?_, ?_⟩
  · rw [toRat_floor, toRat_floor, he]
  · rw [toRat_ceil, toRat_ceil, he]
  · rw [toRat_truncate e hp, toRat_truncate d hp, he]
  · rw [intPart_eq, intPart_eq, he]

/-- Minus two and a half is cut to minus two, and its floor is the same with one digit more. -/
theorem toRat_integerParts_minusTwoAndHalf :
    ((0 : Int32) ≤ 0 ∧ (⟨-250, -2⟩ : Decimal).toRat = (⟨-25, -1⟩ : Decimal).toRat) ∧
    IsCut ⟨-25, -1⟩ 0 (ofInt (-2)) ∧
    (⟨-250, -2⟩ : Decimal).floor.toRat = (⟨-25, -1⟩ : Decimal).floor.toRat := by
  have hsame : (⟨-250, -2⟩ : Decimal).toRat = (⟨-25, -1⟩ : Decimal).toRat := by
    have hone : (-1 : Int32).toInt = -1 := rfl
    have htwo : (-2 : Int32).toInt = -2 := rfl
    rw [toRat_mk, toRat_mk, hone, htwo]
    norm_num
  have hzero : (0 : Int32) ≤ 0 := by decide
  obtain ⟨-, -, -, hcut, -, hequal⟩ := toRat_integerParts ⟨-25, -1⟩
  exact ⟨⟨hzero, hsame⟩, (hcut 0 hzero).1, (hequal _ hsame).1⟩

example : [floor ⟨-25, -1⟩, ceil ⟨-25, -1⟩] = [ofInt (-3), ofInt (-2)] := by decide

end ScriptEngine.Decimal
