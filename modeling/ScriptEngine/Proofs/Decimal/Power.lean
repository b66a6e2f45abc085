import ScriptEngine.Proofs.Decimal.Quotient

/-!
# Powers by halving the exponent

`Decimal.pow` halves the exponent by rounded division and squares the power of the half; what it
folds into each square is read off the integer part of the exponent, held within 64 bits. At a
precision of `p ≥ 1` digits, an exponent counted in units of `10 ^ -p` goes from `m` to
`(m + 1) / 2`, so after `k` halvings it is `m / 2 ^ k` rounded up. The power that comes out is
exact, but for an exponent that is computed along the way, `foldedExponent`
(`pow_isPower`).

Halving rounds up, so this exponent is never below the one given
(`div_le_foldedExponent`). It is the one given as long as no half is rounded up to the next
integer and no even integer is held at the greatest one of 64 bits, which is odd (`HalvesExactly`,
`pow_exact_iff`). At 16 digits that is so for every exponent below `2 ^ 53`
(`halvesExactly_of_lt`); at one digit it fails for 15.
-/

namespace ScriptEngine.Decimal

/-! ### Integer parts -/

section

variable {b : Decimal} {m unit : ℕ}

/-- The integer part of a number of units. -/
theorem coeff_rescale_zero_of_toRat (h : b.toRat = m / unit) :
    (b.rescale 0).coeff = (m / unit : ℕ) := by
  have hnonneg : (0 : ℚ) ≤ m / unit := by positivity
  rw [coeff_rescale_zero, h, towardZero, if_pos hnonneg]
  exact_mod_cast Rat.floor_natCast_div_natCast m unit

/-- Integer parts are held within 64 bits. -/
theorem intPart_of_toRat (h : b.toRat = m / unit) :
    b.intPart = (min (m / unit) (2 ^ 63 - 1) : ℕ) := by
  obtain ⟨n, hn⟩ : ∃ n, m / unit = n := ⟨_, rfl⟩
  unfold intPart
  rw [coeff_rescale_zero_of_toRat h, hn]
  simp only
  split
  · omega
  · split <;> omega

end

/-! ### Halving -/

section

variable {precision : Int32}

/-- With one digit at least, a unit is a tenth at most. -/
theorem ten_le_unit (hp : 1 ≤ precision) : 10 ≤ unit precision := by
  have hp' : 1 ≤ precision.toInt := Int32.le_iff_toInt_le.mp hp
  exact Nat.le_self_pow (by omega) 10

/-- Half of a natural number is rounded up. -/
theorem nearestQuotient_two (m : ℕ) : nearestQuotient m 2 = ((m + 1) / 2 : ℕ) := by
  have hsign : ¬ (m : ℤ).sign * (2 : ℤ).sign < 0 := by
    rw [not_lt]
    exact mul_nonneg (Int.sign_nonneg_iff.mpr (Int.natCast_nonneg m)) (by decide)
  unfold nearestQuotient
  rw [if_neg hsign, Int.tmod_eq_emod_of_nonneg (Int.natCast_nonneg m),
    Int.tdiv_eq_ediv_of_nonneg (Int.natCast_nonneg m)]
  split <;> omega

/-- With the divisor two, no exponent leaves its range. -/
theorem exists_half (hp : 1 ≤ precision) (b : Decimal) :
    ∃ q, b.divRound (ofInt 2) precision = .ok q ∧
      IsNearest (10 ^ (-precision.toInt)) (b.toRat / 2) q.toRat := by
  have hp' : 1 ≤ precision.toInt := Int32.le_iff_toInt_le.mp hp
  -- all exponents are within 32 bits, and two has the exponent zero, so no gap is too wide
  have hlo : -2 ^ 31 ≤ b.exp.toInt := b.exp.le_toInt
  have hhi : b.exp.toInt < 2 ^ 31 := b.exp.toInt_lt
  have hpmax : precision.toInt < 2 ^ 31 := precision.toInt_lt
  have hexp : (ofInt 2).exp.toInt = 0 := rfl
  obtain ⟨num, den, rest, hden, hs⟩ :
      ∃ num den rest, den ≠ 0 ∧ Scaled b (ofInt 2) precision num den rest :=
    exists_scaled_of_gap (by decide) (fun _ => ⟨by omega, by omega⟩)
      (fun _ => ⟨by omega, by omega⟩)
      (abs_le.mpr ⟨by rw [maxShift]; omega, by rw [maxShift]; omega⟩)
  have htwo : (ofInt 2).toRat = 2 := toRat_ofInt 2
  refine ⟨_, hs.divRound_eq, ?_⟩
  rw [← htwo, hs.quotient, toRat_mk, toInt_neg_of_fits ⟨by omega, by omega⟩]
  exact isNearest_nearestQuotient num hden (zpow_pos (by norm_num) _)

/-- A half is rounded up to a whole number of units. -/
theorem divRound_two {b : Decimal} {m : ℕ} (hp : 1 ≤ precision)
    (h : b.toRat = m / unit precision) :
    ∃ q, b.divRound (ofInt 2) precision = .ok q ∧
      q.toRat = ((m + 1) / 2 : ℕ) / unit precision := by
  have hunits := cast_unit (Int32.le_trans (by decide) hp)
  have hunit : (0 : ℚ) < 10 ^ (-precision.toInt) := zpow_pos (by norm_num) _
  obtain ⟨q, hq, hnearest⟩ := exists_half hp b
  -- the half is that of an integer, in units
  have hhalf : b.toRat / 2 = (m : ℤ) / (2 : ℤ) * 10 ^ (-precision.toInt) := by
    rw [h, hunits]
    push_cast
    ring
  rw [hhalf] at hnearest
  refine ⟨q, hq, ?_⟩
  rw [hnearest.unique (isNearest_nearestQuotient m two_ne_zero hunit), nearestQuotient_two,
    hunits, Int.cast_natCast, div_eq_mul_inv]

end

/-! ### Powers of a base -/

/-- The power with coefficient and exponent as they come out of products. -/
def power (d : Decimal) (n : ℕ) : Decimal := ⟨d.coeff ^ n, Int32.ofInt (n * d.exp.toInt)⟩

/-- What a computation of `d ^ n` by products answers: the power, if its exponent fits. -/
inductive IsPower (d : Decimal) (n : ℕ) : Except Trap (Option Decimal) → Prop
  | exact : Fits (n * d.exp.toInt) → IsPower d n (.ok (some (power d n)))
  | overflow (e : ℤ) : ¬ Fits (n * d.exp.toInt) → IsPower d n (.error (.exponentOverflow e))

section

variable {d : Decimal} {i j n : ℕ}

/-- The power with exponent zero is one. -/
@[simp] theorem power_zero (d : Decimal) : power d 0 = ofInt 1 := by
  simp [power, ofInt]

/-- The power with exponent one is the base. -/
@[simp] theorem power_one (d : Decimal) : power d 1 = d := by
  simp [power]

/-- The power is that of the number, if its exponent fits. -/
theorem toRat_power (h : Fits (n * d.exp.toInt)) : (power d n).toRat = d.toRat ^ n := by
  rw [power, toRat_mk, toInt_ofInt_of_fits h, toRat, mul_pow, ← zpow_natCast (10 ^ _), ← zpow_mul,
    mul_comm d.exp.toInt]
  push_cast
  rfl

/-- The exponents of lower powers are between zero and those of higher ones. -/
theorem fits_of_le (hij : i ≤ j) (h : Fits (j * d.exp.toInt)) : Fits (i * d.exp.toInt) := by
  obtain ⟨hlo, hhi⟩ := h
  -- on one side of zero the greater power has the exponent further out
  obtain he | he := le_total 0 d.exp.toInt
  · have hle : (i : ℤ) * d.exp.toInt ≤ j * d.exp.toInt :=
      mul_le_mul_of_nonneg_right (by exact_mod_cast hij) he
    have hnonneg : 0 ≤ (i : ℤ) * d.exp.toInt := mul_nonneg (Int.natCast_nonneg i) he
    exact ⟨by omega, by omega⟩
  · have hle : (j : ℤ) * d.exp.toInt ≤ i * d.exp.toInt :=
      mul_le_mul_of_nonpos_right (by exact_mod_cast hij) he
    have hnonpos : (i : ℤ) * d.exp.toInt ≤ 0 :=
      mul_nonpos_of_nonneg_of_nonpos (Int.natCast_nonneg i) he
    exact ⟨by omega, by omega⟩

/-- A product of powers is a power, or refused because that power has no exponent. -/
theorem isPower_mul (hi : Fits (i * d.exp.toInt)) (hj : Fits (j * d.exp.toInt)) :
    IsPower d (i + j) (((power d i).mul (power d j)).map some) := by
  have hsum : (i : ℤ) * d.exp.toInt + j * d.exp.toInt = (i + j : ℕ) * d.exp.toInt := by
    push_cast
    ring
  unfold mul
  simp only [power, toInt_ofInt_of_fits hi, toInt_ofInt_of_fits hj, hsum, ← pow_add]
  by_cases h : Fits ((i + j : ℕ) * d.exp.toInt)
  · rw [if_pos ((fitsExp_iff _).mpr h)]
    exact .exact h
  · rw [if_neg (mt (fitsExp_iff _).mp h)]
    exact .overflow _ h

end

/-! ### The exponent that is computed -/

/-- What is folded into the power of half an exponent with integer part `n`. -/
def foldHalf (precision : Int32) (d : Decimal) (n : ℤ) (half : Decimal) :
    Except Trap (Option Decimal) := do
  let square ← half.mul half
  if n % 2 = 0 then return some square
  else if 0 < n then return some (← square.mul d)
  else return some (← divRound square d precision)

/-- A halving makes the power of the half first and folds the integer part into it. -/
theorem powWithin_succ {precision : Int32} {d b q : Decimal} {k : ℕ} (hpos : 0 < b.intPart)
    (hq : b.divRound (ofInt 2) precision = .ok q) :
    powWithin (k + 1) precision d b =
      (powWithin k precision d q).bind fun half =>
        match half with
        | none => .ok none
        | some half => foldHalf precision d b.intPart half := by
  have hzero : ¬ b.intPart = 0 := by omega
  have hneg : ¬ (b.intPart < 0 ∧ d.isZero = true) := by omega
  rw [powWithin, if_neg hzero, if_neg hneg, hq]
  rfl

/-- The half is squared, and multiplied by the base once more for an odd integer part. -/
theorem isPower_foldHalf {d : Decimal} {precision : Int32} {n half : ℕ} (hn : 0 < n)
    (hhalf : Fits (half * d.exp.toInt)) :
    IsPower d (2 * half + n % 2) (foldHalf precision d n (power d half)) := by
  have hsquare := isPower_mul hhalf hhalf
  rw [← two_mul] at hsquare
  unfold foldHalf
  obtain ⟨x, hx⟩ : ∃ x, (power d half).mul (power d half) = x := ⟨_, rfl⟩
  rw [hx] at hsquare ⊢
  cases x with
  | error t =>
    -- a square that is refused leaves no room for more
    obtain ⟨e, h⟩ : ∃ e, t = .exponentOverflow e ∧ ¬ Fits ((2 * half : ℕ) * d.exp.toInt) := by
      cases hsquare with
      | overflow e h => exact ⟨e, rfl, h⟩
    rw [h.1]
    exact .overflow e fun hfits => h.2 (fits_of_le (Nat.le_add_right _ _) hfits)
  | ok square =>
    obtain ⟨rfl, h⟩ : square = power d (2 * half) ∧ Fits ((2 * half : ℕ) * d.exp.toInt) := by
      cases hsquare with
      | exact h => exact ⟨rfl, h⟩
    -- the three ways of folding, of which the last is for negative exponents only
    change IsPower d _ (if (n : ℤ) % 2 = 0 then .ok (some (power d (2 * half)))
      else if 0 < (n : ℤ) then ((power d (2 * half)).mul d).map some
      else ((power d (2 * half)).divRound d precision).map some)
    obtain hr | hr := Nat.mod_two_eq_zero_or_one n
    · rw [if_pos (by omega), hr]
      exact .exact h
    · have hone : Fits ((1 : ℕ) * d.exp.toInt) :=
        ⟨by have := d.exp.le_toInt; omega, by have := d.exp.toInt_lt; omega⟩
      have hodd := isPower_mul h hone
      rw [power_one] at hodd
      rw [if_neg (by omega), if_pos (by omega), hr]
      exact hodd

/-- Whether an integer part is odd, as far as 64 bits show it. -/
def heldParity (n : ℕ) : ℕ := min n (2 ^ 63 - 1) % 2

/-- Where the integer part is not held, it is at worst taken for odd. -/
theorem mod_two_le_heldParity (n : ℕ) : n % 2 ≤ heldParity n := by
  unfold heldParity
  omega

/-- The exponent that at most `k` halvings fold up, from one of `m` parts of `unit`. -/
def foldedExponent (unit : ℕ) : ℕ → ℕ → ℕ
  | 0, _ => 0
  | k + 1, m =>
    if m < unit then 0 else 2 * foldedExponent unit k ((m + 1) / 2) + heldParity (m / unit)

/-- Nothing is folded once the integer part is zero. -/
theorem isPower_powWithin_of_lt {precision : Int32} {b : Decimal} {m : ℕ}
    (hb : b.toRat = m / unit precision) (hm : m < unit precision) (d : Decimal) (k : ℕ) :
    IsPower d (foldedExponent (unit precision) (k + 1) m) (powWithin (k + 1) precision d b) := by
  have hint := intPart_of_toRat hb
  rw [Nat.div_eq_of_lt hm] at hint
  rw [foldedExponent, if_pos hm, powWithin, hint, ← power_zero d]
  exact .exact (by simp [Fits])

/-- With enough halvings for the exponent, the answer is the power with the folded exponent. -/
theorem isPower_powWithin {precision : Int32} (hp : 1 ≤ precision) (d : Decimal) {k m : ℕ}
    {b : Decimal} (hb : b.toRat = m / unit precision) (hm : m ≤ (unit precision - 1) * 2 ^ k) :
    IsPower d (foldedExponent (unit precision) (k + 1) m) (powWithin (k + 1) precision d b) := by
  have hunit := ten_le_unit hp
  -- by induction on the halvings that are left; each halves the bound on the exponent along with it
  induction k generalizing m b with
  | zero => exact isPower_powWithin_of_lt hb (by omega) d 0
  | succ k ih =>
    by_cases hlt : m < unit precision
    · exact isPower_powWithin_of_lt hb hlt d (k + 1)
    have hint := intPart_of_toRat hb
    have hpos : 0 < m / unit precision := Nat.div_pos (Nat.not_lt.mp hlt) (by omega)
    obtain ⟨q, hq, hval⟩ := divRound_two hp hb
    have hhalf : (m + 1) / 2 ≤ (unit precision - 1) * 2 ^ k := by
      -- half of the bound, rounded up, is the bound with a halving less
      rw [pow_succ, ← mul_assoc] at hm
      omega
    have hfold := ih hval hhalf
    rw [foldedExponent, if_neg hlt, powWithin_succ (by omega) hq, hint]
    obtain ⟨x, hx⟩ : ∃ x, powWithin (k + 1) precision d q = x := ⟨_, rfl⟩
    rw [hx] at hfold ⊢
    cases hfold with
    | overflow e h => exact .overflow e fun hfits => h (fits_of_le (by omega) hfits)
    | exact h => exact isPower_foldHalf (by omega) h

/-- An exponent of as many bits is below one after so many halvings. -/
theorem mul_unit_le {precision : Int32} (hp : 1 ≤ precision) (n : ℕ) :
    n * unit precision ≤ (unit precision - 1) * 2 ^ (n.log2 + 3) := by
  have hunit := ten_le_unit hp
  have hbits : n < 2 ^ (n.log2 + 1) := Nat.lt_log2_self
  calc n * unit precision
      ≤ 2 ^ (n.log2 + 1) * (4 * (unit precision - 1)) := Nat.mul_le_mul hbits.le (by omega)
    _ = (unit precision - 1) * 2 ^ (n.log2 + 3) := by
        rw [pow_succ 2 (n.log2 + 2), pow_succ 2 (n.log2 + 1)]
        ring

/-- The power for an integer exponent, in any representation. -/
theorem pow_isPower {precision : Int32} (hp : 1 ≤ precision) (d : Decimal) {b : Decimal} {n : ℕ}
    (hb : b.toRat = n) :
    IsPower d (foldedExponent (unit precision) (n.log2 + 4) (n * unit precision))
      (pow precision d b) := by
  have hunit := ten_le_unit hp
  have hcoeff : (b.rescale 0).coeff = n := by
    rw [coeff_rescale_zero, hb]
    exact towardZero_intCast n
  have hval : b.toRat = (n * unit precision : ℕ) / unit precision := by
    have : (unit precision : ℚ) ≠ 0 := by exact_mod_cast (by omega : unit precision ≠ 0)
    rw [hb]
    push_cast
    field_simp
  rw [pow, hcoeff, Int.natAbs_natCast]
  exact isPower_powWithin hp d hval (mul_unit_le hp n)

/-! ### When the exponent is the one given -/

section

variable {u k m n : ℕ}

/-- A half, rounded up. -/
def halfUp (m : ℕ) : ℕ := (m + 1) / 2

/-- Halving a count of units halves the integer part, whose parity is read off correctly. -/
def HalvesWell (u m : ℕ) : Prop :=
  halfUp m / u = m / u / 2 ∧ heldParity (m / u) = m / u % 2

/-- Rounding a half up does not make its integer part less. -/
theorem div_two_le_halfUp_div (u m : ℕ) : m / u / 2 ≤ halfUp m / u := by
  rw [Nat.div_div_eq_div_mul, Nat.mul_comm, ← Nat.div_div_eq_div_mul]
  exact Nat.div_le_div_right (by unfold halfUp; omega)

/-- The bound is halved along with the exponent. -/
theorem halfUp_le (hm : m ≤ (u - 1) * 2 ^ (k + 1)) : halfUp m ≤ (u - 1) * 2 ^ k := by
  rw [pow_succ, ← mul_assoc] at hm
  unfold halfUp
  omega

/-- The folded exponent is never too small. -/
theorem div_le_foldedExponent (hu : 0 < u) (hm : m ≤ (u - 1) * 2 ^ k) :
    m / u ≤ foldedExponent u (k + 1) m := by
  induction k generalizing m with
  | zero =>
    rw [Nat.div_eq_of_lt (by omega)]
    exact Nat.zero_le _
  | succ k ih =>
    rw [foldedExponent]
    split
    · next hlt => rw [Nat.div_eq_of_lt hlt]
    · have hrest := ih (halfUp_le hm)
      have hhalf := div_two_le_halfUp_div u m
      have hparity := mod_two_le_heldParity (m / u)
      unfold halfUp at hrest hhalf
      omega

/-- Below one, halving has nothing to get wrong. -/
theorem halvesWell_of_lt (hu : 2 ≤ u) (hm : m < u) (j : ℕ) : HalvesWell u (halfUp^[j] m) := by
  -- below one, a half rounded up is below one still
  induction j generalizing m with
  | zero =>
    have hhalf : halfUp m < u := by
      unfold halfUp
      omega
    rw [Function.iterate_zero_apply, HalvesWell, Nat.div_eq_of_lt hm, Nat.div_eq_of_lt hhalf]
    exact ⟨rfl, rfl⟩
  | succ j ih => exact ih (by unfold halfUp; omega)

/-- The folded exponent is right just when every halving is. -/
theorem foldedExponent_eq_iff (hu : 2 ≤ u) (hm : m ≤ (u - 1) * 2 ^ k) :
    foldedExponent u (k + 1) m = m / u ↔ ∀ j, HalvesWell u (halfUp^[j] m) := by
  induction k generalizing m with
  | zero =>
    have hlt : m < u := by omega
    rw [foldedExponent, if_pos hlt, Nat.div_eq_of_lt hlt]
    exact iff_of_true rfl (halvesWell_of_lt hu hlt)
  | succ k ih =>
    by_cases hlt : m < u
    · rw [foldedExponent, if_pos hlt, Nat.div_eq_of_lt hlt]
      exact iff_of_true rfl (halvesWell_of_lt hu hlt)
    have hle := halfUp_le hm
    have hrest := div_le_foldedExponent (by omega) hle
    have hhalf := div_two_le_halfUp_div u m
    have hparity := mod_two_le_heldParity (m / u)
    rw [foldedExponent, if_neg hlt, ← halfUp]
    constructor
    · -- no summand can be too small, so none is too big
      intro h j
      cases j with
      | zero =>
        rw [Function.iterate_zero_apply]
        exact ⟨by omega, by omega⟩
      | succ j => exact (ih hle).mp (by omega) j
    · intro h
      have hfirst := h 0
      have hlater := (ih hle).mpr fun j => h (j + 1)
      rw [Function.iterate_zero_apply] at hfirst
      rw [hlater, hfirst.1, hfirst.2]
      omega

/-- Repeated halving rounds up once. -/
theorem iterate_halfUp (m j : ℕ) : halfUp^[j] m = (m + (2 ^ j - 1)) / 2 ^ j := by
  induction j with
  | zero => simp
  | succ j ih =>
    have hpos : 0 < 2 ^ j := Nat.two_pow_pos j
    have hsum : m + (2 ^ j - 1) + 2 ^ j = m + (2 ^ (j + 1) - 1) := by
      rw [pow_succ]
      omega
    rw [Function.iterate_succ_apply', ih, halfUp, ← Nat.add_div_right _ hpos, hsum,
      Nat.div_div_eq_div_mul, ← pow_succ]

/-- The integer part after `k` halvings is that of the exact quotient just when the fraction
that is lost is at least a unit away from one. -/
theorem iterate_halfUp_div_eq_iff (hu : 0 < u) :
    halfUp^[k] (n * u) / u = n / 2 ^ k ↔ 2 ^ k ≤ u * (2 ^ k - n % 2 ^ k) := by
  have hpos : 0 < 2 ^ k := Nat.two_pow_pos k
  have hmod : n % 2 ^ k < 2 ^ k := Nat.mod_lt _ hpos
  obtain ⟨q, hq⟩ : ∃ q, n / 2 ^ k = q := ⟨_, rfl⟩
  obtain ⟨r, hr⟩ : ∃ r, n % 2 ^ k = r := ⟨_, rfl⟩
  have hn : n = q * 2 ^ k + r := by
    rw [← hq, ← hr, Nat.div_add_mod']
  rw [iterate_halfUp, hq, hr]
  rw [hr] at hmod
  have hsplit : n * u + (2 ^ k - 1) = (r * u + (2 ^ k - 1)) + q * u * 2 ^ k := by
    rw [hn]
    ring
  rw [hsplit, Nat.add_mul_div_right _ _ hpos, Nat.add_mul_div_right _ _ hu]
  have hgap : u * (2 ^ k - r) + r * u = u * 2 ^ k := by
    rw [mul_comm r u, ← Nat.mul_add]
    congr 1
    omega
  calc (r * u + (2 ^ k - 1)) / 2 ^ k / u + q = q
      ↔ (r * u + (2 ^ k - 1)) / 2 ^ k < u := by
        rw [← Nat.div_eq_zero_iff_lt hu]
        omega
    _ ↔ 2 ^ k ≤ u * (2 ^ k - r) := by
        rw [Nat.div_lt_iff_lt_mul hpos]
        omega

end

/-- No halving of the exponent `n` carries into its integer part, and none that is held within
64 bits is even. -/
structure HalvesExactly (precision : Int32) (n : ℕ) : Prop where
  no_carry (k : ℕ) : 2 ^ k ≤ unit precision * (2 ^ k - n % 2 ^ k)
  odd_above (k : ℕ) : 2 ^ 63 ≤ n / 2 ^ k → n / 2 ^ k % 2 = 1

/-- The parity is read off right unless an even integer is held at the greatest one of 64 bits. -/
theorem heldParity_eq_iff (n : ℕ) : heldParity n = n % 2 ↔ (2 ^ 63 ≤ n → n % 2 = 1) := by
  unfold heldParity
  omega

/-- All halvings are right just if none of them carries and all parities are read off right. -/
theorem halvesExactly_iff {precision : Int32} (hp : 1 ≤ precision) {n : ℕ} :
    HalvesExactly precision n ↔
      ∀ j, HalvesWell (unit precision) (halfUp^[j] (n * unit precision)) := by
  have hu := ten_le_unit hp
  have hpos : 0 < unit precision := by omega
  constructor
  · intro h j
    -- where nothing is carried, the integer part after `k` halvings is that of `n / 2 ^ k`
    have hlevel := fun k => (iterate_halfUp_div_eq_iff hpos).mpr (h.no_carry k)
    refine ⟨?_, ?_⟩
    · rw [← Function.iterate_succ_apply' halfUp, hlevel, hlevel, pow_succ, Nat.div_div_eq_div_mul]
    · rw [hlevel, heldParity_eq_iff]
      exact h.odd_above j
  · intro h
    -- each level halves the integer part of the one before
    have hlevel : ∀ k, halfUp^[k] (n * unit precision) / unit precision = n / 2 ^ k := by
      intro k
      induction k with
      | zero => simp [Nat.mul_div_cancel _ hpos]
      | succ k ih =>
        rw [Function.iterate_succ_apply', (h k).1, ih, Nat.div_div_eq_div_mul, pow_succ]
    refine ⟨fun k => (iterate_halfUp_div_eq_iff hpos).mp (hlevel k), fun k => ?_⟩
    rw [← heldParity_eq_iff, ← hlevel]
    exact (h k).2

/-- Exponents with few binary digits halve exactly. -/
theorem halvesExactly_of_lt {precision : Int32} (hp : 1 ≤ precision) {n i : ℕ} (hn : n < 2 ^ i)
    (hi : i ≤ 63) (hfine : 2 ^ i ≤ unit precision) : HalvesExactly precision n := by
  have hu := ten_le_unit hp
  refine ⟨fun k => ?_, fun k hk => ?_⟩
  · have hmod : n % 2 ^ k < 2 ^ k := Nat.mod_lt _ (Nat.two_pow_pos k)
    obtain hk | hk := le_or_gt k i
    · -- the gap is a unit at least
      calc 2 ^ k ≤ 2 ^ i := Nat.pow_le_pow_right two_pos hk
        _ ≤ unit precision * 1 := by omega
        _ ≤ unit precision * (2 ^ k - n % 2 ^ k) := Nat.mul_le_mul_left _ (by omega)
    · -- all digits are gone, so the gap is a half at least
      have hlt : n < 2 ^ (k - 1) := hn.trans_le (Nat.pow_le_pow_right two_pos (by omega))
      have hdouble : 2 ^ k = 2 * 2 ^ (k - 1) := by
        rw [← pow_succ']
        congr 1
        omega
      rw [Nat.mod_eq_of_lt (by omega)]
      calc 2 ^ k ≤ 10 * (2 ^ k - n) := by omega
        _ ≤ unit precision * (2 ^ k - n) := Nat.mul_le_mul_right _ hu
  -- the number itself fits into 64 bits, so nothing is held
  · have hle : n / 2 ^ k ≤ n := Nat.div_le_self n _
    have hmax : 2 ^ i ≤ 2 ^ 63 := Nat.pow_le_pow_right two_pos hi
    omega

/-- **Powers are exact as long as no halving carries.** Let the precision be positive, and the
exponent stand for the natural number `n`. Then for every base `d`, the power is either refused,
since a product has no exponent of 32 bits, or it is exactly `d ^ n`, if and only if `n` halves
exactly. -/
theorem pow_exact_iff {precision : Int32} {b : Decimal} {n : ℕ} (hp : 1 ≤ precision)
    (hb : b.toRat = n) :
    (∀ d, (∃ e, pow precision d b = .error (.exponentOverflow e)) ∨
        ∃ r, pow precision d b = .ok (some r) ∧ r.toRat = d.toRat ^ n) ↔
      HalvesExactly precision n := by
  have hu := ten_le_unit hp
  have hpos : 0 < unit precision := by omega
  have hpow := fun d => pow_isPower hp d hb
  obtain ⟨i, hi⟩ : ∃ i, foldedExponent (unit precision) (n.log2 + 4) (n * unit precision) = i :=
    ⟨_, rfl⟩
  -- the power has the exponent that is folded, so it is a matter of that exponent
  have hfolded : i = n ↔ HalvesExactly precision n := by
    rw [halvesExactly_iff hp, ← hi,
      ← foldedExponent_eq_iff (by omega) (mul_unit_le hp n), Nat.mul_div_cancel _ hpos]
  rw [← hfolded]
  rw [hi] at hpow
  constructor
  · -- powers of two are never refused, and differ for different exponents
    intro h
    have htwo := hpow (ofInt 2)
    have hcase := h (ofInt 2)
    obtain ⟨x, hx⟩ : ∃ x, pow precision (ofInt 2) b = x := ⟨_, rfl⟩
    rw [hx] at htwo hcase
    cases htwo with
    | overflow e hfits => exact absurd (by simp [Fits, ofInt]) hfits
    | exact hfits =>
      obtain ⟨e, he⟩ | ⟨r, hr, hval⟩ := hcase
      · cases he
      · cases hr
        rw [toRat_power hfits] at hval
        rw [toRat_ofInt] at hval
        exact Nat.pow_right_injective le_rfl (by exact_mod_cast hval)
  · rintro rfl d
    have hd := hpow d
    obtain ⟨x, hx⟩ : ∃ x, pow precision d b = x := ⟨_, rfl⟩
    rw [hx] at hd ⊢
    cases hd with
    | overflow e _ => exact .inl ⟨e, rfl⟩
    | exact hfits => exact .inr ⟨_, rfl, toRat_power hfits⟩

/-- At one digit, for the exponent 15. -/
theorem pow_exact_iff_fifteen :
    ((1 : Int32) ≤ 1 ∧ (ofInt 15).toRat = (15 : ℕ)) ∧
    ((∀ d, (∃ e, pow 1 d (ofInt 15) = .error (.exponentOverflow e)) ∨
        ∃ r, pow 1 d (ofInt 15) = .ok (some r) ∧ r.toRat = d.toRat ^ 15) ↔
      HalvesExactly 1 15) := by
  have hp : (1 : Int32) ≤ 1 := by decide
  have hb : (ofInt 15).toRat = (15 : ℕ) := toRat_ofInt 15
  exact ⟨⟨hp, hb⟩, pow_exact_iff hp hb⟩

/-- Halved four times at one digit, 15 comes to 1 instead of 0, and the power to that of 31. -/
theorem pow_two_fifteen :
    pow 1 (ofInt 2) (ofInt 15) = .ok (some (ofInt (2 ^ 31))) ∧
      (ofInt (2 ^ 31)).toRat ≠ (ofInt 2).toRat ^ 15 := by
  refine ⟨by decide, ?_⟩
  rw [toRat_ofInt, toRat_ofInt]
  norm_num

end ScriptEngine.Decimal
