import Mathlib.Algebra.Order.Field.Basic
import Mathlib.Tactic.FieldSimp
import Mathlib.Tactic.Linarith
import Mathlib.Tactic.Positivity
import Mathlib.Tactic.Ring
import ScriptEngine.Binary64.Shortest

/-!
# The digits of the shortest decimal

The rounding interval of a double is wider than the grid of decimals with seventeen digits: it is at
least as wide as three quarters of the gap to the next double, and at a power of two, where it is no
wider, the grid has less than half of the gap between its points. So one of the two neighbours of the
double on that grid is in the interval (`Interval.nearest?_isSome`), and the search ends there at the
latest. The shortest decimal has at most seventeen digits, and none of them is a zero at the end
(`shortest_digits`).
-/

namespace ScriptEngine.Binary64

/-! ### Orders and powers -/

/-- A number is written with at least one digit. -/
theorem digitCount_pos (n : ℕ) : 0 < digitCount n := by
  rw [digitCount, ← String.length_toList, Nat.toList_repr]
  exact Nat.length_toDigits_pos

/-- The digits of a number tell between which powers of ten it is. -/
theorem digitCount_le_iff {n k : ℕ} (hk : 0 < k) : digitCount n ≤ k ↔ n < 10 ^ k := by
  rw [digitCount, ← String.length_toList, Nat.toList_repr]
  exact Nat.length_toDigits_le_iff (by decide) hk

theorem lt_pow_digitCount (n : ℕ) : n < 10 ^ digitCount n :=
  (digitCount_le_iff (digitCount_pos n)).mp le_rfl

/-- The first digit is not zero. -/
theorem pow_digitCount_le {n : ℕ} (hn : 0 < n) : 10 ^ (digitCount n - 1) ≤ n := by
  by_contra hlt
  obtain hone | hmore := Nat.eq_or_lt_of_le (digitCount_pos n)
  · rw [← hone] at hlt
    exact hlt hn
  · have := (digitCount_le_iff (Nat.sub_pos_of_lt hmore)).mpr (not_le.mp hlt)
    omega

/-- The two sides of a power of ten are positive. -/
theorem powTen_pos (e : ℤ) : 0 < (powTen e).1 ∧ 0 < (powTen e).2 := by
  unfold powTen
  split
  · exact ⟨Nat.pow_pos (by decide), Nat.one_pos⟩
  · exact ⟨Nat.one_pos, Nat.pow_pos (by decide)⟩

/-- Their quotient is the power. -/
theorem powTen_eq (e : ℤ) : ((powTen e).1 : ℚ) / (powTen e).2 = 10 ^ e := by
  unfold powTen
  split
  · next h =>
    obtain ⟨n, rfl⟩ := Int.eq_ofNat_of_zero_le h
    simp
  · next h =>
    obtain ⟨n, hn⟩ : ∃ n : ℕ, e = -n := ⟨(-e).toNat, by omega⟩
    subst hn
    simp

/-- A positive quotient is between two powers of ten that follow each other. -/
theorem decimalOrder_spec {num den : ℕ} (hnum : 0 < num) (hden : 0 < den) :
    (10 : ℚ) ^ (decimalOrder num den - 1) ≤ num / den ∧
      (num : ℚ) / den < 10 ^ decimalOrder num den := by
  have hden' : (0 : ℚ) < den := by exact_mod_cast hden
  have hnum' : (0 : ℚ) < num := by exact_mod_cast hnum
  unfold decimalOrder
  split
  -- from one on, the order is the number of digits before the point
  · next hle =>
    have hpos := digitCount_pos (num / den)
    have hlow : 10 ^ (digitCount (num / den) - 1) * den ≤ num :=
      (Nat.le_div_iff_mul_le hden).mp (pow_digitCount_le (Nat.div_pos hle hden))
    have hhigh : num < 10 ^ digitCount (num / den) * den :=
      (Nat.div_lt_iff_lt_mul hden).mp (lt_pow_digitCount _)
    have hexp : (digitCount (num / den) : ℤ) - 1 = (digitCount (num / den) - 1 : ℕ) := by omega
    rw [hexp, zpow_natCast, zpow_natCast, le_div_iff₀ hden', div_lt_iff₀ hden']
    exact_mod_cast And.intro hlow hhigh
  -- below one, it is the number of zeros behind it, with a minus
  · next hlt =>
    obtain ⟨c, hc⟩ : ∃ c, digitCount ((den - 1) / num) = c + 1 :=
      Nat.exists_eq_add_one.mpr (digitCount_pos _)
    have hlow : den ≤ 10 ^ (c + 1) * num := by
      have := (Nat.div_lt_iff_lt_mul hnum).mp (lt_pow_digitCount ((den - 1) / num))
      rw [hc] at this
      omega
    have hhigh : 10 ^ c * num < den := by
      -- one over ten is the border, where no zero stands behind the point
      obtain hzero | hpos := Nat.eq_zero_or_pos ((den - 1) / num)
      · rw [hzero] at hc
        obtain rfl : c = 0 := Nat.succ.inj hc.symm
        omega
      · have := (Nat.le_div_iff_mul_le hnum).mp (pow_digitCount_le hpos)
        rw [hc, Nat.add_sub_cancel] at this
        omega
    have hexp : 1 - ((c + 1 : ℕ) : ℤ) = -(c : ℤ) := by omega
    have hexp' : -(c : ℤ) - 1 = -((c + 1 : ℕ) : ℤ) := by omega
    rw [hc, hexp, hexp', zpow_neg, zpow_neg, zpow_natCast, zpow_natCast]
    have hlow' : (den : ℚ) ≤ 10 ^ (c + 1) * num := by exact_mod_cast hlow
    have hhigh' : (10 : ℚ) ^ c * num < den := by exact_mod_cast hhigh
    constructor
    · rw [inv_le_comm₀ (by positivity) (by positivity), inv_div, div_le_iff₀ hnum']
      exact hlow'
    · rw [lt_inv_comm₀ (by positivity) (by positivity), inv_div, lt_div_iff₀ hnum']
      exact hhigh'

/-- A quotient on a grid with so many digits before its point. -/
theorem grid_bounds {num den : ℕ} (hnum : 0 < num) (hden : 0 < den) (digits : ℕ) :
    let p := powTen (decimalOrder num den - (digits + 1 : ℕ))
    10 ^ digits * (den * p.1) ≤ num * p.2 ∧ num * p.2 < 10 ^ (digits + 1) * (den * p.1) := by
  intro p
  obtain ⟨hup, hdown⟩ : (0 : ℚ) < p.1 ∧ (0 : ℚ) < p.2 := by exact_mod_cast powTen_pos _
  have hden' : (0 : ℚ) < den := by exact_mod_cast hden
  have hstep : (p.1 : ℚ) / p.2 = 10 ^ (decimalOrder num den - (digits + 1 : ℕ)) := powTen_eq _
  obtain ⟨hlow, hhigh⟩ := decimalOrder_spec hnum hden
  -- both bounds are the order, shifted by the digits of the grid
  have hlow' : 10 ^ digits * ((p.1 : ℚ) / p.2) ≤ num / den := by
    refine le_of_eq_of_le ?_ hlow
    rw [hstep, ← zpow_natCast, ← zpow_add₀ (by norm_num)]
    congr 1
    omega
  have hhigh' : (num : ℚ) / den < 10 ^ (digits + 1) * (p.1 / p.2) := by
    refine lt_of_lt_of_eq hhigh ?_
    rw [hstep, ← zpow_natCast, ← zpow_add₀ (by norm_num)]
    congr 1
    omega
  rw [← mul_div_assoc, div_le_div_iff₀ hdown hden'] at hlow'
  rw [← mul_div_assoc, div_lt_div_iff₀ hden' hdown] at hhigh'
  constructor
  · have : (10 : ℚ) ^ digits * (den * p.1) ≤ num * p.2 := by linarith
    exact_mod_cast this
  · have : (num : ℚ) * p.2 < 10 ^ (digits + 1) * (den * p.1) := by linarith
    exact_mod_cast this

/-! ### Neighbours on a grid -/

section

variable {i : Interval} {e : ℤ} {d : ℕ}

/-- A point strictly between the ends is in the interval, be these in it or not. -/
theorem Interval.has_of_lt (hlow : i.low * (powTen e).2 < d * (i.den * (powTen e).1))
    (hhigh : d * (i.den * (powTen e).1) < i.high * (powTen e).2) : i.has d e = true := by
  have hpoint : d * (powTen e).1 * i.den = d * (i.den * (powTen e).1) := by ring
  unfold has
  dsimp only
  rw [hpoint]
  split
  · exact decide_eq_true ⟨hlow.le, hhigh.le⟩
  · exact decide_eq_true ⟨hlow, hhigh⟩

/-- What is in an interval of positive numbers is positive. -/
theorem Interval.pos_of_has (hlow : 0 < i.low) (h : i.has d e = true) : 0 < d := by
  have hends : 0 < i.low * (powTen e).2 := Nat.mul_pos hlow (powTen_pos e).2
  unfold has at h
  dsimp only at h
  rw [mul_assoc] at h
  split at h
  · have hle := (of_decide_eq_true h).1
    exact Nat.pos_of_mul_pos_right (lt_of_lt_of_le hends hle)
  · have hlt := (of_decide_eq_true h).1
    exact Nat.pos_of_mul_pos_right (hends.trans hlt)

/-- The neighbours are the greatest point that is not above the value, and the next one. -/
theorem Interval.nearest?_eq_some (h : i.nearest? e = some d) :
    i.has d e = true ∧ d ≤ i.value * (powTen e).2 / (i.den * (powTen e).1) + 1 := by
  unfold nearest? at h
  dsimp only at h
  obtain ⟨below, hbelow⟩ :
      ∃ below, i.value * (powTen e).2 / (i.den * (powTen e).1) = below := ⟨_, rfl⟩
  rw [hbelow] at h ⊢
  -- whichever of the two is taken, it is in the interval
  have lower : i.has below e = true → some below = some d →
      i.has d e = true ∧ d ≤ below + 1 := by
    rintro hlower ⟨⟩
    exact ⟨hlower, Nat.le_succ _⟩
  have upper : i.has (below + 1) e = true → some (below + 1) = some d →
      i.has d e = true ∧ d ≤ below + 1 := by
    rintro hupper ⟨⟩
    exact ⟨hupper, le_rfl⟩
  split_ifs at h with hboth hless hmore heven hlower hupper
  · exact lower (Bool.and_eq_true_iff.mp hboth).1 h
  · exact upper (Bool.and_eq_true_iff.mp hboth).2 h
  · exact lower (Bool.and_eq_true_iff.mp hboth).1 h
  · exact upper (Bool.and_eq_true_iff.mp hboth).2 h
  · exact lower hlower h
  · exact upper hupper h

/-- An interval that is wider than the grid has one of the neighbours in it. -/
theorem Interval.nearest?_isSome (hlow : i.low ≤ i.value) (hhigh : i.value < i.high)
    (hden : 0 < i.den)
    (hwide : i.den * (powTen e).1 + i.low * (powTen e).2 < i.high * (powTen e).2) :
    (i.nearest? e).isSome := by
  obtain ⟨hup, hdown⟩ := powTen_pos e
  have hvalue : i.value * (powTen e).2 < i.high * (powTen e).2 :=
    Nat.mul_lt_mul_of_pos_right hhigh hdown
  have hends : i.low * (powTen e).2 ≤ i.value * (powTen e).2 := Nat.mul_le_mul_right _ hlow
  obtain ⟨below, hbelow⟩ :
      ∃ below, i.value * (powTen e).2 / (i.den * (powTen e).1) = below := ⟨_, rfl⟩
  -- the value is between the two neighbours
  have hbelow_le : below * (i.den * (powTen e).1) ≤ i.value * (powTen e).2 := by
    rw [← hbelow]
    exact Nat.div_mul_le_self _ _
  have hlt_above : i.value * (powTen e).2 < (below + 1) * (i.den * (powTen e).1) := by
    rw [← hbelow]
    exact Nat.lt_mul_of_div_lt (Nat.lt_succ_self _) (Nat.mul_pos hden hup)
  have hneighbour : i.has below e = true ∨ i.has (below + 1) e = true := by
    -- the lower neighbour is in the interval, or it is below it, and then the grid is so fine that
    -- the upper one is
    by_cases hlower : i.low * (powTen e).2 < below * (i.den * (powTen e).1)
    · exact .inl (has_of_lt hlower (hbelow_le.trans_lt hvalue))
    · refine .inr (has_of_lt (hends.trans_lt hlt_above) ?_)
      rw [Nat.succ_mul]
      omega
  unfold nearest?
  dsimp only
  rw [hbelow]
  split_ifs with _ _ _ _ hlower hupper
  all_goals first
    | rfl
    | exact (hneighbour.elim hlower hupper).elim

end

/-! ### The search -/

/-- If the grid with `digits + steps` digits has a point, the search ends with a point of a grid with
no more digits. -/
theorem Interval.search_of_isSome {i : Interval} {order : ℤ} {fuel digits : ℕ}
    (hsome : (i.nearest? (order - (digits + fuel : ℕ))).isSome) :
    ∃ k, digits ≤ k ∧ k ≤ digits + fuel ∧
      i.nearest? (order - k) = some (i.search order (fuel + 1) digits).1 := by
  -- on the steps that are left: a grid with a point ends the search, and one without has one digit
  -- less than the next
  induction fuel generalizing digits with
  | zero =>
    obtain ⟨d, hd⟩ := Option.isSome_iff_exists.mp hsome
    refine ⟨digits, le_rfl, le_rfl, ?_⟩
    rw [Nat.add_zero] at hd
    rw [search, hd]
  | succ fuel ih =>
    rw [search]
    split
    · next d hd => exact ⟨digits, le_rfl, Nat.le_add_right _ _, hd⟩
    · have hshift : digits + (fuel + 1) = digits + 1 + fuel := by omega
      rw [hshift] at hsome ⊢
      obtain ⟨k, hk, hk', hd⟩ := ih hsome
      exact ⟨k, Nat.le_of_succ_le hk, hk', hd⟩

/-! ### Zeros at the end -/

/-- Dropping zeros makes a number no greater. -/
theorem dropZeros_le (fuel d : ℕ) (e : ℤ) : (dropZeros fuel d e).1 ≤ d := by
  induction fuel generalizing d e with
  | zero => exact le_rfl
  | succ fuel ih =>
    rw [dropZeros]
    split
    · exact (ih _ _).trans (Nat.div_le_self _ _)
    · exact le_rfl

/-- No zeros are left if there were no more than could be dropped. -/
theorem dropZeros_mod {fuel d : ℕ} (hd : 0 < d) (hfuel : d < 10 ^ fuel) (e : ℤ) :
    (dropZeros fuel d e).1 % 10 ≠ 0 := by
  -- on the number of zeros that may be dropped, which bounds the number
  induction fuel generalizing d e with
  | zero => omega
  | succ fuel ih =>
    rw [dropZeros]
    split
    · next hzero =>
      rw [pow_succ] at hfuel
      exact ih (by omega) (by omega) _
    · next hdigit => exact hdigit

/-! ### Seventeen digits -/

/-- The numerator of a positive magnitude is positive. -/
theorem magnitude_num_pos {m : ℕ} (hm : 0 < m) (q : ℤ) : 0 < (magnitude m q).1 := by
  unfold magnitude
  split
  · exact Nat.mul_pos hm (Nat.pow_pos (by decide))
  · exact hm

/-- A double is inside of its interval, which is as wide as the gap to the next double, or three
quarters of it at a power of two. -/
theorem Interval.of_spec {m : ℕ} (hm : 0 < m) (q : ℤ) :
    let i := Interval.of m q
    ∃ quarter, 0 < quarter ∧ 0 < i.den ∧ 0 < i.low ∧ i.low ≤ i.value ∧ i.value < i.high ∧
      i.value = 4 * m * quarter ∧
      (i.low + 4 * quarter ≤ i.high ∨ m = 4503599627370496 ∧ i.low + 3 * quarter ≤ i.high) := by
  intro i
  obtain ⟨quarter, hquarter⟩ : ∃ u, (magnitude 1 (q - 2)).1 = u := ⟨_, rfl⟩
  obtain ⟨below, hbelow⟩ :
      ∃ b, (if m = 4503599627370496 ∧ -1074 < q then 1 else 2) = b := ⟨_, rfl⟩
  have hpos : 0 < quarter := hquarter ▸ magnitude_num_pos Nat.one_pos _
  -- in quarters of the gap, the ends are two or, at a power of two, one below the value, and two
  -- above it
  have hlow : i.low = (4 * m - below) * quarter := by
    rw [← hquarter, ← hbelow]
    rfl
  have hvalue : i.value = 4 * m * quarter := by
    rw [← hquarter]
    rfl
  have hhigh : i.high = (4 * m + 2) * quarter := by
    rw [← hquarter]
    rfl
  have hbelow_le : below = 2 ∨ m = 4503599627370496 ∧ below = 1 := by
    rw [← hbelow]
    split
    · next h => exact .inr ⟨h.1, rfl⟩
    · exact .inl rfl
  refine ⟨quarter, hpos, magnitude_den_pos 1 (q - 2), ?_, ?_, ?_, hvalue, ?_⟩
  · rw [hlow]
    exact Nat.mul_pos (by omega) hpos
  · rw [hlow, hvalue]
    exact Nat.mul_le_mul_right _ (Nat.sub_le _ _)
  · rw [hvalue, hhigh]
    exact Nat.mul_lt_mul_of_pos_right (by omega) hpos
  -- so the width is four quarters or three
  · rw [hlow, hhigh, ← Nat.add_mul, ← Nat.add_mul]
    refine hbelow_le.imp (fun h => ?_) fun ⟨hm, h⟩ => ⟨hm, ?_⟩
    · exact Nat.mul_le_mul_right _ (by omega)
    · exact Nat.mul_le_mul_right _ (by omega)

/-- A step of a grid on which a double has more than sixteen digits is less than the width of its
interval, if the double is not too large a multiple of its unit. -/
theorem step_lt_width {m quarter low high width step down : ℕ}
    (hgrid : 10 ^ 16 * step ≤ 4 * m * quarter * down) (hends : low + width * quarter ≤ high)
    (hm : 4 * m < width * 10 ^ 16) (hquarter : 0 < quarter) (hdown : 0 < down) :
    step + low * down < high * down := by
  have hunit : 0 < quarter * down := Nat.mul_pos hquarter hdown
  -- both sides are counted in the unit of the grid
  have hstep : 10 ^ 16 * step < 10 ^ 16 * (width * (quarter * down)) := by
    calc 10 ^ 16 * step ≤ 4 * m * (quarter * down) := by
          rw [← mul_assoc]
          exact hgrid
      _ < width * 10 ^ 16 * (quarter * down) := Nat.mul_lt_mul_of_pos_right hm hunit
      _ = 10 ^ 16 * (width * (quarter * down)) := by ring
  have hends' : low * down + width * (quarter * down) ≤ high * down := by
    rw [← mul_assoc, ← Nat.add_mul]
    exact Nat.mul_le_mul_right down hends
  have := Nat.lt_of_mul_lt_mul_left hstep
  omega

/-- **Seventeen digits are enough,** and there is no zero at the end of them. -/
theorem shortest_digits {m : ℕ} (hm : 0 < m) (hmax : m < 9007199254740992) (q : ℤ) :
    (shortest m q).1 < 10 ^ 17 ∧ (shortest m q).1 % 10 ≠ 0 := by
  obtain ⟨i, hi⟩ : ∃ i, Interval.of m q = i := ⟨_, rfl⟩
  obtain ⟨quarter, hquarter, hden, hlowpos, hlow, hhigh, hvalue, hwidth⟩ := Interval.of_spec hm q
  rw [hi] at hden hlowpos hlow hhigh hvalue hwidth
  have hpos : 0 < i.value := hlowpos.trans_le hlow
  obtain ⟨order, horder⟩ : ∃ k, decimalOrder i.value i.den = k := ⟨_, rfl⟩
  -- with seventeen digits, the grid is finer than the interval is wide
  have hsome : (i.nearest? (order - (1 + 16 : ℕ))).isSome := by
    obtain ⟨hgrid, -⟩ := grid_bounds hpos hden 16
    rw [horder, hvalue] at hgrid
    obtain ⟨-, hdown⟩ := powTen_pos (order - (16 + 1 : ℕ))
    refine Interval.nearest?_isSome hlow hhigh hden ?_
    obtain h | ⟨rfl, h⟩ := hwidth
    · exact step_lt_width hgrid h (by omega) hquarter hdown
    · exact step_lt_width hgrid h (by decide) hquarter hdown
  obtain ⟨k, hk, hk', hd⟩ := Interval.search_of_isSome hsome
  obtain ⟨hhas, hle⟩ := Interval.nearest?_eq_some hd
  obtain ⟨d, hdef⟩ : ∃ d, i.search order 17 1 = d := ⟨_, rfl⟩
  rw [hdef] at hhas hle
  -- what is found is on a grid of at most seventeen digits, and may be the next power of ten
  have hle' : d.1 ≤ 10 ^ 17 := by
    obtain ⟨digits, rfl⟩ : ∃ digits, k = digits + 1 := Nat.exists_eq_add_one.mpr hk
    obtain ⟨-, hgrid⟩ := grid_bounds hpos hden digits
    rw [horder] at hgrid
    have hquot := Nat.div_lt_of_lt_mul (mul_comm (10 ^ (digits + 1)) _ ▸ hgrid)
    have hpow : 10 ^ (digits + 1) ≤ 10 ^ 17 := Nat.pow_le_pow_right (by decide) (by omega)
    omega
  have hshortest : shortest m q = dropZeros 20 d.1 d.2 := by
    rw [shortest, if_neg hm.ne']
    dsimp only
    rw [hi, horder, hdef]
  -- seventeen digits have fewer than twenty zeros
  have hmod := dropZeros_mod (Interval.pos_of_has hlowpos hhas) (by omega : d.1 < 10 ^ 20) d.2
  have hdrop := dropZeros_le 20 d.1 d.2
  rw [hshortest]
  omega

/-- The mantissa of a double has 53 bits. -/
theorem lt_of_parts_eq {x : Float} {negative : Bool} {m : ℕ} {q : ℤ}
    (h : parts x = .finite negative m q) : m < 9007199254740992 := by
  have hfraction : x.toBits.toNat % 4503599627370496 < 4503599627370496 := Nat.mod_lt _ (by decide)
  unfold parts Parts.ofBits at h
  dsimp only at h
  split at h
  · split at h <;> exact nomatch h
  -- a subnormal double has the fraction only, a normal one a bit above it
  · split at h
    · obtain ⟨-, rfl, -⟩ := Parts.finite.inj h
      omega
    · obtain ⟨-, rfl, -⟩ := Parts.finite.inj h
      omega

end ScriptEngine.Binary64
