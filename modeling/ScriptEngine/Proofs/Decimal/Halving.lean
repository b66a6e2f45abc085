import ScriptEngine.Proofs.Decimal.IntegerParts
import ScriptEngine.Proofs.Decimal.Power

/-!
# Halving an exponent comes to an end

A power needs the one of half its exponent, until the integer part of the exponent is zero. Halves
are rounded, so exponents do not go down to zero, but to one unit of the precision, and what they
are farther from zero than a unit is halved each time (`HalvesIn.half`). At a precision of
one digit or more a unit is less than one. So the exponents come below one (`HalvesIn.halved`), and
the recursion is well-founded (`HalvesIn.acc`). The number of steps that `Decimal.pow` allows itself
is then no more than a way to write the recursion down: with any more of them the answer
is the same (`HalvesIn.powWithin_eq`), and it satisfies the equation of the recursion (`pow_eq`).

At a precision of zero digits and less a unit is not less than one, and its half is rounded to
a unit again (`halved_unit`).
-/

namespace ScriptEngine.Decimal

/-- The exponent after `k` halvings. -/
def halved (precision : Int32) (b : Decimal) : ℕ → Except Trap Decimal
  | 0 => .ok b
  | k + 1 => (halved precision b k).bind (divRound · (ofInt 2) precision)

/-- The power of `a` with exponent `b` needs the one with exponent `x`. -/
structure Needs (precision : Int32) (a x b : Decimal) : Prop where
  nonzero : b.intPart ≠ 0
  defined : ¬ (b.intPart < 0 ∧ a.isZero = true)
  half : b.divRound (ofInt 2) precision = .ok x

/-- One step of the recursion: the power with exponent `b`, if `power` answers the one that it
needs. -/
def powFrom (precision : Int32) (a : Decimal) (power : Decimal → Except Trap (Option Decimal))
    (b : Decimal) : Except Trap (Option Decimal) :=
  if b.intPart = 0 then .ok (some (ofInt 1))
  else if b.intPart < 0 ∧ a.isZero then .ok none
  else do
    let exponent ← divRound b (ofInt 2) precision
    match ← power exponent with
    | none => return none
    | some half => foldHalf precision a b.intPart half

/-- A power with one step more is a step of the recursion. -/
theorem powWithin_eq_powFrom (precision : Int32) (a b : Decimal) (k : ℕ) :
    powWithin (k + 1) precision a b = powFrom precision a (powWithin k precision a) b := rfl

section

variable {precision : Int32} {a b x : Decimal} {k : ℕ}

/-- A step depends on the power that it needs only. -/
theorem powFrom_congr {f g : Decimal → Except Trap (Option Decimal)}
    (h : ∀ x, Needs precision a x b → f x = g x) :
    powFrom precision a f b = powFrom precision a g b := by
  unfold powFrom
  split
  · rfl
  · next hnonzero =>
    split
    · rfl
    -- the exponent is halved, and the step goes on with the power of the half
    · next hdefined =>
      cases hhalf : divRound b (ofInt 2) precision with
      | error t => rfl
      | ok x =>
        have hx := h x ⟨hnonzero, hdefined, hhalf⟩
        simp only [bind, Except.bind, hx]

/-! ### Toward one unit -/

/-- The exponent is farther from zero than a unit, if at all, by less than `2 ^ k` times as much as
one is. -/
def HalvesIn (precision : Int32) (k : ℕ) (b : Decimal) : Prop :=
  |b.toRat| - 10 ^ (-precision.toInt) < (1 - 10 ^ (-precision.toInt)) * 2 ^ k

/-- One unit of a positive precision. -/
theorem unit_le_tenth (hp : 1 ≤ precision) : (10 : ℚ) ^ (-precision.toInt) ≤ 1 / 10 := by
  have hp' : 1 ≤ precision.toInt := Int32.le_iff_toInt_le.mp hp
  calc (10 : ℚ) ^ (-precision.toInt) ≤ 10 ^ (-1 : ℤ) :=
        -- a unit gets smaller with each digit
        zpow_le_zpow_right₀ (by norm_num) (by omega)
    _ = 1 / 10 := by norm_num

/-- One halving more than the integer part has binary digits is enough. -/
theorem halvesIn_log2 (hp : 1 ≤ precision) (b : Decimal) :
    HalvesIn precision ((towardZero b.toRat).natAbs.log2 + 2) b := by
  have hunit := unit_le_tenth hp
  have hpos : (0 : ℚ) < 10 ^ (-precision.toInt) := zpow_pos (by norm_num) _
  obtain ⟨n, hn⟩ : ∃ n, (towardZero b.toRat).natAbs = n := ⟨_, rfl⟩
  -- the distance from zero is less than the next integer
  have hlt : |b.toRat| < n + 1 := by
    have hfloor : (n : ℤ) = ⌊|b.toRat|⌋ := hn ▸ natAbs_towardZero b.toRat
    have hlt := Int.lt_floor_add_one |b.toRat|
    rwa [← hfloor, Int.cast_natCast] at hlt
  have hbits : (n : ℚ) + 1 ≤ 2 ^ (n.log2 + 1) := by
    exact_mod_cast Nat.succ_le_of_lt Nat.lt_log2_self
  rw [hn, HalvesIn, pow_succ]
  -- a unit is at most a tenth, so what is lost by it is within the last halving
  nlinarith

/-- Below one there is nothing to halve. -/
theorem HalvesIn.intPart_eq_zero (h : HalvesIn precision 0 b) : b.intPart = 0 := by
  rw [HalvesIn, pow_zero, mul_one, sub_lt_sub_iff_right] at h
  exact intPart_eq_zero_iff.mpr h

/-- **A half is nearer to one unit,** though it is rounded. -/
theorem HalvesIn.half (h : HalvesIn precision (k + 1) b) (hp : 1 ≤ precision) :
    ∃ x, b.divRound (ofInt 2) precision = .ok x ∧ HalvesIn precision k x := by
  have hpos : (0 : ℚ) < 10 ^ (-precision.toInt) := zpow_pos (by norm_num) _
  obtain ⟨x, hx, hnearest⟩ := exists_half hp b
  refine ⟨x, hx, ?_⟩
  -- the half is off by half a unit at most
  have hfar : |x.toRat| ≤ |b.toRat| / 2 + 10 ^ (-precision.toInt) / 2 := by
    have hdist := hnearest.abs_sub_le hpos
    have htri := abs_sub_abs_le_abs_sub x.toRat (b.toRat / 2)
    rw [abs_sub_comm, abs_div, abs_two] at htri
    linarith
  rw [HalvesIn, pow_succ] at h
  rw [HalvesIn]
  linarith

/-- The only half there is. -/
theorem HalvesIn.of_needs (h : HalvesIn precision (k + 1) b) (hp : 1 ≤ precision)
    (hx : Needs precision a x b) : HalvesIn precision k x := by
  obtain ⟨y, hy, hhalves⟩ := h.half hp
  obtain rfl := Except.ok.inj (hy.symm.trans hx.half)
  exact hhalves

/-- After so many halvings the integer part is zero. -/
theorem HalvesIn.halved (h : HalvesIn precision k b) (hp : 1 ≤ precision) :
    ∃ x, halved precision b k = .ok x ∧ x.intPart = 0 := by
  -- each halving takes one from the number of those that are left
  have steps : ∀ j l, HalvesIn precision (l + j) b →
      ∃ x, Decimal.halved precision b j = .ok x ∧ HalvesIn precision l x := by
    intro j
    induction j with
    | zero => exact fun l hl => ⟨b, rfl, hl⟩
    | succ j ih =>
      intro l hl
      obtain ⟨x, hx, hhalves⟩ := ih (l + 1) (by rwa [Nat.add_right_comm])
      obtain ⟨y, hy, hlast⟩ := hhalves.half hp
      exact ⟨y, by rw [Decimal.halved, hx]; exact hy, hlast⟩
  obtain ⟨x, hx, hlast⟩ := steps k 0 (by rwa [Nat.zero_add])
  exact ⟨x, hx, hlast.intPart_eq_zero⟩

/-! ### The recursion -/

/-- **The exponents that a power needs lead to an end.** -/
theorem HalvesIn.acc (h : HalvesIn precision k b) (hp : 1 ≤ precision) (a : Decimal) :
    Acc (Needs precision a) b := by
  induction k generalizing b with
  | zero => exact .intro b fun x hx => absurd h.intPart_eq_zero hx.nonzero
  | succ k ih => exact .intro b fun x hx => ih (h.of_needs hp hx)

/-- More steps than are needed make no difference. -/
theorem HalvesIn.powWithin_eq (h : HalvesIn precision k b) (hp : 1 ≤ precision) (a : Decimal)
    {m n : ℕ} (hm : k < m) (hn : k < n) :
    powWithin m precision a b = powWithin n precision a b := by
  induction k generalizing b m n with
  -- below one there is nothing that the power needs
  | zero =>
    obtain ⟨m, rfl⟩ := Nat.exists_eq_add_one_of_ne_zero (Nat.ne_zero_of_lt hm)
    obtain ⟨n, rfl⟩ := Nat.exists_eq_add_one_of_ne_zero (Nat.ne_zero_of_lt hn)
    rw [powWithin_eq_powFrom, powWithin_eq_powFrom]
    exact powFrom_congr fun x hx => absurd h.intPart_eq_zero hx.nonzero
  | succ k ih =>
    obtain ⟨m, rfl⟩ := Nat.exists_eq_add_one_of_ne_zero (Nat.ne_zero_of_lt hm)
    obtain ⟨n, rfl⟩ := Nat.exists_eq_add_one_of_ne_zero (Nat.ne_zero_of_lt hn)
    rw [powWithin_eq_powFrom, powWithin_eq_powFrom]
    -- both have a step left, and the powers that they need agree
    exact powFrom_congr fun x hx => ih (h.of_needs hp hx) (by omega) (by omega)

/-- So `pow` answers what is answered with any number of steps that is enough. -/
theorem HalvesIn.pow_eq_powWithin (h : HalvesIn precision k b) (hp : 1 ≤ precision) (a : Decimal)
    {n : ℕ} (hn : k < n) : pow precision a b = powWithin n precision a b := by
  obtain ⟨bits, hbits⟩ : ∃ bits, (towardZero b.toRat).natAbs.log2 = bits := ⟨_, rfl⟩
  have hown := halvesIn_log2 hp b
  rw [hbits] at hown
  rw [pow, coeff_rescale_zero, hbits]
  -- the bound that `pow` takes is one that is enough, too
  obtain hle | hle := le_total k (bits + 2)
  · exact h.powWithin_eq hp a (by omega) hn
  · exact hown.powWithin_eq hp a (by omega) (by omega)

/-- **Powers satisfy the equation of their recursion,** with no bound on the number of halvings. -/
theorem pow_eq (hp : 1 ≤ precision) (a b : Decimal) :
    pow precision a b = powFrom precision a (pow precision a) b := by
  have hhalves := halvesIn_log2 hp b
  obtain ⟨k, hk⟩ : ∃ k, (towardZero b.toRat).natAbs.log2 + 1 = k := ⟨_, rfl⟩
  rw [← Nat.add_assoc _ 1 1, hk] at hhalves
  -- both sides allow one halving more than the exponent needs
  rw [hhalves.pow_eq_powWithin hp a (Nat.lt_succ_self (k + 1)), powWithin_eq_powFrom]
  exact powFrom_congr fun x hx =>
    ((hhalves.of_needs hp hx).pow_eq_powWithin hp a (Nat.lt_succ_self k)).symm

/-! ### What powers are refused for -/

/-- What is computed after the other fails for none but its parts. -/
theorem bind_ne_error {ε α β : Type} {m : Except ε α} {f : α → Except ε β} {e : ε}
    (hm : m ≠ .error e) (hf : ∀ a, m = .ok a → f a ≠ .error e) : (m >>= f) ≠ .error e := by
  cases m with
  | error e' => exact fun h => hm (congrArg Except.error (Except.error.inj h))
  | ok a => exact hf a rfl

/-- A product is never given up for halving. -/
theorem mul_ne_endlessHalving (a b : Decimal) : a.mul b ≠ .error .endlessHalving := by
  unfold mul
  dsimp only
  split <;> nofun

/-- Nor is a quotient. -/
theorem divRound_ne_endlessHalving (a b : Decimal) (precision : Int32) :
    divRound a b precision ≠ .error .endlessHalving := by
  refine bind_ne_error ?_ fun (q, r) _ => ?_
  -- what a quotient is refused for is a zero, or an exponent
  · unfold quoRem
    split
    · nofun
    · dsimp only
      split <;> nofun
  · dsimp only
    split
    · nofun
    · split <;> nofun

/-- Nor what is made of the power of the half. -/
theorem foldHalf_ne_endlessHalving (precision : Int32) (a : Decimal) (n : ℤ) (half : Decimal) :
    foldHalf precision a n half ≠ .error .endlessHalving := by
  -- a square, and then a product or a quotient
  refine bind_ne_error (mul_ne_endlessHalving half half) fun square _ => ?_
  split
  · nofun
  · split
    · exact bind_ne_error (mul_ne_endlessHalving square a) nofun
    · exact bind_ne_error (divRound_ne_endlessHalving square a precision) nofun

/-- Nor is a power, if the one it needs is not. -/
theorem powFrom_ne_endlessHalving {power : Decimal → Except Trap (Option Decimal)}
    (h : ∀ x, Needs precision a x b → power x ≠ .error .endlessHalving) :
    powFrom precision a power b ≠ .error .endlessHalving := by
  unfold powFrom
  split
  · nofun
  · next hnonzero =>
    split
    · nofun
    · next hdefined =>
      -- the half is rounded, and the power of it is given up by assumption only
      refine bind_ne_error (divRound_ne_endlessHalving b (ofInt 2) precision) fun x hx => ?_
      refine bind_ne_error (h x ⟨hnonzero, hdefined, hx⟩) fun half _ => ?_
      cases half with
      | none => nofun
      | some half => exact foldHalf_ne_endlessHalving precision a b.intPart half

/-! ### The end of the recursion -/

/-- **The recursion of powers ends.** Let the precision be positive. Then for every base, no power
needs endlessly many others. For every exponent, halving it again and again is never refused, and
leads to one with an integer part of zero, in at most as many halvings as the integer part has
binary digits and one more. So powers satisfy the equation of their recursion, and are never given up
because halving does not end. -/
theorem pow_recursion_ends (hp : 1 ≤ precision) (a : Decimal) :
    WellFounded (Needs precision a) ∧
    ∀ b : Decimal,
      (∃ k ≤ (towardZero b.toRat).natAbs.log2 + 2, ∃ x,
        halved precision b k = .ok x ∧ x.intPart = 0) ∧
      pow precision a b = powFrom precision a (pow precision a) b ∧
      pow precision a b ≠ .error .endlessHalving := by
  have hwf : WellFounded (Needs precision a) := ⟨fun b => (halvesIn_log2 hp b).acc hp a⟩
  refine ⟨hwf, fun b => ⟨⟨_, le_rfl, (halvesIn_log2 hp b).halved hp⟩, pow_eq hp a b, ?_⟩⟩
  -- a power is refused for what it needs, or for a product or a quotient
  induction b using hwf.induction with
  | h b ih =>
    rw [pow_eq hp a b]
    exact powFrom_ne_endlessHalving ih

/-- At one digit, for an exponent below zero with a fraction. -/
theorem pow_recursion_ends_fraction :
    (1 : Int32) ≤ 1 ∧
    WellFounded (Needs 1 (ofInt 2)) ∧
    (∃ k ≤ (towardZero (⟨-155, -1⟩ : Decimal).toRat).natAbs.log2 + 2, ∃ x,
      halved 1 ⟨-155, -1⟩ k = .ok x ∧ x.intPart = 0) ∧
    pow 1 (ofInt 2) ⟨-155, -1⟩ = powFrom 1 (ofInt 2) (pow 1 (ofInt 2)) ⟨-155, -1⟩ ∧
    pow 1 (ofInt 2) ⟨-155, -1⟩ ≠ .error .endlessHalving := by
  have hp : (1 : Int32) ≤ 1 := by decide
  obtain ⟨hwf, hends⟩ := pow_recursion_ends hp (ofInt 2)
  exact ⟨hp, hwf, hends ⟨-155, -1⟩⟩

example : (halved 1 ⟨-155, -1⟩ 5).map (·.coeff) = .ok (-5) := by decide

/-! ### Without fractional digits -/

/-- At a precision of zero digits or less, one unit is halved to one unit again, and its integer
part is never zero. -/
theorem halved_unit (hp : precision ≤ 0) (hmin : precision ≠ Int32.minValue) (k : ℕ) :
    halved precision ⟨1, -precision⟩ k = .ok ⟨1, -precision⟩ ∧
      (⟨1, -precision⟩ : Decimal).intPart ≠ 0 := by
  have hp' : precision.toInt ≤ 0 := Int32.le_iff_toInt_le.mp hp
  have hfits := fits_neg_of_ne hmin
  have hexp : (-precision).toInt = -precision.toInt := toInt_neg_of_fits hfits
  have htwo : (ofInt 2).exp.toInt = 0 := rfl
  have hunit : (0 : ℚ) < 10 ^ (-precision.toInt) := zpow_pos (by norm_num) _
  constructor
  · -- half a unit is rounded up
    have hhalf : divRound ⟨1, -precision⟩ (ofInt 2) precision = .ok ⟨1, -precision⟩ := by
      obtain ⟨num, den, rest, hden, hs⟩ :
          ∃ num den rest, den ≠ 0 ∧ Scaled ⟨1, -precision⟩ (ofInt 2) precision num den rest :=
        exists_scaled_of_gap (by decide) (fun h => by dsimp only at h; omega)
          (fun _ => by rwa [htwo, zero_sub])
          (by rw [hexp, htwo, maxShift]; simp)
      have hquot : (num : ℚ) / den * 10 ^ (-precision.toInt) =
          (1 : ℤ) / (2 : ℤ) * 10 ^ (-precision.toInt) := by
        rw [← hs.quotient, toRat_mk, toRat_ofInt, hexp]
        push_cast
        ring
      have hnearest := isNearest_nearestQuotient num hden hunit
      rw [hquot] at hnearest
      have hsame := hnearest.unique (isNearest_nearestQuotient 1 two_ne_zero hunit)
      have hone : nearestQuotient num den = nearestQuotient 1 2 := by
        exact_mod_cast mul_right_cancel₀ hunit.ne' hsame
      rw [hs.divRound_eq, hone]
      rfl
    -- each half is the unit again
    induction k with
    | zero => rfl
    | succ k ih => rw [halved, ih]; exact hhalf
  -- one unit is one, or a greater power of ten
  · rw [ne_eq, intPart_eq_zero_iff, not_lt, toRat_mk, hexp, Int.cast_one, one_mul, abs_of_pos hunit]
    exact one_le_zpow₀ (by norm_num) (by omega)

end

end ScriptEngine.Decimal
