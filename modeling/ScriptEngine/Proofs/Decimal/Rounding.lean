import ScriptEngine.Proofs.Decimal.Canonical

/-!
# Rounding to a number of places

`Decimal.round` cuts the number off one digit behind the wanted places and rounds that digit away
(`roundLast`). What has been cut off before does not matter: a rest of a half and more is cut to the
digit five or a greater one, and a lesser rest to a lesser digit (`roundLast_tdiv`). So the result
is the quotient rounded to nearest, as in a division.

`Decimal.fixedText` writes the result with all of its places. The digits that are written make a
literal, `fullLiteral`, which denotes the number and has no more zeros in front than needed.
-/

namespace ScriptEngine.Decimal

open Text (Sign AllDigits)

/-! ### The last digit -/

/-- An integer without its last digit, five and more of which round away from zero. -/
def roundLast (w : ℤ) : ℤ := (if w < 0 then w - 5 else w + 5).tdiv 10

/-- Rounding treats both sides of zero alike. -/
theorem roundLast_neg (w : ℤ) : roundLast (-w) = -roundLast w := by
  unfold roundLast
  rw [← Int.neg_tdiv]
  -- on the two sides of zero the two branches are turned round
  obtain h | rfl | h := lt_trichotomy w 0
  · rw [if_neg (by omega), if_pos h]
    congr 1
    omega
  · rfl
  · rw [if_pos (by omega), if_neg (by omega)]
    congr 1
    omega

/-- **Cutting off before the last digit is rounded makes no difference.** -/
theorem roundLast_tdiv (n : ℤ) {m : ℤ} (hm : 0 < m) :
    roundLast (n.tdiv m) = nearestQuotient n (m * 10) := by
  have hd : 0 < m * 10 := by omega
  have of_nonneg : ∀ {n : ℤ}, 0 ≤ n → roundLast (n.tdiv m) = nearestQuotient n (m * 10) := by
    intro n hn
    -- the nearest quotient is within half a unit of the exact one
    obtain ⟨-, hlo, hhi⟩ := nearestQuotient_bounds hn hd
    have hquot : 0 ≤ n / m := Int.ediv_nonneg hn hm.le
    -- both are the integer part of the quotient and a half
    calc roundLast (n.tdiv m)
        = (n / m + 5) / 10 := by
          rw [roundLast, Int.tdiv_eq_ediv_of_nonneg hn, if_neg (by omega),
            Int.tdiv_eq_ediv_of_nonneg (by omega)]
      _ = (n + 5 * m) / (m * 10) := by
          rw [← Int.ediv_ediv_of_nonneg hm.le, Int.add_mul_ediv_right _ _ hm.ne']
      _ = nearestQuotient n (m * 10) := by
          rw [Int.ediv_eq_iff_of_pos hd]
          constructor <;> linarith
  -- a dividend below zero is the opposite of one above
  obtain hn | hn := le_total 0 n
  · exact of_nonneg hn
  · have hneg := of_nonneg (neg_nonneg.mpr hn)
    rwa [Int.neg_tdiv, roundLast_neg, nearestQuotient_neg_left n hd.ne', neg_inj] at hneg

/-! ### The number that is rounded -/

/-- A coefficient at another exponent is an integer quotient, and the number the exact one. -/
theorem exists_rescale_eq_tdiv (a : Decimal) (e : Int32) :
    ∃ n m : ℤ, 0 < m ∧ (a.rescale e).coeff = n.tdiv m ∧ a.toRat = n / m * 10 ^ e.toInt := by
  have hunit : (10 : ℚ) ^ e.toInt ≠ 0 := (unit_pos e).ne'
  obtain h | h := Int32.lt_or_le a.exp e
  · -- digits are dropped
    have he : a.exp.toInt < e.toInt := Int32.lt_iff_toInt_lt.mp h
    -- as many digits go as the exponent is raised by
    obtain ⟨k, hk⟩ : ∃ k : ℕ, e.toInt = a.exp.toInt + k :=
      ⟨(e.toInt - a.exp.toInt).toNat, by omega⟩
    have hshift : (e.toInt - a.exp.toInt).toNat = k := by omega
    refine ⟨a.coeff, tenPow k, tenPow_pos k, ?_, ?_⟩
    · unfold rescale
      rw [if_pos (by omega), hshift]
    · rw [toRat, hk, zpow_add₀ (by norm_num), zpow_natCast, cast_tenPow]
      field_simp
  -- no digit is dropped, so the quotient is by one
  · refine ⟨(a.rescale e).coeff, 1, one_pos, (Int.tdiv_one _).symm, ?_⟩
    rw [← toRat_rescale_of_le h, toRat, rescale_exp, Int.cast_one, div_one]

section

variable {places : Int32}

/-- What `round` computes. -/
theorem round_eq (a : Decimal) :
    a.round places = ⟨roundLast (a.rescale (-places - 1)).coeff, -places⟩ := by
  -- the exponent that is rounded to is one below the places
  have hexp : (a.rescale (-places - 1)).exp + 1 = -places := by
    rw [rescale_exp]
    exact Int32.sub_add_cancel _ _
  exact congrArg (Decimal.mk (roundLast (a.rescale (-places - 1)).coeff)) hexp

/-- What comes out counts units of the last place. -/
theorem isNearest_round (a : Decimal) (hp : places ≠ Int32.minValue) :
    IsNearest (10 ^ (-places.toInt)) a.toRat (a.round places).toRat := by
  have hfits := fits_neg_of_ne hp
  have hexp : (-places).toInt = -places.toInt := toInt_neg_of_fits hfits
  -- the exponent before it is in range, as the places have an opposite
  have hnext : (-places - 1).toInt = -places.toInt - 1 := by
    have hone : (1 : Int32).toInt = 1 := rfl
    rw [Int32.toInt_sub, hexp, hone]
    exact Int.bmod_eq_of_le (by have := places.toInt_lt; omega) (by have := hfits.2; omega)
  obtain ⟨n, m, hm, hcoeff, hval⟩ := exists_rescale_eq_tdiv a (-places - 1)
  have hunits : a.toRat = n / (m * 10 : ℤ) * 10 ^ (-places.toInt) := by
    rw [hval, hnext, zpow_sub₀ (by norm_num), zpow_one]
    push_cast
    field_simp
  rw [hunits, round_eq, toRat_mk, hcoeff, roundLast_tdiv n hm, hexp]
  exact isNearest_nearestQuotient n (by omega) (zpow_pos (by norm_num) _)

end

/-! ### The text -/

/-- Digits of an integer part start with a zero only if that is all of them. -/
theorem splitDigits_head (n p : ℕ)
    (h : (splitDigits (Nat.toDigits 10 n) p).1.head? = some '0') :
    (splitDigits (Nat.toDigits 10 n) p).1 = ['0'] := by
  unfold splitDigits at h ⊢
  split at h
  · next hlt =>
    rw [if_pos hlt]
    obtain rfl | hn := Nat.eq_zero_or_pos n
    -- zero has one digit, and no places behind the point
    · obtain rfl : p = 0 := Nat.lt_one_iff.mp hlt
      rfl
    · -- the first digit of a positive number is not zero
      have hhead : (Nat.toDigits 10 n).head? = some '0' := by
        rwa [List.head?_take, if_neg (by omega)] at h
      exact absurd rfl (Text.head?_toDigits_ne_zero hn '0' hhead)
  -- zeros are put in front, and only one of them stands before the point
  · next hge => rw [if_neg hge]

/-- All digits of a decimal, with as many behind the point as its exponent says. -/
def fullLiteral (a : Decimal) : Literal where
  sign := a.writtenSign
  whole := a.cutDigits.1
  fraction := if a.places = 0 then none else some a.cutDigits.2
  scale := none
  whole_digits := a.cut_cutDigits.whole_digits
  fraction_digits := by
    split
    · exact Text.allDigits_nil
    · exact a.cut_cutDigits.fraction_digits
  has_digit := .inl a.cut_cutDigits.ne_nil

/-- The fraction of the literal, also where it is left out. -/
theorem fraction_fullLiteral (a : Decimal) :
    (fullLiteral a).fraction.getD [] = a.cutDigits.2 := by
  have hlen := a.cut_cutDigits.length
  unfold fullLiteral
  dsimp only
  split
  · next hzero =>
    rw [hzero, List.length_eq_zero_iff] at hlen
    exact hlen.symm
  · rfl

/-- The literal is what is written with all zeros. -/
theorem text_fullLiteral (a : Decimal) : (fullLiteral a).text = render false a := by
  have hlen := a.cut_cutDigits.length
  rw [render_eq false a rfl]
  unfold fullLiteral Literal.text Literal.body
  -- without places there is no point
  simp only [Bool.false_eq_true, if_false, List.isEmpty_iff, ← List.length_eq_zero_iff, hlen]
  split <;> simp

/-- It denotes the decimal. -/
theorem value_fullLiteral (a : Decimal) : (fullLiteral a).value = a.toRat := by
  have hexp : (fullLiteral a).exponent = 0 := rfl
  rw [Literal.value, fraction_fullLiteral, hexp, zpow_zero, mul_one, toRat_eq_magnitude,
    ← a.cut_cutDigits.number]
  rfl

/-- A literal in positional notation with `p` digits behind the point, which is left out for none
of them: no zeros are put in front, and a sign only for numbers below zero. -/
structure Literal.IsFixed (ℓ : Literal) (p : ℕ) : Prop where
  sign : ℓ.sign = none ∨ ℓ.sign = some .minus ∧ ℓ.value < 0
  whole : ℓ.whole ≠ []
  leading : ℓ.whole.head? = some '0' → ℓ.whole = ['0']
  point : ℓ.fraction.isSome ↔ 0 < p
  length : (ℓ.fraction.getD []).length = p
  scale : ℓ.scale = none

/-- **It is a literal in positional notation.** -/
theorem fullLiteral_isFixed (a : Decimal) : (fullLiteral a).IsFixed a.places where
  sign := by
    rw [value_fullLiteral]
    change a.writtenSign = none ∨ a.writtenSign = some .minus ∧ a.toRat < 0
    -- the sign that is written is that of the number
    rw [writtenSign_eq]
    split
    · next h => exact .inr ⟨rfl, h⟩
    · exact .inl rfl
  whole := a.cut_cutDigits.ne_nil
  leading := splitDigits_head _ _
  point := by
    unfold fullLiteral
    dsimp only
    split
    · next h => simp [h]
    · next h => simp [Nat.pos_of_ne_zero h]
  length := by rw [fraction_fullLiteral, a.cut_cutDigits.length]
  scale := rfl

/-- **Rounding goes to the nearest number of so many places,** a half away from zero. Unless the
number of places has no opposite, the result has exactly that many, be it positive or negative, and
is the multiple of its last place that is nearest to the number. With zero places or more it is
written with all of them, as a literal in positional notation that denotes the rounded number; it
has no zeros in front that are not needed, and a sign only if it is below zero. -/
theorem isNearest_round_fixedText (a : Decimal) {places : Int32}
    (hp : places ≠ Int32.minValue) :
    (a.round places).exp.toInt = -places.toInt ∧
    IsNearest (10 ^ (-places.toInt)) a.toRat (a.round places).toRat ∧
    (0 ≤ places → ∃ ℓ : Literal, ℓ.text = (a.fixedText places).toList ∧
      ℓ.IsFixed places.toInt.toNat ∧ ℓ.value = (a.round places).toRat) := by
  have hexp : (a.round places).exp.toInt = -places.toInt := by
    rw [round_eq]
    exact toInt_neg_of_fits (fits_neg_of_ne hp)
  refine ⟨hexp, isNearest_round a hp, fun _ => ?_⟩
  -- the places that are written are those that were asked for
  have hplaces : (a.round places).places = places.toInt.toNat := by
    rw [Decimal.places, hexp, neg_neg]
  refine ⟨fullLiteral (a.round places), ?_, ?_, value_fullLiteral _⟩
  · rw [text_fullLiteral, fixedText, String.toList_ofList]
  · rw [← hplaces]
    exact fullLiteral_isFixed _

/-- Below zero, a half in the third place goes down. -/
theorem isNearest_round_fixedText_half :
    ((2 : Int32) ≠ Int32.minValue ∧ (0 : Int32) ≤ 2) ∧
    IsNearest (10 ^ (-2 : ℤ)) (⟨-2345, -3⟩ : Decimal).toRat (⟨-235, -2⟩ : Decimal).toRat ∧
    ∃ ℓ : Literal, ℓ.text = "-2.35".toList ∧ ℓ.IsFixed 2 ∧
      ℓ.value = (⟨-235, -2⟩ : Decimal).toRat := by
  have hp : (2 : Int32) ≠ Int32.minValue := by decide
  have hnonneg : (0 : Int32) ≤ 2 := by decide
  have hround : (⟨-2345, -3⟩ : Decimal).round 2 = ⟨-235, -2⟩ := by decide
  have htext : (⟨-2345, -3⟩ : Decimal).fixedText 2 = "-2.35" := by decide
  obtain ⟨-, hnearest, hwritten⟩ := isNearest_round_fixedText ⟨-2345, -3⟩ hp
  have hliteral := hwritten hnonneg
  rw [hround] at hnearest hliteral
  rw [htext] at hliteral
  exact ⟨⟨hp, hnonneg⟩, hnearest, hliteral⟩

example : (⟨-4, -3⟩ : Decimal).fixedText 2 = "0.00" := by decide

end ScriptEngine.Decimal
