import ScriptEngine.Proofs.Decimal.Literal

/-!
# Texts of decimals

What `Decimal.toText` writes depends on the number only: `positional` has the digits of
`n / 10 ^ p`, and one more zero at the end of `n` with one more place makes no difference
(`positional_mul_ten`). It is the text of a literal that denotes the number (`toList_toText`,
`value_positionalLiteral`), and `Decimal.parse` reads literals. Hence equal decimals are those with
equal texts (`toText_canonical`).
-/

namespace ScriptEngine.Decimal

open Text (Sign AllDigits)

/-! ### Digits with a point among them -/

/-- Around the point there are the digits, with zeros in front of them if they are too few. -/
theorem splitDigits_append {digits : List Char} (h : digits ≠ []) (places : ℕ) :
    (splitDigits digits places).1 ≠ [] ∧ (splitDigits digits places).2.length = places ∧
      ∃ k, (splitDigits digits places).1 ++ (splitDigits digits places).2 =
        List.replicate k '0' ++ digits := by
  have hlen : 0 < digits.length := List.length_pos_iff.mpr h
  unfold splitDigits
  -- either the digits are cut, or zeros are put in front of them first
  split
  · next hlt =>
    refine ⟨?_, ?_, 0, List.take_append_drop _ _⟩
    · rw [ne_eq, List.take_eq_nil_iff, not_or]
      exact ⟨by omega, h⟩
    · rw [List.length_drop]
      omega
  · next hge =>
    refine ⟨List.cons_ne_nil _ _, ?_, places - digits.length + 1, rfl⟩
    rw [List.length_append, List.length_replicate]
    omega

/-- Taking zeros off makes no text longer. -/
theorem length_dropEndZeros_le (f : List Char) : (dropEndZeros f).length ≤ f.length := by
  obtain ⟨k, hk⟩ := dropEndZeros_append_zeros f
  rw [← congrArg List.length hk, List.length_append]
  exact Nat.le_add_right _ _

/-- A zero at the end is taken off like any other. -/
theorem dropEndZeros_append_zero (f : List Char) : dropEndZeros (f ++ ['0']) = dropEndZeros f := by
  unfold dropEndZeros
  rw [List.reverse_append]
  rfl

/-- Nothing but zeros leaves nothing. -/
theorem dropEndZeros_replicate (k : ℕ) : dropEndZeros (List.replicate k '0') = [] := by
  induction k with
  | zero => rfl
  | succ k ih => rw [List.replicate_succ', dropEndZeros_append_zero, ih]

/-- The digits of `n / 10 ^ p` on both sides of the point, without zeros at the end. -/
def positional (n p : ℕ) : List Char × List Char :=
  ((splitDigits (Nat.toDigits 10 n) p).1, dropEndZeros (splitDigits (Nat.toDigits 10 n) p).2)

/-- The digits of zero, at however many places. -/
theorem positional_zero_left (p : ℕ) : positional 0 p = (['0'], []) := by
  cases p with
  | zero => rfl
  | succ p =>
    have hsplit : splitDigits ['0'] (p + 1) = (['0'], List.replicate p '0' ++ ['0']) := by
      unfold splitDigits
      -- a zero of one digit is shorter than any number of places
      rw [if_neg (by rw [List.length_singleton]; omega)]
      rfl
    change ((splitDigits ['0'] (p + 1)).1, dropEndZeros (splitDigits ['0'] (p + 1)).2) = _
    rw [hsplit, dropEndZeros_append_zero, dropEndZeros_replicate]

/-- Without places all digits stand in front of the point. -/
theorem splitDigits_zero (n : ℕ) :
    splitDigits (Nat.toDigits 10 n) 0 = (Nat.toDigits 10 n, []) := by
  have hlen : 0 < (Nat.toDigits 10 n).length := List.length_pos_iff.mpr Nat.toDigits_ne_nil
  unfold splitDigits
  rw [if_pos hlen, Nat.sub_zero, List.take_length, List.drop_length]

/-- **One more zero and one more place make no difference.** -/
theorem positional_mul_ten (n p : ℕ) : positional (n * 10) (p + 1) = positional n p := by
  obtain rfl | hn := Nat.eq_zero_or_pos n
  · rw [zero_mul, positional_zero_left, positional_zero_left]
  -- a zero is added to the digits
  have hdigits : Nat.toDigits 10 (n * 10) = Nat.toDigits 10 n ++ ['0'] := by
    have := Nat.toDigits_append_toDigits (b := 10) (n := n) (d := 0) (by decide) hn (by decide)
    rw [add_zero, mul_comm] at this
    exact this.symm
  unfold positional
  rw [hdigits]
  obtain ⟨ds, hds⟩ : ∃ ds, Nat.toDigits 10 n = ds := ⟨_, rfl⟩
  rw [hds]
  unfold splitDigits
  rw [List.length_append, List.length_singleton]
  -- with a zero more and a place more the point stands where it stood
  by_cases h : p < ds.length
  · have hcut : ds.length + 1 - (p + 1) = ds.length - p := by omega
    rw [if_pos h, if_pos (by omega), hcut, List.take_append_of_le_length (by omega),
      List.drop_append_of_le_length (by omega), dropEndZeros_append_zero]
  · have hcut : p + 1 - (ds.length + 1) = p - ds.length := by omega
    rw [if_neg h, if_neg (by omega), hcut, ← List.append_assoc, dropEndZeros_append_zero]

/-- So it is of any number of them. -/
theorem positional_mul_pow (n p k : ℕ) : positional (n * 10 ^ k) (p + k) = positional n p := by
  -- one zero and one place at a time
  induction k with
  | zero => rw [pow_zero, mul_one, add_zero]
  | succ k ih => rw [pow_succ, ← mul_assoc, ← add_assoc, positional_mul_ten, ih]

/-- Equal numbers have equal digits. -/
theorem positional_eq {n m p q : ℕ} (h : n * 10 ^ q = m * 10 ^ p) :
    positional n p = positional m q := by
  rw [← positional_mul_pow n p q, h, add_comm p q, positional_mul_pow]

/-! ### The literal that is printed -/

section

variable (n p : ℕ)

/-- The digits of `n / 10 ^ p` on both sides of the point, with `p` of them behind it. -/
structure Cut (n p : ℕ) (whole fraction : List Char) : Prop where
  ne_nil : whole ≠ []
  length : fraction.length = p
  whole_digits : AllDigits whole
  fraction_digits : AllDigits fraction
  number : (Nat.ofDigitChars 10 whole 0 : ℚ) +
    Nat.ofDigitChars 10 fraction 0 / 10 ^ fraction.length = n / 10 ^ p

/-- Cutting the digits of `n` at `p` places gives those of `n / 10 ^ p`. -/
theorem cut_splitDigits :
    Cut n p (splitDigits (Nat.toDigits 10 n) p).1 (splitDigits (Nat.toDigits 10 n) p).2 := by
  obtain ⟨hne, hlen, k, happend⟩ := splitDigits_append (Nat.toDigits_ne_nil (n := n) (b := 10)) p
  obtain ⟨whole, hw⟩ : ∃ whole, (splitDigits (Nat.toDigits 10 n) p).1 = whole := ⟨_, rfl⟩
  obtain ⟨fraction, hf⟩ : ∃ fraction, (splitDigits (Nat.toDigits 10 n) p).2 = fraction := ⟨_, rfl⟩
  rw [hw] at hne happend ⊢
  rw [hf] at hlen happend ⊢
  -- zeros in front change neither that these are digits nor their number
  have hdigits : AllDigits (whole ++ fraction) := by
    rw [happend, Text.allDigits_append]
    exact ⟨Text.allDigits_zeros k, Text.allDigits_toDigits n⟩
  have hnum : 10 ^ p * Nat.ofDigitChars 10 whole 0 + Nat.ofDigitChars 10 fraction 0 = n := by
    have := congrArg (Nat.ofDigitChars 10 · 0) happend
    simp only [Nat.ofDigitChars_append, Nat.ofDigitChars_replicate_zero, mul_zero,
      Nat.ofDigitChars_ten_toDigits] at this
    rw [← hlen, ← Nat.ofDigitChars_eq_ofDigitChars_zero, this]
  obtain ⟨hwhole, hfraction⟩ := Text.allDigits_append.mp hdigits
  refine ⟨hne, hlen, hwhole, hfraction, ?_⟩
  rw [hlen, ← hnum]
  -- the claim is now about fractions with the same power of ten below
  push_cast
  field_simp

/-- The literal with the digits of `n / 10 ^ p`. -/
def positionalLiteral (sign : Option Sign) : Literal where
  sign := sign
  whole := (positional n p).1
  fraction := if (positional n p).2 = [] then none else some (positional n p).2
  scale := none
  whole_digits := (cut_splitDigits n p).whole_digits
  fraction_digits := by
    split
    · exact Text.allDigits_nil
    · exact allDigits_dropEndZeros.mpr (cut_splitDigits n p).fraction_digits
  has_digit := .inl (cut_splitDigits n p).ne_nil

/-- How the literal is written. -/
theorem text_positionalLiteral (sign : Option Sign) :
    (positionalLiteral n p sign).text = Sign.text sign ++
      if (positional n p).2.isEmpty then (positional n p).1
      else (positional n p).1 ++ '.' :: (positional n p).2 := by
  unfold positionalLiteral Literal.text Literal.body
  dsimp only
  -- a fraction of which nothing is left is not written at all
  cases (positional n p).2 with
  | nil => simp
  | cons c rest => simp

/-- Its fraction is the one without zeros at the end. -/
theorem fraction_positionalLiteral (sign : Option Sign) :
    (positionalLiteral n p sign).fraction.getD [] = (positional n p).2 := by
  unfold positionalLiteral
  dsimp only
  split
  · next hnil => exact hnil.symm
  · rfl

/-- What it denotes. -/
theorem value_positionalLiteral (sign : Option Sign) :
    (positionalLiteral n p sign).value = Sign.factor sign * (n / 10 ^ p) := by
  have hexp : (positionalLiteral n p sign).exponent = 0 := rfl
  rw [Literal.value, fraction_positionalLiteral, hexp, zpow_zero, mul_one,
    ← (cut_splitDigits n p).number,
    ← fraction_dropEndZeros (splitDigits (Nat.toDigits 10 n) p).2]
  rfl

/-- It has no more places than were asked for. -/
theorem length_significant_le (sign : Option Sign) :
    (positionalLiteral n p sign).significant.length ≤ p := by
  calc (positionalLiteral n p sign).significant.length
      = (dropEndZeros (positional n p).2).length := by
        rw [Literal.significant, fraction_positionalLiteral]
    _ ≤ (positional n p).2.length := length_dropEndZeros_le _
    _ ≤ (splitDigits (Nat.toDigits 10 n) p).2.length := length_dropEndZeros_le _
    _ = p := (cut_splitDigits n p).length

/-- The digits that are printed are read again. -/
theorem parse_positionalLiteral {sign : Option Sign} {s : String}
    (hs : (positionalLiteral n p sign).text = s.toList) (hp : p ≤ 2 ^ 31) :
    ∃ d, parse s = .ok d ∧ d.toRat = Sign.factor sign * (n / 10 ^ p) := by
  have hlen := length_significant_le n p sign
  have hr : (positionalLiteral n p sign).InRange := by
    have hexp : (positionalLiteral n p sign).exponent = 0 := rfl
    refine ⟨?_, ?_⟩
    · rw [hexp]
      decide
    · rw [hexp, Fits]
      omega
  -- there is a digit in front of the point
  have hz : ¬ (positionalLiteral n p sign).BareZeros := fun h => (cut_splitDigits n p).ne_nil h.1
  refine ⟨_, Literal.parse_eq_decimal hs hr hz, ?_⟩
  rw [Literal.toRat_decimal hr, value_positionalLiteral]

end

/-! ### Printing and reading -/

/-- The sign that is written. -/
def writtenSign (a : Decimal) : Option Sign := if a.coeff < 0 then some .minus else none

/-- The coefficient without its sign, with the zeros that a positive exponent adds. -/
def magnitude (a : Decimal) : ℕ := a.coeff.natAbs * 10 ^ a.exp.toInt.toNat

/-- The places behind the point. -/
def places (a : Decimal) : ℕ := (-a.exp.toInt).toNat

/-- The digits on both sides of the point. -/
def cutDigits (a : Decimal) : List Char × List Char :=
  splitDigits (Nat.toDigits 10 a.magnitude) a.places

/-- So the digits of a decimal are cut. -/
theorem cut_cutDigits (a : Decimal) :
    Cut a.magnitude a.places a.cutDigits.1 a.cutDigits.2 :=
  cut_splitDigits a.magnitude a.places

/-- A decimal is the number that its sign, its digits and its places make up. -/
theorem toRat_eq_magnitude (a : Decimal) :
    a.toRat = Sign.factor a.writtenSign * (a.magnitude / 10 ^ a.places) := by
  have hcoeff : (a.coeff : ℚ) = Sign.factor a.writtenSign * a.coeff.natAbs := by
    unfold writtenSign
    -- the coefficient is its absolute value with the sign that is written
    split
    · next hneg =>
      obtain ⟨k, hk⟩ := Int.exists_eq_neg_ofNat hneg.le
      simp [hk, Sign.factor]
    · next hnonneg =>
      obtain ⟨k, hk⟩ := Int.eq_ofNat_of_zero_le (not_lt.mp hnonneg)
      simp [hk, Sign.factor]
  -- an exponent is its positive part without its negative part
  have hexp : a.exp.toInt = a.exp.toInt.toNat - (a.places : ℤ) := by
    rw [places]
    omega
  rw [toRat, hcoeff, magnitude]
  conv_lhs => rw [hexp]
  rw [zpow_sub₀ (by norm_num), zpow_natCast, zpow_natCast]
  push_cast
  ring

/-- At exponent zero, a positive exponent has become zeros at the end. -/
theorem coeff_rescale_zero_of_nonneg {a : Decimal} (h : 0 ≤ a.exp.toInt) :
    (a.rescale 0).coeff = a.coeff * (10 ^ a.exp.toInt.toNat : ℕ) := by
  have hzero : (0 : Int32).toInt = 0 := rfl
  unfold rescale
  rw [hzero, zero_sub]
  dsimp only
  rw [if_neg (by omega)]
  -- only an exponent of zero is left besides the positive ones
  split
  · rw [neg_neg]
    rfl
  · have hexp : a.exp.toInt = 0 := by omega
    rw [hexp]
    exact (mul_one _).symm

/-- What is written: the sign, the integer part, and the fraction behind a point if any of it is
left. -/
theorem render_eq (trim : Bool) (a : Decimal) {shown : List Char}
    (hshown : shown = if trim then dropEndZeros a.cutDigits.2 else a.cutDigits.2) :
    render trim a = Sign.text a.writtenSign ++
      if shown.isEmpty then a.cutDigits.1 else a.cutDigits.1 ++ '.' :: shown := by
  unfold render
  -- a positive exponent leaves no places behind the point
  by_cases h : 0 ≤ a.exp
  · have hexp : 0 ≤ a.exp.toInt := Int32.le_iff_toInt_le.mp h
    have hplaces : a.places = 0 := by
      rw [places]
      omega
    have hpow : (0 : ℤ) < (10 ^ a.exp.toInt.toNat : ℕ) := by positivity
    have hsign : (a.coeff * (10 ^ a.exp.toInt.toNat : ℕ) < 0) = (a.coeff < 0) :=
      propext ⟨fun h => neg_of_mul_neg_left h hpow.le, fun h => mul_neg_of_neg_of_pos h hpow⟩
    have hcut : a.cutDigits = (Nat.toDigits 10 a.magnitude, []) := by
      rw [cutDigits, hplaces, splitDigits_zero]
    -- so there is no fraction, with its zeros or without
    have hnone : shown = [] := by
      rw [hshown, hcut]
      cases trim <;> rfl
    rw [if_pos h, Text.toList_toString, coeff_rescale_zero_of_nonneg hexp, hnone, hcut,
      Int.natAbs_mul, Int.natAbs_natCast]
    simp only [hsign]
    rfl
  · have hexp : a.exp.toInt < 0 := Int32.lt_iff_toInt_lt.mp (Int32.not_le.mp h)
    have hmag : a.magnitude = a.coeff.natAbs := by
      rw [magnitude, Int.toNat_of_nonpos hexp.le, pow_zero, mul_one]
    have hplaces : a.exp.toInt.natAbs = a.places := by
      rw [places]
      omega
    have hcut : splitDigits (Nat.toDigits 10 a.magnitude) a.places = a.cutDigits := rfl
    rw [if_neg h, ← hmag, Nat.toList_repr, hplaces, hcut]
    dsimp only
    rw [← hshown]
    unfold writtenSign
    split <;> rfl

/-- **The text of a decimal is that literal.** -/
theorem toList_toText (a : Decimal) :
    a.toText.toList = (positionalLiteral a.magnitude a.places a.writtenSign).text := by
  rw [text_positionalLiteral, toText, String.toList_ofList]
  exact render_eq true a rfl

/-- So it is read again, as an equal decimal. -/
theorem parse_toText (a : Decimal) : ∃ d, parse a.toText = .ok d ∧ d.toRat = a.toRat := by
  have hexp := a.exp.le_toInt
  have hplaces : a.places ≤ 2 ^ 31 := by
    rw [places]
    omega
  rw [toRat_eq_magnitude]
  exact parse_positionalLiteral _ _ (toList_toText a).symm hplaces

/-- The sign written is that of the number. -/
theorem writtenSign_eq (a : Decimal) :
    a.writtenSign = if a.toRat < 0 then some .minus else none := by
  -- the sign of the number is that of the coefficient
  have hneg : a.toRat < 0 ↔ a.coeff < 0 := by
    rw [← Int.cast_lt_zero (R := ℚ), toRat]
    exact ⟨fun h => neg_of_mul_neg_left h (unit_pos a.exp).le,
      fun h => mul_neg_of_neg_of_pos h (unit_pos a.exp)⟩
  simp only [writtenSign, hneg]

/-- Equal numbers have equal texts. -/
theorem toText_eq_of_toRat_eq {a b : Decimal} (h : a.toRat = b.toRat) : a.toText = b.toText := by
  have hsign : a.writtenSign = b.writtenSign := by
    rw [writtenSign_eq, writtenSign_eq, h]
  have hdigits : a.magnitude * 10 ^ b.places = b.magnitude * 10 ^ a.places := by
    rw [toRat_eq_magnitude, toRat_eq_magnitude, hsign] at h
    have hfactor : (Sign.factor b.writtenSign : ℚ) ≠ 0 :=
      Int.cast_ne_zero.mpr (Sign.factor_ne_zero b.writtenSign)
    -- the signs are equal and can be taken off both sides
    have hquot := mul_left_cancel₀ hfactor h
    rw [div_eq_div_iff (by positivity) (by positivity)] at hquot
    exact_mod_cast hquot
  rw [← String.toList_inj, toList_toText, toList_toText, text_positionalLiteral,
    -- the number settles the digits, and its sign the sign
    text_positionalLiteral, positional_eq hdigits, hsign]

/-- **Texts are canonical, and are read back:** the text of a decimal is read as an equal one, and
two decimals have the same text if and only if they are equal. -/
theorem toText_canonical (a b : Decimal) :
    (∃ d, parse a.toText = .ok d ∧ (d == a) = true) ∧
      (a.toText = b.toText ↔ (a == b) = true) := by
  obtain ⟨d, hd, hda⟩ := parse_toText a
  obtain ⟨e, he, heb⟩ := parse_toText b
  refine ⟨⟨d, hd, (beq_iff_toRat_eq d a).mpr hda⟩, ?_⟩
  rw [beq_iff_toRat_eq]
  -- one text is read in one way only
  constructor
  · intro h
    rw [h, he] at hd
    rw [← hda, ← heb, Except.ok.inj hd]
  · exact toText_eq_of_toRat_eq

example : [ofInt 1, ⟨10, -1⟩, ⟨-25, -1⟩].map toText = ["1", "1", "-2.5"] := rfl

end ScriptEngine.Decimal
