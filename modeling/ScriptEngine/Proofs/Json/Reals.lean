import ScriptEngine.Json.Basic
import ScriptEngine.Proofs.Binary64.Shortest
import ScriptEngine.Proofs.Decimal.Canonical

/-!
# The text of a double in a document

A double is written with the digits of its shortest decimal, positional or with an exponent. Either
way the text is a literal for that decimal (`exists_literal_realChars`), and a literal denotes one
number only (`Literal.value_eq_of_text_eq`), so the text denotes nothing else.
-/

namespace ScriptEngine

open Text (Sign AllDigits)

/-! ### What a literal denotes -/

namespace Decimal

/-- The sign and digits of a coefficient are read, and no digits at all count as zero. -/
theorem readCoeff_sign_append {ds : List Char} (hds : AllDigits ds) (sign : Option Sign) :
    (readCoeff (Sign.text sign ++ ds)).getD 0 = Sign.factor sign * Nat.ofDigitChars 10 ds 0 := by
  by_cases hne : ds = []
  · subst hne
    rcases sign with _ | _ | _ <;> rfl
  · rw [readCoeff_append hne hds]
    rfl

namespace Literal

variable {ℓ ℓ' : Literal}

/-- The digits on both sides of the point as one number, over a power of ten. -/
theorem value_eq_of_fraction {f : List Char}
    (hf : (Nat.ofDigitChars 10 f 0 : ℚ) / 10 ^ f.length =
      Nat.ofDigitChars 10 (ℓ.fraction.getD []) 0 / 10 ^ (ℓ.fraction.getD []).length) :
    ℓ.value = Sign.factor ℓ.sign * Nat.ofDigitChars 10 (ℓ.whole ++ f) 0 *
      10 ^ (ℓ.exponent - f.length) := by
  have happend : Nat.ofDigitChars 10 (ℓ.whole ++ f) 0 =
      10 ^ f.length * Nat.ofDigitChars 10 ℓ.whole 0 + Nat.ofDigitChars 10 f 0 := by
    rw [Nat.ofDigitChars_append]
    exact Nat.ofDigitChars_eq_ofDigitChars_zero
  rw [value, ← hf, happend, zpow_sub₀ (by norm_num), zpow_natCast]
  push_cast
  field_simp

/-- All digits of a literal as one number. -/
theorem value_eq (ℓ : Literal) :
    ℓ.value = Sign.factor ℓ.sign * Nat.ofDigitChars 10 (ℓ.whole ++ ℓ.fraction.getD []) 0 *
      10 ^ (ℓ.exponent - (ℓ.fraction.getD []).length) :=
  value_eq_of_fraction rfl

/-- The digits that count as one number. -/
theorem value_eq_significant (ℓ : Literal) :
    ℓ.value = Sign.factor ℓ.sign * Nat.ofDigitChars 10 (ℓ.whole ++ ℓ.significant) 0 *
      10 ^ (ℓ.exponent - ℓ.significant.length) :=
  value_eq_of_fraction (fraction_dropEndZeros _)

/-- The exponent is what its text is read as. -/
theorem exponent_eq (ℓ : Literal) :
    ℓ.exponent = (ℓ.scale.map Scale.numeral).elim 0 fun numeral => (readCoeff numeral).getD 0 := by
  unfold exponent
  cases ℓ.scale with
  | none => rfl
  | some x => exact (readCoeff_sign_append x.allDigits x.sign).symm

/-- A text is a literal for one number only. -/
theorem value_eq_of_text_eq (h : ℓ.text = ℓ'.text) : ℓ.value = ℓ'.value := by
  have hsplit : (ℓ.body, ℓ.scale.map Scale.numeral) = (ℓ'.body, ℓ'.scale.map Scale.numeral) := by
    rw [← splitExponent_text, ← splitExponent_text, h]
  -- the text is cut at the mark and at the point, so both have the same pieces
  obtain ⟨hbody, hscale⟩ := Prod.mk.inj hsplit
  have hpoint := ℓ.splitPoint_body
  rw [hbody, ℓ'.splitPoint_body] at hpoint
  obtain ⟨hglued, hplaces⟩ := Prod.mk.inj (Option.some.inj hpoint)
  have coeff : ∀ ℓ : Literal, (readCoeff (Sign.text ℓ.sign ++ (ℓ.whole ++ ℓ.significant))).getD 0 =
      Sign.factor ℓ.sign * Nat.ofDigitChars 10 (ℓ.whole ++ ℓ.significant) 0 := fun ℓ =>
    readCoeff_sign_append (Text.allDigits_append.mpr
      ⟨ℓ.whole_digits, allDigits_dropEndZeros.mpr ℓ.fraction_digits⟩) ℓ.sign
  have hcoeff := coeff ℓ
  rw [← hglued, coeff ℓ'] at hcoeff
  have hcoeff' : (Sign.factor ℓ'.sign : ℚ) * Nat.ofDigitChars 10 (ℓ'.whole ++ ℓ'.significant) 0 =
      Sign.factor ℓ.sign * Nat.ofDigitChars 10 (ℓ.whole ++ ℓ.significant) 0 := by
    exact_mod_cast hcoeff
  rw [value_eq_significant, value_eq_significant, hcoeff', hplaces, exponent_eq, exponent_eq,
    hscale]

/-- A literal is made of signs, digits, a point and an exponent mark. -/
theorem mem_text {c : Char} (h : c ∈ ℓ.text) :
    c = '+' ∨ c = '-' ∨ c.isDigit = true ∨ c = '.' ∨ c = 'e' ∨ c = 'E' := by
  have digit :
      c.isDigit = true → c = '+' ∨ c = '-' ∨ c.isDigit = true ∨ c = '.' ∨ c = 'e' ∨ c = 'E' :=
    fun hc => .inr (.inr (.inl hc))
  have sign : ∀ {sign}, c ∈ Sign.text sign →
      c = '+' ∨ c = '-' ∨ c.isDigit = true ∨ c = '.' ∨ c = 'e' ∨ c = 'E' := fun hc =>
    (Sign.mem_text hc).imp_right .inl
  obtain hbody | hscale := List.mem_append.mp h
  · obtain hfront | hfraction := List.mem_append.mp hbody
    · exact (List.mem_append.mp hfront).elim sign fun hc => digit (ℓ.whole_digits c hc)
    · have hdigits := ℓ.fraction_digits
      cases hf : ℓ.fraction with
      | none =>
        rw [hf] at hfraction
        exact nomatch hfraction
      | some f =>
        rw [hf] at hfraction hdigits
        obtain rfl | hc := List.mem_cons.mp hfraction
        · exact .inr (.inr (.inr (.inl rfl)))
        · exact digit (hdigits c hc)
  · cases hx : ℓ.scale with
    | none =>
      rw [hx] at hscale
      exact nomatch hscale
    | some x =>
      rw [hx] at hscale
      obtain rfl | hc := List.mem_cons.mp hscale
      · unfold Scale.mark
        split
        · exact .inr (.inr (.inr (.inr (.inr rfl))))
        · exact .inr (.inr (.inr (.inr (.inl rfl))))
      · exact (List.mem_append.mp hc).elim sign fun hc => digit (x.allDigits c hc)

end Literal

end Decimal

/-! ### Texts of doubles -/

namespace Json

open Decimal (Literal Scale)

/-- The sign of a double that is written. -/
def signOf (negative : Bool) : Option Sign := if negative then some .minus else none

/-- A double's sign is written in front. -/
theorem signed_eq (negative : Bool) (s : List Char) :
    Binary64.signed negative s = Sign.text (signOf negative) ++ s := by
  cases negative <;> rfl

/-- The number with the digits of the shortest decimal of a double. -/
def shortestValue (negative : Bool) (m : ℕ) (q : ℤ) : ℚ :=
  Sign.factor (signOf negative) * (Binary64.shortest m q).1 * 10 ^ (Binary64.shortest m q).2

/-- The number that is written for a double, if the double is one. -/
def written? (x : Float) : Option ℚ :=
  match Binary64.parts x with
  | .finite negative m q => some (shortestValue negative m q)
  | _ => none

/-- The text of digits times a power of ten, as it is written for a double. -/
def digitsText (d : ℕ) (e : ℤ) : List Char :=
  let digits := Nat.toDigits 10 d
  let order := e + (digits.length : ℤ) - 1
  if d = 0 then ['0', '.', '0']
  else if -5 ≤ order ∧ order ≤ 15 then
    if 0 ≤ e then Binary64.positional d e ++ ['.', '0'] else Binary64.positional d e
  else
    let exponent := Nat.toDigits 10 order.natAbs
    Binary64.withPoint digits ++ 'e' :: (if order < 0 then '-' else '+') ::
      (List.replicate (2 - exponent.length) '0' ++ exponent)

/-- A finite double is written with the digits of its shortest decimal. -/
theorem realChars_of_finite {x : Float} {negative : Bool} {m : ℕ} {q : ℤ}
    (h : Binary64.parts x = .finite negative m q) :
    realChars x = Sign.text (signOf negative) ++
      digitsText (Binary64.shortest m q).1 (Binary64.shortest m q).2 := by
  rw [realChars, h]
  dsimp only
  rw [signed_eq, digitsText, Nat.toList_repr, Nat.toList_repr]

/-- A double that is no number is written as `null`. -/
theorem realChars_of_not_finite {x : Float} (h : written? x = none) :
    realChars x = ['n', 'u', 'l', 'l'] := by
  unfold written? at h
  unfold realChars
  cases hparts : Binary64.parts x with
  | finite negative m q =>
    rw [hparts] at h
    exact nomatch h
  | nan => rfl
  | infinite negative => rfl

/-- Digits on both sides of a point, and an exponent. -/
theorem exists_literal (sign : Option Sign) {whole : List Char} {fraction : Option (List Char)}
    (hdigits : AllDigits (whole ++ fraction.getD [])) (hne : whole ≠ []) (scale : Option Scale) :
    ∃ ℓ : Literal, ℓ.text = Sign.text sign ++ (whole ++ (fraction.elim [] ('.' :: ·) ++
        scale.elim [] fun x => x.mark :: x.numeral)) ∧
      ℓ.value = Sign.factor sign * Nat.ofDigitChars 10 (whole ++ fraction.getD []) 0 *
        10 ^ (scale.elim 0 Scale.number - (fraction.getD []).length) := by
  obtain ⟨hwhole, hfraction⟩ := Text.allDigits_append.mp hdigits
  refine ⟨⟨sign, whole, fraction, scale, hwhole, hfraction, .inl hne⟩, ?_, Literal.value_eq _⟩
  simp only [Literal.text, Literal.body, List.append_assoc]

/-- Digits of a fraction. -/
theorem exists_literal_fraction (sign : Option Sign) (d : ℕ) {e : ℤ} (he : e < 0) :
    ∃ ℓ : Literal, ℓ.text = Sign.text sign ++ Binary64.positional d e ∧
      ℓ.value = Sign.factor sign * d * 10 ^ e := by
  obtain ⟨places, rfl⟩ : ∃ places : ℕ, e = -places := ⟨(-e).toNat, by omega⟩
  -- the digits with the zeros in front of them, which are cut at the point
  obtain ⟨padded, hpadded⟩ : ∃ padded,
      List.replicate (places + 1 - (Nat.toDigits 10 d).length) '0' ++ Nat.toDigits 10 d = padded :=
    ⟨_, rfl⟩
  have hlength : places < padded.length := by
    rw [← hpadded, List.length_append, List.length_replicate]
    omega
  have htext : Binary64.positional d (-places) = padded.take (padded.length - places) ++
      '.' :: padded.drop (padded.length - places) := by
    unfold Binary64.positional
    rw [if_neg (by omega), neg_neg, Int.toNat_natCast, Nat.toList_repr]
    dsimp only
    rw [hpadded]
  have hvalue : Nat.ofDigitChars 10 padded 0 = d := by
    rw [← hpadded, Nat.ofDigitChars_append, Nat.ofDigitChars_replicate_zero, mul_zero,
      Nat.ofDigitChars_ten_toDigits]
  have hdigits : AllDigits (padded.take (padded.length - places) ++
      (some (padded.drop (padded.length - places))).getD []) := by
    rw [Option.getD_some, List.take_append_drop, ← hpadded, Text.allDigits_append]
    exact ⟨Text.allDigits_zeros _, Text.allDigits_toDigits d⟩
  have hne : padded.take (padded.length - places) ≠ [] := by
    rw [ne_eq, List.take_eq_nil_iff, ← List.length_eq_zero_iff]
    omega
  -- the digits before the point are some, and those behind it are `places`
  obtain ⟨ℓ, hℓ, hnumber⟩ := exists_literal sign hdigits hne none
  have hplaces : (padded.drop (padded.length - places)).length = places := by
    rw [List.length_drop]
    omega
  refine ⟨ℓ, ?_, ?_⟩
  · rw [hℓ, htext, Option.elim_none, List.append_nil]
    rfl
  · rw [hnumber, Option.getD_some, List.take_append_drop, hvalue, hplaces, Option.elim_none,
      zero_sub]

/-- Digits of an integer, with a fraction of zero. -/
theorem exists_literal_integer (sign : Option Sign) {d : ℕ} (hd : d ≠ 0) {e : ℤ} (he : 0 ≤ e) :
    ∃ ℓ : Literal, ℓ.text = Sign.text sign ++ (Binary64.positional d e ++ ['.', '0']) ∧
      ℓ.value = Sign.factor sign * d * 10 ^ e := by
  obtain ⟨zeros, rfl⟩ := Int.eq_ofNat_of_zero_le he
  have htext : Binary64.positional d zeros = Nat.toDigits 10 d ++ List.replicate zeros '0' := by
    unfold Binary64.positional
    rw [if_pos he, if_neg hd, Int.toNat_natCast, Nat.toList_repr]
  have hdigits : AllDigits ((Nat.toDigits 10 d ++ List.replicate zeros '0') ++
      (some ['0']).getD []) :=
    Text.allDigits_append.mpr ⟨Text.allDigits_append.mpr
      ⟨Text.allDigits_toDigits d, Text.allDigits_zeros zeros⟩, Text.allDigits_zeros 1⟩
  have hne : Nat.toDigits 10 d ++ List.replicate zeros '0' ≠ [] :=
    List.append_ne_nil_of_left_ne_nil Nat.toDigits_ne_nil _
  have hvalue : Nat.ofDigitChars 10 ((Nat.toDigits 10 d ++ List.replicate zeros '0') ++ ['0']) 0 =
      10 * (10 ^ zeros * d) := by
    rw [Nat.ofDigitChars_append, Nat.ofDigitChars_append, Nat.ofDigitChars_replicate_zero,
      Nat.ofDigitChars_ten_toDigits]
    rfl
  obtain ⟨ℓ, hℓ, hnumber⟩ := exists_literal sign hdigits hne none
  refine ⟨ℓ, ?_, ?_⟩
  · rw [hℓ, htext]
    rfl
  · rw [hnumber, Option.getD_some, hvalue, Option.elim_none, List.length_singleton, zero_sub,
      zpow_natCast]
    push_cast
    norm_num
    ring

/-- An exponent as it is written: with a sign in any case, and with zeros before its digits. -/
def signedScale (order : ℤ) (zeros : ℕ) : Scale where
  upper := false
  sign := some (if order < 0 then .minus else .plus)
  digits := List.replicate zeros '0' ++ Nat.toDigits 10 order.natAbs
  allDigits := Text.allDigits_append.mpr ⟨Text.allDigits_zeros zeros, Text.allDigits_toDigits _⟩
  ne_nil := List.append_ne_nil_of_right_ne_nil _ Nat.toDigits_ne_nil

/-- An exponent is written with its sign. -/
theorem mark_signedScale (order : ℤ) (zeros : ℕ) :
    (signedScale order zeros).mark :: (signedScale order zeros).numeral =
      'e' :: (if order < 0 then '-' else '+') ::
        (List.replicate zeros '0' ++ Nat.toDigits 10 order.natAbs) := by
  have hmark : (signedScale order zeros).mark = 'e' := rfl
  have hsign : Sign.text (some (if order < 0 then .minus else .plus)) =
      [if order < 0 then '-' else '+'] := by
    split <;> rfl
  rw [hmark, Scale.numeral, signedScale]
  dsimp only
  rw [hsign]
  rfl

/-- The zeros in an exponent do not count. -/
theorem number_signedScale (order : ℤ) (zeros : ℕ) : (signedScale order zeros).number = order := by
  unfold signedScale Scale.number
  dsimp only
  rw [Nat.ofDigitChars_append, Nat.ofDigitChars_replicate_zero, mul_zero,
    Nat.ofDigitChars_ten_toDigits]
  split
  · change -1 * _ = _
    omega
  · change 1 * _ = _
    omega

/-- Digits with an exponent. -/
theorem exists_literal_scientific (sign : Option Sign) {d : ℕ} {e order : ℤ}
    (horder : order = e + (Nat.toDigits 10 d).length - 1) (zeros : ℕ) :
    ∃ ℓ : Literal, ℓ.text = Sign.text sign ++ (Binary64.withPoint (Nat.toDigits 10 d) ++
        'e' :: (if order < 0 then '-' else '+') ::
          (List.replicate zeros '0' ++ Nat.toDigits 10 order.natAbs)) ∧
      ℓ.value = Sign.factor sign * d * 10 ^ e := by
  have hvalue := Nat.ofDigitChars_ten_toDigits (n := d)
  have hdigits := Text.allDigits_toDigits d
  obtain ⟨c, rest, hcons⟩ := List.exists_cons_of_ne_nil (Nat.toDigits_ne_nil (b := 10) (n := d))
  rw [hcons] at horder hvalue hdigits ⊢
  -- the other digits are behind the point, if there are any
  obtain ⟨fraction, hrest, hpoint⟩ : ∃ fraction : Option (List Char), fraction.getD [] = rest ∧
      [c] ++ fraction.elim [] ('.' :: ·) = Binary64.withPoint (c :: rest) := by
    cases rest with
    | nil => exact ⟨none, rfl, rfl⟩
    | cons c' rest => exact ⟨some (c' :: rest), rfl, rfl⟩
  subst hrest
  obtain ⟨ℓ, hℓ, hnumber⟩ := exists_literal sign (hdigits : AllDigits ([c] ++ fraction.getD []))
    (List.cons_ne_nil c []) (some (signedScale order zeros))
  refine ⟨ℓ, ?_, ?_⟩
  · rw [hℓ, ← List.append_assoc [c], hpoint, Option.elim_some, mark_signedScale]
  · have hexp : order - (fraction.getD []).length = e := by
      rw [horder, List.length_cons]
      omega
    rw [hnumber, Option.elim_some, number_signedScale, hexp]
    exact congrArg (fun n : ℕ => (Sign.factor sign : ℚ) * n * 10 ^ e) hvalue

/-- **The text of digits times a power of ten is a literal** for that number. -/
theorem exists_literal_digitsText (sign : Option Sign) (d : ℕ) (e : ℤ) :
    ∃ ℓ : Literal, ℓ.text = Sign.text sign ++ digitsText d e ∧
      ℓ.value = Sign.factor sign * d * 10 ^ e := by
  unfold digitsText
  dsimp only
  -- zero; a number of moderate order, which is an integer or a fraction; and any other one
  split
  · next hd =>
    obtain ⟨ℓ, hℓ, hvalue⟩ := exists_literal sign
      (by decide : AllDigits (['0'] ++ (some ['0']).getD [])) (by decide) none
    have hzero : Nat.ofDigitChars 10 (['0'] ++ (some ['0']).getD []) 0 = 0 := rfl
    refine ⟨ℓ, hℓ, hvalue.trans ?_⟩
    rw [hd, hzero, Nat.cast_zero, mul_zero, zero_mul, zero_mul]
  · next hd =>
    split
    · split
      · next he => exact exists_literal_integer sign hd he
      · next he => exact exists_literal_fraction sign d (not_le.mp he)
    · exact exists_literal_scientific sign rfl _

/-! ### What the text of a double denotes -/

/-- The text is a literal for the number. -/
def Denotes (s : List Char) (v : ℚ) : Prop := ∃ ℓ : Literal, ℓ.text = s ∧ ℓ.value = v

/-- A text denotes one number. -/
theorem Denotes.unique {s : List Char} {v w : ℚ} (hv : Denotes s v) (hw : Denotes s w) : v = w := by
  obtain ⟨ℓ, rfl, rfl⟩ := hv
  obtain ⟨ℓ', htext, rfl⟩ := hw
  exact Literal.value_eq_of_text_eq htext.symm

/-- **The text of a double denotes the number that is written for it,** and nothing else. -/
theorem denotes_realChars_iff {x : Float} {v : ℚ} :
    Denotes (realChars x) v ↔ written? x = some v := by
  cases hx : Binary64.parts x with
  | finite negative m q =>
    have hwritten : written? x = some (shortestValue negative m q) := by
      rw [written?, hx]
    have hdenotes : Denotes (realChars x) (shortestValue negative m q) := by
      rw [realChars_of_finite hx]
      exact exists_literal_digitsText _ _ _
    rw [hwritten, Option.some.injEq]
    constructor
    · exact fun h => Denotes.unique hdenotes h
    · rintro rfl
      exact hdenotes
  | _ =>
    have hnone : written? x = none := by rw [written?, hx]
    rw [hnone, realChars_of_not_finite hnone]
    refine iff_of_false ?_ nofun
    rintro ⟨ℓ, htext, -⟩
    -- no literal has an `n` in it
    have hmem : 'n' ∈ ℓ.text := htext ▸ List.mem_cons_self
    exact absurd (Literal.mem_text hmem) (by decide)

/-- The digits of a number that is written for a double. -/
theorem exists_digits_of_written {x : Float} {v : ℚ} (h : written? x = some v) (hv : v ≠ 0) :
    ∃ negative d e, realChars x = Sign.text (signOf negative) ++ digitsText d e ∧
      v = Sign.factor (signOf negative) * d * 10 ^ e ∧ d < 10 ^ 17 ∧ d % 10 ≠ 0 := by
  unfold written? at h
  split at h
  · next negative m q hx =>
    obtain rfl := Option.some.inj h
    -- a number that is not zero has digits
    have hm : 0 < m := by
      refine Nat.pos_of_ne_zero fun hzero => hv ?_
      rw [shortestValue, hzero, Binary64.shortest, if_pos rfl, Nat.cast_zero, mul_zero, zero_mul]
    obtain ⟨hmax, hmod⟩ := Binary64.shortest_digits hm (Binary64.lt_of_parts_eq hx) q
    exact ⟨negative, _, _, realChars_of_finite hx, rfl, hmax, hmod⟩
  · cases h

/-- The order of the first digit says between which powers of ten a number is. -/
theorem le_order_iff {d : ℕ} (hd : 0 < d) (e k : ℤ) :
    k ≤ e + (Nat.toDigits 10 d).length - 1 ↔ (10 : ℚ) ^ k ≤ d * 10 ^ e := by
  -- the text has as many digits as the number
  have hlength : (Nat.toDigits 10 d).length = Binary64.digitCount d := by
    rw [Binary64.digitCount, ← String.length_toList, Nat.toList_repr]
  obtain ⟨l, hl⟩ : ∃ l, (Nat.toDigits 10 d).length = l + 1 := Nat.exists_eq_add_one.mpr (by
    rw [hlength]
    exact Binary64.digitCount_pos d)
  -- the number is between two powers of ten by its digits
  have hlow : (10 : ℚ) ^ (l : ℤ) ≤ d := by
    have := Binary64.pow_digitCount_le hd
    rw [← hlength, hl, Nat.add_sub_cancel] at this
    rw [zpow_natCast]
    exact_mod_cast this
  have hhigh : (d : ℚ) < 10 ^ ((l : ℤ) + 1) := by
    have := Binary64.lt_pow_digitCount d
    rw [← hlength, hl] at this
    exact_mod_cast this
  have hpos : (0 : ℚ) < 10 ^ e := by positivity
  have horder : e + ((l + 1 : ℕ) : ℤ) - 1 = l + e := by
    push_cast
    ring
  rw [hl, horder]
  constructor
  · intro hk
    calc (10 : ℚ) ^ k ≤ 10 ^ ((l : ℤ) + e) := zpow_le_zpow_right₀ (by norm_num) hk
      _ = 10 ^ (l : ℤ) * 10 ^ e := zpow_add₀ (by norm_num) _ _
      _ ≤ d * 10 ^ e := mul_le_mul_of_nonneg_right hlow hpos.le
  · intro hk
    by_contra hlt
    have hpow : (d : ℚ) * 10 ^ e < 10 ^ k := by
      calc (d : ℚ) * 10 ^ e < 10 ^ ((l : ℤ) + 1) * 10 ^ e := mul_lt_mul_of_pos_right hhigh hpos
        _ = 10 ^ ((l : ℤ) + 1 + e) := (zpow_add₀ (by norm_num) _ _).symm
        _ ≤ 10 ^ k := zpow_le_zpow_right₀ (by norm_num) (by omega)
    exact absurd hk (not_le.mpr hpow)

/-! ### Doubles with the text of a decimal -/

/-- A fraction behind its point, if there is one. -/
def pointText (fraction : List Char) : List Char := if fraction = [] then [] else '.' :: fraction

/-- The last digit of a number. -/
theorem getLast?_toDigits (n : ℕ) : (Nat.toDigits 10 n).getLast? = some (n % 10).digitChar := by
  by_cases h : n < 10
  · rw [Nat.toDigits_of_lt_base h, Nat.mod_eq_of_lt h]
    rfl
  · rw [Nat.toDigits_of_base_le (by decide) (not_lt.mp h), List.getLast?_concat]

/-- Nothing is dropped from a text that does not end with a zero. -/
theorem dropEndZeros_of_getLast? {s : List Char} (h : s.getLast? ≠ some '0') :
    Decimal.dropEndZeros s = s := by
  rw [← List.head?_reverse] at h
  unfold Decimal.dropEndZeros
  cases hr : s.reverse with
  | nil => exact (List.reverse_eq_nil_iff.mp hr).symm
  | cons c rest =>
    rw [hr] at h
    have hc : ¬ (c == '0') = true := fun heq => h (congrArg some (beq_iff_eq.mp heq))
    rw [List.dropWhile_cons, if_neg hc, ← hr, List.reverse_reverse]

/-- Zeros are put in front until there is a digit before the point. -/
theorem splitDigits_eq_padded (digits : List Char) (places : ℕ) :
    let padded := List.replicate (places + 1 - digits.length) '0' ++ digits
    Decimal.splitDigits digits places =
      (padded.take (padded.length - places), padded.drop (padded.length - places)) := by
  intro padded
  unfold Decimal.splitDigits
  -- with digits enough there are no zeros in front; otherwise one stands before the point
  split
  · next hlt =>
    have hpadded : padded = digits := by
      have hzero : places + 1 - digits.length = 0 := by omega
      change List.replicate (places + 1 - digits.length) '0' ++ digits = digits
      rw [hzero]
      rfl
    rw [hpadded]
  · next hge =>
    have hone : padded.length - places = 1 := by
      rw [List.length_append, List.length_replicate]
      omega
    have hpadded : padded = '0' :: (List.replicate (places - digits.length) '0' ++ digits) := by
      have hsucc : places + 1 - digits.length = places - digits.length + 1 := by omega
      change List.replicate (places + 1 - digits.length) '0' ++ digits = _
      rw [hsucc, List.replicate_succ, List.cons_append]
    rw [hone, hpadded]
    rfl

/-- A fraction of a double is written as one of a decimal. -/
theorem positional_eq_cut {d places : ℕ} (hd : d % 10 ≠ 0) (hplaces : 0 < places) :
    Binary64.positional d (-places) =
      (Decimal.positional d places).1 ++ pointText (Decimal.positional d places).2 := by
  have hsplit := splitDigits_eq_padded (Nat.toDigits 10 d) places
  obtain ⟨padded, hpadded⟩ : ∃ padded,
      List.replicate (places + 1 - (Nat.toDigits 10 d).length) '0' ++ Nat.toDigits 10 d = padded :=
    ⟨_, rfl⟩
  dsimp only at hsplit
  rw [hpadded] at hsplit
  have hlength : places < padded.length := by
    rw [← hpadded, List.length_append, List.length_replicate]
    omega
  have hne : padded.drop (padded.length - places) ≠ [] := by
    rw [ne_eq, List.drop_eq_nil_iff]
    omega
  -- the last digit is not zero, so nothing of the fraction is left out
  have hlast : (padded.drop (padded.length - places)).getLast? ≠ some '0' := by
    have hzero : (d % 10).digitChar ≠ '0' := fun h => hd (Nat.digitChar_eq_zero.mp h)
    rw [List.getLast?_drop, if_neg (by omega), ← hpadded, List.getLast?_append, getLast?_toDigits]
    exact fun h => hzero (Option.some.inj h)
  unfold Binary64.positional Decimal.positional pointText
  rw [if_neg (by omega), neg_neg, Int.toNat_natCast, Nat.toList_repr]
  dsimp only
  rw [hpadded, hsplit, dropEndZeros_of_getLast? hlast, if_neg hne]

end Json

end ScriptEngine
