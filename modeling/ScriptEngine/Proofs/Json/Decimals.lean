import ScriptEngine.Proofs.Json.Members
import ScriptEngine.Proofs.Json.Reals

/-!
# Decimals in documents

A decimal is written into a document by way of its own text: the text is read as a document, which is
written again. In quotes it is a string and stays as it is (`ofText_jsonText`). Bare, it is read as a
number. Integers of 64 bits stay, too, and everything else becomes a double (`readDocument_toText`):
its digits are taken in as long as their number fits 64 bits, and scaled by a power of ten
(`doubleOf?`). So a bare decimal keeps its number if the double does, and its text if the double is
written without an exponent (`realChars_eq_toText_iff`).
-/

namespace ScriptEngine

open Text (Sign AllDigits)

namespace Json

/-! ### Numbers that are read as doubles -/

/-- The double that is read from digits in front of a point and behind it. Digits are taken in as long
as their number fits 64 bits. -/
def doubleOf? (whole fraction : List Char) : Option Float :=
  let (n, left) := takeDigits 0 whole
  if left.isEmpty && fraction.isEmpty then some (Float.ofNat n)
  else
    let (m, rest) := takeDigits n fraction
    scaleFrom 10 (Float.ofNat m) (left.length - (fraction.length - rest.length : ℕ))

/-- If no digit is left, the number taken in is that of all the digits. -/
theorem takeDigits_left {ds : List Char} {acc : ℕ} (h : (takeDigits acc ds).2 = []) :
    (takeDigits acc ds).1 = Nat.ofDigitChars 10 ds acc := by
  induction ds generalizing acc with
  | nil => rfl
  | cons d ds ih =>
    have hnext : acc * 10 + (d.toNat - 48) = 10 * acc + (d.toNat - '0'.toNat) := by
      rw [mul_comm]
      rfl
    rw [takeDigits] at h ⊢
    split at h
    · cases h
    · next hfits =>
      rw [if_neg hfits, ih h, hnext, Nat.ofDigitChars_cons]

/-- What is taken in has 64 bits, wherever the reader stops. -/
theorem takeDigits_le {ds : List Char} {acc : ℕ} (h : acc ≤ 18446744073709551615) :
    (takeDigits acc ds).1 ≤ 18446744073709551615 := by
  induction ds generalizing acc with
  | nil => exact h
  | cons d ds ih =>
    rw [takeDigits]
    split
    · exact h
    · next hfits => exact ih (not_lt.mp hfits)

/-- A double with its sign, or what is wrong with it. -/
def readDouble (negative : Bool) (x : Option Float) (c : Cursor) : Reader Json :=
  match x with
  | some x => .ok (.real (if negative then -x else x), c)
  | none => c.flaw .numberRange

/-- At the end of a text all the digits are one run. -/
theorem digits_end {ds : List Char} (hds : AllDigits ds) (place : ℕ) :
    Cursor.digits ⟨ds, place⟩ = (ds, ⟨[], place + ds.length⟩) := by
  rw [Cursor.digits, List.takeWhile_eq_self_iff.mpr hds, List.dropWhile_eq_nil_iff.mpr hds]

/-- A fraction is read at the end of a text. -/
theorem readFraction_end (negative : Bool) (n : ℕ) (e : ℤ) {fraction : List Char}
    (hdigits : AllDigits fraction) (hne : fraction ≠ []) (place : ℕ) :
    ∃ c : Cursor, c.rest = [] ∧ readFraction negative n e ⟨fraction, place⟩ =
      readDouble negative (scaleFrom 10 (Float.ofNat (takeDigits n fraction).1)
        (e - (fraction.length - (takeDigits n fraction).2.length : ℕ))) c := by
  refine ⟨⟨[], place + fraction.length⟩, rfl, ?_⟩
  have hfull : fraction.isEmpty = false := by
    rw [List.isEmpty_eq_false_iff]
    exact hne
  rw [readFraction, digits_end hdigits]
  dsimp only
  rw [hfull, if_neg Bool.false_ne_true, readEnd]
  rfl

/-- Digits are read as a double at the end of a text, unless they are an integer of 64 bits. -/
theorem readNumber_end (negative : Bool) {d : Char} {ds fraction : List Char}
    (hwhole : AllDigits (d :: ds)) (hzero : d = '0' → ds = []) (hfraction : AllDigits fraction)
    (hlarge : fraction = [] → (takeDigits 0 (d :: ds)).2 = [] →
      negative = true ∧ 9223372036854775808 < (takeDigits 0 (d :: ds)).1) (place : ℕ) :
    ∃ c : Cursor, c.rest = [] ∧ readNumber negative ⟨d :: ds ++ pointText fraction, place⟩ =
      readDouble negative (doubleOf? (d :: ds) fraction) c := by
  have hend : ∀ c ∈ (pointText fraction).head?, c.isDigit = false := by
    unfold pointText
    split
    · exact nofun
    · rintro _ ⟨⟩
      rfl
  have hhead : ((pointText fraction).head?.map Char.isDigit).getD false = false := by
    cases hp : pointText fraction with
    | nil => rfl
    | cons c rest =>
      rw [hp] at hend
      exact hend c rfl
  have hd : d.isDigit = true := (Text.allDigits_cons.mp hwhole).1
  have hdigits := digits_run hwhole hzero hend place
  -- named as a pair, since what is left decides which branch follows
  obtain ⟨⟨n, left⟩, htake⟩ : ∃ r, takeDigits 0 (d :: ds) = r := ⟨_, rfl⟩
  rw [htake] at hlarge
  unfold readNumber doubleOf?
  dsimp only [List.cons_append] at hdigits ⊢
  rw [hd, Bool.not_true, if_neg Bool.false_ne_true, hdigits]
  dsimp only
  rw [hhead, Bool.and_false, if_neg Bool.false_ne_true, htake]
  dsimp only at hlarge ⊢
  -- without a fraction the number is whole: an integer of 64 bits is excluded by `hlarge`
  by_cases hf : fraction = []
  · subst hf
    have hpoint : pointText [] = [] := if_pos rfl
    refine ⟨⟨[], place + (d :: ds).length⟩, rfl, ?_⟩
    rw [hpoint]
    cases left with
    | nil =>
      obtain ⟨rfl, hn⟩ := hlarge rfl rfl
      change (if n = 0 ∨ 9223372036854775808 < n then _ else _) = _
      rw [if_pos (.inr hn)]
      rfl
    | cons c left =>
      rw [takeDigits]
      rfl
  -- with a fraction the reader goes on behind the point, and reads a double in any case
  · have hpoint : pointText fraction = '.' :: fraction := if_neg hf
    have hfull : fraction.isEmpty = false := by
      rw [List.isEmpty_eq_false_iff]
      exact hf
    rw [hpoint, hfull, Bool.and_false, if_neg Bool.false_ne_true]
    exact readFraction_end negative n left.length hfraction hf _

end Json

/-! ### The digits of a decimal -/

namespace Decimal

open Json (pointText takeDigits doubleOf? readDouble)

variable {n p : ℕ} {d : Decimal}

/-- The text of a decimal is its sign, its digits, and a point if digits follow it. -/
theorem toList_toText_eq (d : Decimal) :
    d.toText.toList = Sign.text d.writtenSign ++
      ((positional d.magnitude d.places).1 ++ pointText (positional d.magnitude d.places).2) := by
  rw [toList_toText, text_positionalLiteral, pointText]
  cases (positional d.magnitude d.places).2 with
  | nil => exact congrArg _ (List.append_nil _).symm
  | cons c rest => rfl

/-- Digits stand on both sides of the point. -/
theorem allDigits_positional (n p : ℕ) :
    AllDigits (positional n p).1 ∧ AllDigits (positional n p).2 :=
  ⟨(cut_splitDigits n p).whole_digits,
    allDigits_dropEndZeros.mpr (cut_splitDigits n p).fraction_digits⟩

/-- A zero is in front of the point only by itself. -/
theorem positional_whole (n p : ℕ) :
    ∃ d ds, (positional n p).1 = d :: ds ∧ (d = '0' → ds = []) := by
  obtain ⟨c, rest, hcons, -⟩ := Json.exists_cons_toDigits n
  unfold positional splitDigits
  -- the digits are cut at the point; with too few of them, a zero stands in front
  split
  · next hlt =>
    obtain ⟨k, hk⟩ : ∃ k, (Nat.toDigits 10 n).length - p = k + 1 :=
      Nat.exists_eq_add_one.mpr (by omega)
    refine ⟨c, rest.take k, ?_, fun hzero => ?_⟩
    · rw [hk, hcons]
      rfl
    -- a first digit that is zero is that of the number zero, which has no other
    · obtain rfl : n = 0 := n.eq_zero_or_pos.resolve_right fun hpos =>
        Text.head?_toDigits_ne_zero hpos c (by rw [hcons]; rfl) hzero
      obtain ⟨-, rfl⟩ := List.cons.inj hcons
      exact List.take_nil
  · exact ⟨'0', [], rfl, fun _ => rfl⟩

/-- The digits on both sides of the point denote the number. -/
theorem positional_number (n p : ℕ) :
    (Nat.ofDigitChars 10 (positional n p).1 0 : ℚ) +
      Nat.ofDigitChars 10 (positional n p).2 0 / 10 ^ (positional n p).2.length = n / 10 ^ p := by
  rw [← (cut_splitDigits n p).number, ← fraction_dropEndZeros (splitDigits (Nat.toDigits 10 n) p).2]
  rfl

/-! ### Integers of 64 bits -/

/-- The number is an integer between the least signed and the greatest unsigned one of 64 bits. -/
def Whole64 (d : Decimal) : Prop :=
  ∃ n : ℤ, d.toRat = n ∧ -9223372036854775808 ≤ n ∧ n < 18446744073709551616

/-- An integer as a decimal has the text of the integer. -/
theorem toText_ofInt (n : ℤ) : (⟨n, 0⟩ : Decimal).toText = toString n := by
  have hzero : (⟨n, 0⟩ : Decimal).exp.toInt.toNat = 0 := rfl
  have hcoeff : ((⟨n, 0⟩ : Decimal).rescale 0).coeff = n := by
    rw [coeff_rescale_zero_of_nonneg (by exact le_rfl : (0 : ℤ) ≤ (0 : Int32).toInt), hzero,
      pow_zero, Nat.cast_one, mul_one]
  rw [toText, render, if_pos (Int32.le_refl 0), hcoeff, String.ofList_toList]

/-- The text of an integer is that of its number. -/
theorem toText_of_toRat_eq_intCast {n : ℤ} (h : d.toRat = n) : d.toText = toString n := by
  rw [← toText_ofInt]
  refine toText_eq_of_toRat_eq (h.trans ?_)
  have hexp : (0 : Int32).toInt = 0 := rfl
  rw [toRat_mk, hexp, zpow_zero, mul_one]

/-- The double that is read from the digits of a decimal. -/
def double? (d : Decimal) : Option Float :=
  (doubleOf? (positional d.magnitude d.places).1 (positional d.magnitude d.places).2).map fun x =>
    if d.coeff < 0 then -x else x

/-- If all digits are taken in and there is no fraction, the number has 64 bits, or it is negative. -/
theorem large_of_not_whole64 (h : ¬ d.Whole64) (hfraction : (positional d.magnitude d.places).2 = [])
    (hleft : (takeDigits 0 (positional d.magnitude d.places).1).2 = []) :
    d.coeff < 0 ∧ 9223372036854775808 < (takeDigits 0 (positional d.magnitude d.places).1).1 := by
  obtain ⟨n, hn⟩ : ∃ n, (takeDigits 0 (positional d.magnitude d.places).1).1 = n := ⟨_, rfl⟩
  have hvalue : Nat.ofDigitChars 10 (positional d.magnitude d.places).1 0 = n := by
    rw [← Json.takeDigits_left hleft, hn]
  have hmax : n ≤ 18446744073709551615 := hn ▸ Json.takeDigits_le (Nat.zero_le _)
  have hquot : (d.magnitude : ℚ) / 10 ^ d.places = n := by
    rw [← positional_number, hfraction, hvalue]
    simp
  have hrat : d.toRat = Sign.factor d.writtenSign * n := by rw [toRat_eq_magnitude, hquot]
  rw [hn]
  -- a number in the range of its sign would be one of 64 bits, which `d` is not
  by_cases hneg : d.coeff < 0
  · refine ⟨hneg, ?_⟩
    by_contra hsmall
    rw [writtenSign, if_pos hneg] at hrat
    refine h ⟨-n, ?_, by omega, by omega⟩
    rw [hrat]
    change ((-1 : ℤ) : ℚ) * n = _
    push_cast
    ring
  · rw [writtenSign, if_neg hneg] at hrat
    refine absurd ⟨(n : ℤ), ?_, by omega, by omega⟩ h
    rw [hrat]
    change ((1 : ℤ) : ℚ) * n = _
    push_cast
    ring

/-! ### What the reader makes of a decimal -/

/-- The reader takes the sign and goes on with the digits. -/
theorem readValue_toText (d : Decimal) (fuel depth : ℕ) :
    ∃ place, Json.readValue (fuel + 1) depth ⟨d.toText.toList, 0⟩ =
      Json.readNumber (d.coeff < 0)
        ⟨(positional d.magnitude d.places).1 ++ pointText (positional d.magnitude d.places).2,
          place⟩ := by
  obtain ⟨c, cs, hcons, -⟩ := positional_whole d.magnitude d.places
  have hc : c.isDigit = true := (allDigits_positional d.magnitude d.places).1 c (by
    rw [hcons]
    exact List.mem_cons_self)
  rw [toList_toText_eq, hcons]
  -- the text begins with the sign only if the number is negative
  by_cases hneg : d.coeff < 0
  · rw [writtenSign, if_pos hneg, decide_eq_true hneg]
    exact ⟨1, rfl⟩
  · rw [writtenSign, if_neg hneg, decide_eq_false hneg]
    exact ⟨0, Json.readValue_digit hc fuel _ 0⟩

/-- What is not an integer of 64 bits is read as its double. -/
theorem readDocument_toText (h : ¬ d.Whole64) :
    ∃ place, Json.readDocument d.toText.toList =
      match d.double? with
      | some x => .ok (.real x)
      | none => .error ⟨.numberRange, place⟩ := by
  obtain ⟨c, cs, hcons, hzero⟩ := positional_whole d.magnitude d.places
  obtain ⟨hwhole, hfraction⟩ := allDigits_positional d.magnitude d.places
  have hlarge := large_of_not_whole64 h
  obtain ⟨place, hvalue⟩ := readValue_toText d (2 * d.toText.toList.length + 3) Json.maxDepth
  rw [double?]
  rw [hcons] at hwhole hlarge hvalue ⊢
  obtain ⟨after, hafter, hread⟩ := Json.readNumber_end (d.coeff < 0) hwhole hzero hfraction
    (fun hf hl => ⟨decide_eq_true (hlarge hf hl).1, (hlarge hf hl).2⟩) place
  refine ⟨after.place, ?_⟩
  rw [Json.readDocument, hvalue, hread]
  cases doubleOf? (c :: cs) (positional d.magnitude d.places).2 with
  | none => rfl
  -- nothing is left behind the number, so the document ends there
  | some x =>
    have hskip : after.skip.rest = [] := by
      rw [Json.Cursor.skip, hafter]
      rfl
    change (if after.skip.rest.isEmpty then _ else _) = _
    rw [hskip]
    by_cases hneg : d.coeff < 0
    · simp only [hneg, decide_true]
      rfl
    · simp only [hneg, decide_false]
      rfl

/-! ### Texts that stay -/

open Json (Denotes realChars written? digitsText)

/-- The text of a decimal denotes its number. -/
theorem denotes_toText (d : Decimal) : Denotes d.toText.toList d.toRat :=
  ⟨_, (toList_toText d).symm, by rw [value_positionalLiteral, toRat_eq_magnitude]⟩

/-- There is no exponent in the text of a decimal. -/
theorem notMem_toText (d : Decimal) : 'e' ∉ d.toText.toList := by
  obtain ⟨hwhole, hfraction⟩ := allDigits_positional d.magnitude d.places
  have hdigit : ('e').isDigit = false := rfl
  rw [toList_toText_eq, List.mem_append, List.mem_append, pointText]
  -- neither the sign, nor the digits, nor the point is an exponent's letter
  rintro (hsign | hmem | hmem)
  · exact absurd (Sign.mem_text hsign) (by decide)
  · exact Text.ne_of_isDigit (hwhole _ hmem) hdigit rfl
  · split at hmem
    · exact nomatch hmem
    · obtain heq | hmem := List.mem_cons.mp hmem
      · exact absurd heq (by decide)
      · exact Text.ne_of_isDigit (hfraction _ hmem) hdigit rfl

/-- Zero is an integer of 64 bits. -/
theorem whole64_zero (h : d.toRat = 0) : d.Whole64 :=
  ⟨0, by rw [h, Int.cast_zero], by decide, by decide⟩

/-- A sign's factor is one up to the sign. -/
theorem abs_factor (sign : Option Sign) : |(Sign.factor sign : ℚ)| = 1 := by
  rw [Text.Sign.factor_eq_ite]
  split <;> simp

/-- The magnitude of a decimal is that of its number. -/
theorem abs_toRat (d : Decimal) : |d.toRat| = d.magnitude / 10 ^ d.places := by
  have hpos : (0 : ℚ) ≤ d.magnitude / 10 ^ d.places := by positivity
  rw [toRat_eq_magnitude, abs_mul, abs_factor, one_mul, abs_of_nonneg hpos]

section

variable {negative : Bool} {n : ℕ} {e : ℤ}

/-- An integer that has not too many digits has 64 bits. -/
theorem whole64_of_digits (hvalue : d.toRat = Sign.factor (Json.signOf negative) * n * 10 ^ e)
    (habs : |d.toRat| = n * 10 ^ e) (he : 0 ≤ e) (hsmall : |d.toRat| < 10 ^ (16 : ℤ)) :
    d.Whole64 := by
  obtain ⟨k, rfl⟩ := Int.eq_ofNat_of_zero_le he
  have hlt : n * 10 ^ k < 10 ^ 16 := by
    rw [habs] at hsmall
    exact_mod_cast hsmall
  obtain ⟨w, hw⟩ : ∃ w, n * 10 ^ k = w := ⟨_, rfl⟩
  have hrat : d.toRat = ((Sign.factor (Json.signOf negative) * w : ℤ) : ℚ) := by
    rw [hvalue, ← hw, zpow_natCast]
    push_cast
    ring
  refine ⟨_, hrat, ?_⟩
  -- sixteen digits fit both kinds of integers of 64 bits
  rw [Text.Sign.factor_eq_ite]
  split <;> omega

/-- The sign is the same, as the number is not zero. -/
theorem signOf_eq_writtenSign (hvalue : d.toRat = Sign.factor (Json.signOf negative) * n * 10 ^ e)
    (hn : 0 < n) : Json.signOf negative = d.writtenSign := by
  have hpos : (0 : ℚ) < n * 10 ^ e := by positivity
  rw [mul_assoc] at hvalue
  rw [writtenSign_eq, hvalue]
  cases negative with
  | true =>
    have hneg : ((Sign.factor (Json.signOf true) : ℤ) : ℚ) * (n * 10 ^ e) < 0 := by
      change ((-1 : ℤ) : ℚ) * (n * 10 ^ e) < 0
      push_cast
      linarith
    rw [if_pos hneg]
    rfl
  | false =>
    have hnonneg : ¬ ((Sign.factor (Json.signOf false) : ℤ) : ℚ) * (n * 10 ^ e) < 0 := by
      change ¬ ((1 : ℤ) : ℚ) * (n * 10 ^ e) < 0
      push_cast
      linarith
    rw [if_neg hnonneg]
    rfl

/-- A double that is a fraction is written as the decimal is. -/
theorem toText_eq_positional (hvalue : d.toRat = Sign.factor (Json.signOf negative) * n * 10 ^ e)
    (habs : |d.toRat| = n * 10 ^ e) (he : e < 0) (hmod : n % 10 ≠ 0) :
    Sign.text (Json.signOf negative) ++ Binary64.positional n e = d.toText.toList := by
  obtain ⟨p, rfl⟩ : ∃ p : ℕ, e = -p := ⟨(-e).toNat, by omega⟩
  -- both have the same digits, as they are the same number without the sign
  have hdigits : positional d.magnitude d.places = positional n p := by
    refine positional_eq ?_
    rw [abs_toRat, zpow_neg, zpow_natCast, ← div_eq_mul_inv,
      div_eq_div_iff (by positivity) (by positivity)] at habs
    exact_mod_cast habs
  have hsign := signOf_eq_writtenSign hvalue (Nat.pos_of_ne_zero fun hzero => hmod (by rw [hzero]))
  rw [toList_toText_eq, hdigits, Json.positional_eq_cut hmod (by omega), hsign]

end

/-- **A double has the text of a decimal** if it has its number, and the order of the number is one at
which doubles are written without an exponent. -/
theorem realChars_eq_toText_iff (h : ¬ d.Whole64) {x : Float} :
    realChars x = d.toText.toList ↔
      written? x = some d.toRat ∧ 10 ^ (-5 : ℤ) ≤ |d.toRat| ∧ |d.toRat| < 10 ^ (16 : ℤ) := by
  -- zero is an integer of 64 bits, so the digits of the double can be spoken of
  have hne : d.toRat ≠ 0 := fun hzero => h (whole64_zero hzero)
  -- a text of the decimal denotes its number, so the double must be written with it
  suffices hwritten : written? x = some d.toRat →
      (realChars x = d.toText.toList ↔ 10 ^ (-5 : ℤ) ≤ |d.toRat| ∧ |d.toRat| < 10 ^ (16 : ℤ)) by
    constructor
    · intro htext
      have hx : written? x = some d.toRat :=
        Json.denotes_realChars_iff.mp (htext ▸ d.denotes_toText)
      exact ⟨hx, (hwritten hx).mp htext⟩
    · rintro ⟨hx, hbounds⟩
      exact (hwritten hx).mpr hbounds
  intro hx
  obtain ⟨negative, n, e, hchars, hvalue, -, hmod⟩ := Json.exists_digits_of_written hx hne
  have hn : 0 < n := Nat.pos_of_ne_zero fun hzero => hmod (by rw [hzero])
  have habs : |d.toRat| = n * 10 ^ e := by
    have hpos : (0 : ℚ) ≤ n * 10 ^ e := by positivity
    rw [hvalue, mul_assoc, abs_mul, abs_factor, one_mul, abs_of_nonneg hpos]
  have hlow := Json.le_order_iff hn e (-5)
  have hhigh := Json.le_order_iff hn e 16
  rw [← habs] at hlow hhigh
  rw [hchars, digitsText]
  dsimp only
  rw [if_neg hn.ne']
  -- the order of the number says where the first digit stands, and so which form the double has
  by_cases horder : -5 ≤ e + ((Nat.toDigits 10 n).length : ℤ) - 1 ∧
      e + ((Nat.toDigits 10 n).length : ℤ) - 1 ≤ 15
  · have hbounds : 10 ^ (-5 : ℤ) ≤ |d.toRat| ∧ |d.toRat| < 10 ^ (16 : ℤ) :=
      ⟨hlow.mp horder.1, not_le.mp (mt hhigh.mpr (by omega))⟩
    have he : ¬ 0 ≤ e := fun he => h (whole64_of_digits hvalue habs he hbounds.2)
    rw [if_pos horder, if_neg he]
    exact iff_of_true (toText_eq_positional hvalue habs (not_le.mp he) hmod) hbounds
  -- outside of these bounds the double is written with an exponent, which a decimal never is
  · rw [if_neg horder]
    refine iff_of_false (fun htext => d.notMem_toText ?_) fun hbounds => horder ⟨?_, ?_⟩
    · rw [← htext]
      simp
    · exact hlow.mpr hbounds.1
    · have := mt hhigh.mp (not_le.mpr hbounds.2)
      omega

end Decimal

/-! ### Decimals that are marshalled -/

namespace Json

variable {d : Decimal}

/-- Nothing of a literal is escaped in a string. -/
theorem escapeChar_of_mem {ℓ : Decimal.Literal} {c : Char} (h : c ∈ ℓ.text) :
    escapeChar c = [c] := by
  -- only signs, digits, points and exponents are in a literal
  obtain rfl | rfl | hc | rfl | rfl | rfl := Decimal.Literal.mem_text h
  · rfl
  · rfl
  · have hcode : 48 ≤ c.toNat := (Char.isDigit_iff_toNat.mp hc).1
    have hquote := Text.ne_of_isDigit hc (x := '"') rfl
    have hback := Text.ne_of_isDigit hc (x := '\\') rfl
    have htab := Text.ne_of_isDigit hc (x := '\t') rfl
    have hline := Text.ne_of_isDigit hc (x := '\n') rfl
    have hreturn := Text.ne_of_isDigit hc (x := '\r') rfl
    rw [escapeChar, if_neg hquote, if_neg hback, if_neg (by omega), if_neg htab, if_neg hline,
      if_neg (by omega), if_neg hreturn, if_neg (by omega)]
  · rfl
  · rfl
  · rfl

/-- In quotes, a decimal is a string. -/
theorem toText_text (d : Decimal) : (Json.text d.toText).toText = d.jsonText false := by
  have hescape : d.toText.toList.flatMap escapeChar = d.toText.toList := by
    rw [Decimal.toList_toText]
    exact (List.flatMap_congr fun c hc => escapeChar_of_mem hc).trans (List.flatMap_singleton' _)
  have hjson : d.jsonText false = "\"" ++ d.toText ++ "\"" := rfl
  rw [← String.toList_inj, hjson, String.toList_append, String.toList_append, Json.toText,
    String.toList_ofList, chars, quote, hescape]
  rfl

/-- The double that is read for a decimal is written with its number. -/
def Keeps (d : Decimal) : Prop := ∃ x, d.double? = some x ∧ written? x = some d.toRat

/-- The text is a literal for the number, bare or in quotes. -/
def DenotesAs (bare : Bool) (text : String) (v : ℚ) : Prop :=
  ∃ s, Denotes s v ∧ text.toList = if bare then s else '"' :: (s ++ ['"'])

/-- The text that a decimal has in a document denotes its number. -/
theorem denotesAs_jsonText (bare : Bool) (d : Decimal) :
    DenotesAs bare (d.jsonText bare) d.toRat := by
  refine ⟨d.toText.toList, d.denotes_toText, ?_⟩
  cases bare with
  | true => rfl
  | false =>
    have hjson : d.jsonText false = "\"" ++ d.toText ++ "\"" := rfl
    rw [hjson, String.toList_append, String.toList_append]
    rfl

/-- Quoted decimals, and integers of 64 bits, are documents that are written as they are read. -/
theorem ofText_jsonText {bare : Bool} (h : bare = false ∨ d.Whole64) :
    ∃ j : Json, ofText (d.jsonText bare) = .ok j ∧ j.toText = d.jsonText bare := by
  cases bare with
  | false =>
    refine ⟨.text d.toText, ?_, toText_text d⟩
    rw [← toText_text]
    exact (Exact.text _).ofText_toText trivial
  | true =>
    obtain ⟨n, hn, hmin, hmax⟩ := h.resolve_left nofun
    have htext : (Json.int n).toText = d.jsonText true := by
      rw [Json.toText, chars, String.ofList_toList]
      exact (Decimal.toText_of_toRat_eq_intCast hn).symm
    refine ⟨.int n, ?_, htext⟩
    rw [← htext]
    exact (Exact.int hmin hmax).ofText_toText trivial

/-- A number that is kept has seventeen digits at most. -/
theorem Keeps.digits (h : Keeps d) : ∃ c e : ℤ, |c| < 10 ^ 17 ∧ d.toRat = c * 10 ^ e := by
  obtain ⟨x, -, hx⟩ := h
  by_cases hzero : d.toRat = 0
  · exact ⟨0, 0, by norm_num, by rw [hzero, Int.cast_zero, zero_mul]⟩
  · obtain ⟨negative, n, e, -, hvalue, hmax, -⟩ := exists_digits_of_written hx hzero
    refine ⟨Sign.factor (signOf negative) * n, e, ?_, ?_⟩
    · rw [Text.Sign.factor_eq_ite, abs_lt]
      split <;> omega
    · rw [hvalue]
      push_cast
      rfl

/-- Two runs that are done with texts are the same if the texts are. -/
theorem done_text_iff {a b : String} {s : State} :
    Run.done (Value.text a) s = .done (.text b) s ↔ a = b := by
  rw [Run.done.injEq, Value.text.injEq, and_iff_left rfl]

/-- Whether a decimal's number is kept is said by its double. -/
theorem keeps_iff {x : Float} (h : d.double? = some x) : Keeps d ↔ written? x = some d.toRat := by
  constructor
  · rintro ⟨y, hy, hwritten⟩
    rwa [Option.some.inj (h.symm.trans hy)]
  · exact fun hwritten => ⟨x, h, hwritten⟩

section

variable {s : State} (E : Engine) (site : CallSite)

/-- What is quoted or an integer of 64 bits is marshalled with its own text. -/
theorem marshal_of_stays (h : s.settings.bareDecimals = false ∨ d.Whole64) :
    Builtin.run E site [.decimal d] .jsonMarshal s =
      .done (.text (d.jsonText s.settings.bareDecimals)) s := by
  obtain ⟨j, hj, htext⟩ := ofText_jsonText h
  rw [← htext]
  exact marshal_of_ok (v := .decimal d) hj E site

/-- If decimals are bare, what is not an integer of 64 bits is written as its double, if it has one. -/
theorem marshal_as_double (hbare : s.settings.bareDecimals = true) (h : ¬ d.Whole64) :
    (∀ x, d.double? = some x →
      Builtin.run E site [.decimal d] .jsonMarshal s = .done (.text (Json.real x).toText) s) ∧
    (d.double? = none → ∃ message, Builtin.run E site [.decimal d] .jsonMarshal s =
      .stop (.fault ⟨.json message, site.span⟩) s) := by
  have hof : ofValue s (.decimal d) = ofText d.toText := by
    change ofText (d.jsonText s.settings.bareDecimals) = _
    rw [hbare]
    rfl
  obtain ⟨place, hread⟩ := d.readDocument_toText h
  constructor
  · intro x hx
    rw [hx] at hread
    have hreal : ofText d.toText = .ok (.real x) := by rw [ofText, hread]
    exact marshal_of_ok (hof.trans hreal) E site
  · intro hnone
    rw [hnone] at hread
    obtain ⟨message, herror⟩ : ∃ message, ofText d.toText = .error message := by
      rw [ofText, hread]
      exact ⟨_, rfl⟩
    exact ⟨message, marshal_of_error (hof.trans herror) E site⟩

end

/-- **A decimal is marshalled as it is if it is quoted or an integer of 64 bits, and as a double
otherwise.** For every decimal and either setting of the flag: the text that `json.marshal` gives is
that of the decimal if decimals are quoted, if the decimal is an integer of 64 bits, or if it is the
number of its double and the double is written without an exponent. The text denotes the decimal if
decimals are quoted, if it is an integer of 64 bits, or if it is the number of its double, which it
can only be with seventeen digits at most. If decimals are bare, of all but the integers of 64 bits
the text of the double is given, or an error if there is none. -/
theorem marshal_decimal_iff (d : Decimal) (s : State) (E : Engine) (site : CallSite) :
    let bare := s.settings.bareDecimals
    let run := Builtin.run E site [.decimal d] .jsonMarshal s
    (run = .done (.text (d.jsonText bare)) s ↔ bare = false ∨ d.Whole64 ∨
      Keeps d ∧ 10 ^ (-5 : ℤ) ≤ |d.toRat| ∧ |d.toRat| < 10 ^ (16 : ℤ)) ∧
    ((∃ text, run = .done (.text text) s ∧ DenotesAs bare text d.toRat) ↔
      bare = false ∨ d.Whole64 ∨ Keeps d) ∧
    (Keeps d → ∃ c e : ℤ, |c| < 10 ^ 17 ∧ d.toRat = c * 10 ^ e) ∧
    (bare = true → ¬ d.Whole64 →
      (∀ x, d.double? = some x → run = .done (.text (Json.real x).toText) s) ∧
      (d.double? = none → ∃ message, run = .stop (.fault ⟨.json message, site.span⟩) s)) := by
  intro bare run
  refine and_assoc.mp ⟨?_, Keeps.digits, marshal_as_double E site⟩
  -- a decimal that stays has both answers; of the others, the double decides
  by_cases hstays : bare = false ∨ d.Whole64
  · have hrun : run = .done (.text (d.jsonText bare)) s := marshal_of_stays E site hstays
    have hor : ∀ p : Prop, bare = false ∨ d.Whole64 ∨ p := fun p => or_assoc.mp (.inl hstays)
    exact ⟨iff_of_true hrun (hor _), iff_of_true ⟨_, hrun, denotesAs_jsonText bare d⟩ (hor _)⟩
  · obtain ⟨hbare, hlarge⟩ := not_or.mp hstays
    rw [Bool.not_eq_false] at hbare
    have hor : ∀ p : Prop, bare = false ∨ d.Whole64 ∨ p ↔ p := fun p => by
      rw [← or_assoc, or_iff_right hstays]
    obtain ⟨hsome, hnone⟩ := marshal_as_double E site hbare hlarge
    rw [hor, hor]
    cases hx : d.double? with
    -- without a double there is no text at all, so neither answer is given
    | none =>
      obtain ⟨message, hrun⟩ := hnone hx
      have hnever : ∀ t, run ≠ .done (.text t) s := fun t h => nomatch hrun.symm.trans h
      have hlost : ¬ Keeps d := fun ⟨x, h, _⟩ => nomatch hx.symm.trans h
      exact ⟨iff_of_false (hnever _) fun h => hlost h.1,
        iff_of_false (fun ⟨t, h, _⟩ => hnever t h) hlost⟩
    -- with a double, its text is given: it is the decimal's by `realChars_eq_toText_iff`
    | some x =>
      have hrun : run = .done (.text (Json.real x).toText) s := hsome x hx
      have hchars : (Json.real x).toText.toList = realChars x := by
        rw [Json.toText, String.toList_ofList, chars]
      constructor
      · rw [hrun, done_text_iff, hbare, keeps_iff hx, ← Decimal.realChars_eq_toText_iff hlarge,
          ← hchars, String.toList_inj]
        rfl
      · rw [keeps_iff hx, ← denotes_realChars_iff, ← hchars, hbare]
        constructor
        · rintro ⟨text, htext, s', hs', rfl⟩
          rw [hrun, done_text_iff] at htext
          rwa [htext]
        · intro hdenotes
          exact ⟨_, hrun, _, hdenotes, rfl⟩

/-- The state of a program in which decimals are bare in documents. -/
def withBareDecimals : State :=
  { State.blank with settings := { State.blank.settings with bareDecimals := true } }

/-- Of a one at the twentieth place behind the point nothing is left. -/
theorem marshal_loses_digits :
    let s := withBareDecimals
    let d : Decimal := ⟨100000000000000000001, -20⟩
    Builtin.run (.level 1) ⟨State.root, .unknown, "marshal"⟩ [.decimal d] .jsonMarshal s =
        .done (.text "1.0") s ∧
      d.jsonText true = "1.00000000000000000001" ∧ ¬ DenotesAs true "1.0" d.toRat := by
  intro s d
  -- the text is read and written again by evaluation
  have hread : (ofText (d.jsonText true)).map Json.toText = .ok "1.0" := by decide +kernel
  obtain ⟨j, hj, htext⟩ := map_eq_ok_iff.mp hread
  have hrun := marshal_of_ok (s := s) (v := .decimal d) hj (.level 1)
    ⟨State.root, .unknown, "marshal"⟩
  rw [htext] at hrun
  refine ⟨hrun, by decide +kernel, ?_⟩
  rintro ⟨_, hdenotes, rfl⟩
  -- the text that is given denotes one, and a text denotes one number only
  have hone : Denotes "1.0".toList 1 := by
    refine ⟨⟨none, ['1'], some ['0'], none, by decide, by decide, by decide⟩, rfl, ?_⟩
    have hdigits : Nat.ofDigitChars 10 ['1', '0'] 0 = 10 := rfl
    rw [Decimal.Literal.value_eq]
    change ((1 : ℤ) : ℚ) * (Nat.ofDigitChars 10 ['1', '0'] 0 : ℕ) * 10 ^ ((0 : ℤ) - (1 : ℕ)) = 1
    rw [hdigits]
    norm_num
  have hvalue : d.toRat = 100000000000000000001 * 10 ^ (-20 : ℤ) := by
    rw [Decimal.toRat_mk]
    rfl
  have heq := hdenotes.unique hone
  rw [hvalue] at heq
  norm_num at heq

end Json

end ScriptEngine
