import Mathlib.Data.List.TakeWhile
import ScriptEngine.Decimal.Text
import ScriptEngine.Proofs.Decimal.Quotient
import ScriptEngine.Proofs.Text.Numeral

/-!
# Which texts are decimals

A `Literal` is an optional sign, digits with at most one point among them, and an optional
exponent; `Literal.text` is how it is written and `Literal.value` the number that it denotes.

`Decimal.parse` cuts the text at the exponent mark and at the point, drops the zeros at the end of
the fraction and glues the rest; it is the glued digits that are looked at. So the sign may come
after the point, or a second one after the first (`MisplacedSign`), and of a literal such as
`.0` no digit is left (`Literal.BareZeros`). Apart from these, `parse` reads literals and nothing
else, and answers what they denote (`parse_ok_iff_literal`).
-/

namespace ScriptEngine.Decimal

open Text (Sign AllDigits)

/-! ### Literals -/

/-- A written exponent. -/
structure Scale where
  upper : Bool
  sign : Option Sign
  digits : List Char
  allDigits : AllDigits digits
  ne_nil : digits ≠ []

namespace Scale

/-- The letter that marks an exponent. -/
def mark (x : Scale) : Char := if x.upper then 'E' else 'e'

/-- The text after the mark. -/
def numeral (x : Scale) : List Char := Sign.text x.sign ++ x.digits

/-- The exponent as a number. -/
def number (x : Scale) : ℤ := Sign.factor x.sign * Nat.ofDigitChars 10 x.digits 0

end Scale

/-- A number as it is written: digits on one side of the point at least. -/
structure Literal where
  sign : Option Sign
  whole : List Char
  /-- What follows the point, if there is one. -/
  fraction : Option (List Char)
  scale : Option Scale
  whole_digits : AllDigits whole
  fraction_digits : AllDigits (fraction.getD [])
  has_digit : whole ≠ [] ∨ fraction.getD [] ≠ []

namespace Literal

/-- The text before the exponent mark. -/
def body (ℓ : Literal) : List Char :=
  Sign.text ℓ.sign ++ ℓ.whole ++ ℓ.fraction.elim [] ('.' :: ·)

/-- The literal as it is written. -/
def text (ℓ : Literal) : List Char :=
  ℓ.body ++ ℓ.scale.elim [] fun x => x.mark :: x.numeral

/-- The exponent, which is zero if none is written. -/
def exponent (ℓ : Literal) : ℤ := ℓ.scale.elim 0 Scale.number

/-- The number that the literal denotes. -/
def value (ℓ : Literal) : ℚ :=
  Sign.factor ℓ.sign *
    (Nat.ofDigitChars 10 ℓ.whole 0 +
      Nat.ofDigitChars 10 (ℓ.fraction.getD []) 0 / 10 ^ (ℓ.fraction.getD []).length) *
    10 ^ ℓ.exponent

/-- The digits of the fraction that count. -/
def significant (ℓ : Literal) : List Char := dropEndZeros (ℓ.fraction.getD [])

/-- Both the exponent and the one of the last digit that counts fit into 32 bits. -/
def InRange (ℓ : Literal) : Prop :=
  Fits ℓ.exponent ∧ Fits (ℓ.exponent - ℓ.significant.length)

instance (ℓ : Literal) : Decidable ℓ.InRange := inferInstanceAs (Decidable (_ ∧ _))

/-- Nothing but a point and zeros after it, as in `.0`. -/
def BareZeros (ℓ : Literal) : Prop := ℓ.whole = [] ∧ ℓ.significant = []

instance (ℓ : Literal) : Decidable ℓ.BareZeros := inferInstanceAs (Decidable (_ ∧ _))

end Literal

/-- A text that starts with a sign in a place where literals have none. -/
def MisplacedSign (s : List Char) : Prop :=
  ['+', '-'] <+: s ∨ ['+', '.', '-'] <+: s ∨ ['.', '+'] <+: s ∨ ['.', '-'] <+: s

instance (s : List Char) : Decidable (MisplacedSign s) :=
  inferInstanceAs (Decidable (_ ∨ _ ∨ _ ∨ _))

/-! ### Zeros at the end -/

/-- What is dropped from a fraction is zeros. -/
theorem dropEndZeros_append_zeros (f : List Char) :
    ∃ k, dropEndZeros f ++ List.replicate k '0' = f := by
  -- the zeros dropped are those in front of the reversed text
  obtain ⟨zeros, hdef⟩ : ∃ zeros, f.reverse.takeWhile (· == '0') = zeros := ⟨_, rfl⟩
  have hzeros : zeros = List.replicate zeros.length '0' := by
    refine List.eq_replicate_iff.mpr ⟨rfl, fun c hc => ?_⟩
    rw [← hdef] at hc
    have hzero := List.mem_takeWhile_imp hc
    exact beq_iff_eq.mp hzero
  refine ⟨zeros.length, ?_⟩
  calc dropEndZeros f ++ List.replicate zeros.length '0'
      = (zeros ++ f.reverse.dropWhile (· == '0')).reverse := by
        rw [List.reverse_append, ← List.reverse_replicate, ← hzeros, dropEndZeros]
    _ = f := by rw [← hdef, List.takeWhile_append_dropWhile, List.reverse_reverse]

/-- Only digits are left just if there were only digits. -/
theorem allDigits_dropEndZeros {f : List Char} : AllDigits (dropEndZeros f) ↔ AllDigits f := by
  obtain ⟨k, hk⟩ := dropEndZeros_append_zeros f
  conv_rhs => rw [← hk, Text.allDigits_append]
  exact (and_iff_left (Text.allDigits_zeros k)).symm

/-- The zeros at the end of a fraction do not count. -/
theorem fraction_dropEndZeros (f : List Char) :
    (Nat.ofDigitChars 10 (dropEndZeros f) 0 : ℚ) / 10 ^ (dropEndZeros f).length =
      Nat.ofDigitChars 10 f 0 / 10 ^ f.length := by
  obtain ⟨k, hk⟩ := dropEndZeros_append_zeros f
  have hlen : f.length = (dropEndZeros f).length + k := by
    rw [← congrArg List.length hk, List.length_append, List.length_replicate]
  have hnum : Nat.ofDigitChars 10 f 0 = 10 ^ k * Nat.ofDigitChars 10 (dropEndZeros f) 0 := by
    rw [← congrArg (Nat.ofDigitChars 10 · 0) hk, Nat.ofDigitChars_append,
      Nat.ofDigitChars_replicate_zero]
  rw [hlen, hnum, pow_add]
  push_cast
  field_simp

/-! ### The pieces of a text -/

/-- Where the first part ends whose characters pass a test. -/
theorem eq_append_of_dropWhile {p : Char → Bool} {s rest : List Char} {c : Char}
    (h : s.dropWhile p = c :: rest) : s = s.takeWhile p ++ c :: rest ∧ p c = false := by
  constructor
  · rw [← h, List.takeWhile_append_dropWhile]
  · have hne : s.dropWhile p ≠ [] := by
      rw [h]
      exact List.cons_ne_nil c rest
    have hhead := List.head_dropWhile_not p hne
    simpa only [h, List.head_cons] using hhead

/-- A text is cut at the first character that fails a test. -/
theorem takeWhile_append_cons {p : Char → Bool} {s : List Char} {c : Char}
    (hs : ∀ x ∈ s, p x = true) (hc : p c = false) (rest : List Char) :
    (s ++ c :: rest).takeWhile p = s ∧ (s ++ c :: rest).dropWhile p = c :: rest := by
  have hc' : ¬ p c = true := by
    rw [hc]
    exact Bool.false_ne_true
  rw [List.takeWhile_append_of_pos hs, List.dropWhile_append_of_pos hs,
    List.takeWhile_cons_of_neg hc', List.dropWhile_cons_of_neg hc', List.append_nil]
  exact ⟨rfl, rfl⟩

/-- The text is cut at the first exponent mark. -/
theorem splitExponent_eq {s body : List Char} {numeral : Option (List Char)}
    (h : splitExponent s = (body, numeral)) :
    (s = body ∧ numeral = none) ∨
      ∃ c rest, (c = 'e' ∨ c = 'E') ∧ s = body ++ c :: rest ∧ numeral = some rest := by
  unfold splitExponent at h
  dsimp only at h
  -- without a mark nothing is left behind the first part
  split at h
  · obtain ⟨rfl, rfl⟩ := Prod.mk.inj h
    exact .inl ⟨rfl, rfl⟩
  · next c rest hdrop =>
    obtain ⟨rfl, rfl⟩ := Prod.mk.inj h
    obtain ⟨hs, hc⟩ := eq_append_of_dropWhile hdrop
    rw [Bool.not_eq_false', Bool.or_eq_true, beq_iff_eq, beq_iff_eq] at hc
    exact .inr ⟨c, rest, hc, hs, rfl⟩

/-- The body is cut at the point. Of the fraction, zeros at the end are left out. -/
theorem splitPoint_eq_some {body glued : List Char} {places : ℕ}
    (h : splitPoint body = some (glued, places)) :
    (body = glued ∧ places = 0) ∨
      ∃ whole fraction, body = whole ++ '.' :: fraction ∧ glued = whole ++ dropEndZeros fraction ∧
        places = (dropEndZeros fraction).length := by
  unfold splitPoint at h
  split at h
  · obtain ⟨rfl, rfl⟩ := Prod.mk.inj (Option.some.inj h)
    exact .inl ⟨rfl, rfl⟩
  · next c fraction hdrop =>
    obtain ⟨hs, hc⟩ := eq_append_of_dropWhile hdrop
    rw [bne_eq_false_iff_eq] at hc
    -- the first character that is not passed over is the point; a second one is refused
    rw [hc] at hs
    split at h
    · exact nomatch h
    · obtain ⟨rfl, rfl⟩ := Prod.mk.inj (Option.some.inj h)
      exact .inr ⟨_, fraction, hs, rfl, rfl⟩

/-- Digits without a sign are read as their number, which the sign before them is a factor of. -/
theorem readUnsigned_eq_some {sign : Option Sign} {digits : List Char} {n : ℤ} :
    readUnsigned (sign = some .minus) digits = some n ↔
      digits ≠ [] ∧ AllDigits digits ∧ n = Sign.factor sign * Nat.ofDigitChars 10 digits 0 := by
  have hfactor : ∀ m : ℕ, (if decide (sign = some .minus) = true then -(m : ℤ) else m) =
      Sign.factor sign * m := fun m => by
    match sign with
    | none => exact (one_mul _).symm
    | some .plus => exact (one_mul _).symm
    | some .minus => exact neg_eq_neg_one_mul _
  unfold readUnsigned
  dsimp only
  rw [hfactor, Text.natOfDigits_eq, ite_eq_iff, Bool.or_eq_true, not_or,
    List.isEmpty_iff, Bool.not_eq_true', Bool.not_eq_false, List.all_eq_true, Option.some.injEq]
  constructor
  · rintro (⟨-, h⟩ | ⟨⟨hne, hds⟩, rfl⟩)
    · exact nomatch h
    · exact ⟨hne, hds, rfl⟩
  · rintro ⟨hne, hds, rfl⟩
    exact .inr ⟨⟨hne, hds⟩, rfl⟩

/-- A minus is taken in, and digits follow. -/
theorem readCoeff_minus (rest : List Char) : readCoeff ('-' :: rest) = readUnsigned true rest :=
  rfl

/-- A plus is taken in, and digits follow, unless it is followed by a minus. -/
theorem readCoeff_plus {rest : List Char} (h : rest.head? ≠ some '-') :
    readCoeff ('+' :: rest) = readUnsigned false rest := by
  match rest with
  | [] => rfl
  | c :: rest =>
    rw [List.head?_cons, ne_eq, Option.some.injEq] at h
    simp [readCoeff, readUnsigned, h]

/-- A text that begins with no sign is digits. -/
theorem readCoeff_of_head {s : List Char} (hplus : s.head? ≠ some '+')
    (hminus : s.head? ≠ some '-') : readCoeff s = readUnsigned false s := by
  match s with
  | [] => rfl
  | c :: rest =>
    rw [List.head?_cons, ne_eq, Option.some.injEq] at hplus hminus
    simp [readCoeff, readUnsigned, hplus, hminus]

/-- What is read as a coefficient is digits with one sign before them at most, or with a plus
and a minus. -/
theorem readCoeff_eq_some {s : List Char} {n : ℤ} (h : readCoeff s = some n) :
    ['+', '-'] <+: s ∨ ∃ sign ds, s = Sign.text sign ++ ds ∧ ds ≠ [] ∧ AllDigits ds := by
  have digits : ∀ (sign : Option Sign) {ds : List Char},
      readUnsigned (sign = some .minus) ds = some n → ds ≠ [] ∧ AllDigits ds :=
    fun sign ds hds => ⟨(readUnsigned_eq_some.mp hds).1, (readUnsigned_eq_some.mp hds).2.1⟩
  -- the reader strips a plus first and then a minus, which is how two signs are read
  by_cases hplus : s.head? = some '+'
  · obtain ⟨rest, rfl⟩ := List.head?_eq_some_iff.mp hplus
    by_cases hminus : rest.head? = some '-'
    · obtain ⟨rest, rfl⟩ := List.head?_eq_some_iff.mp hminus
      exact .inl (List.prefix_append ['+', '-'] rest)
    · rw [readCoeff_plus hminus] at h
      exact .inr ⟨some .plus, rest, rfl, digits (some .plus) h⟩
  · by_cases hminus : s.head? = some '-'
    · obtain ⟨rest, rfl⟩ := List.head?_eq_some_iff.mp hminus
      exact .inr ⟨some .minus, rest, rfl, digits (some .minus) h⟩
    · rw [readCoeff_of_head hplus hminus] at h
      exact .inr ⟨none, s, rfl, digits none h⟩

/-- A sign and digits are read as the number they denote. -/
theorem readCoeff_append {sign : Option Sign} {ds : List Char} (hne : ds ≠ [])
    (hds : AllDigits ds) :
    readCoeff (Sign.text sign ++ ds) =
      some (Sign.factor sign * Nat.ofDigitChars 10 ds 0) := by
  have hread : readUnsigned (sign = some .minus) ds =
      some (Sign.factor sign * Nat.ofDigitChars 10 ds 0) :=
    readUnsigned_eq_some.mpr ⟨hne, hds, rfl⟩
  -- a digit is no sign
  have hhead : ∀ {c : Char}, c.isDigit = false → ds.head? ≠ some c := fun hc h =>
    Text.ne_of_isDigit (hds _ (List.mem_of_mem_head? h)) hc rfl
  match sign with
  | none => exact (readCoeff_of_head (hhead rfl) (hhead rfl)).trans hread
  | some .plus => exact (readCoeff_plus (hhead rfl)).trans hread
  | some .minus => exact (readCoeff_minus ds).trans hread

/-! ### The whole text -/

/-- An exponent is what its text is read as, or zero. -/
theorem readExponent_eq_ok_iff {s : String} {numeral : Option (List Char)} {exp : ℤ} :
    readExponent s numeral = .ok exp ↔
      (numeral = none ∧ exp = 0) ∨
        ∃ ds e, numeral = some ds ∧ Text.readInt32 ds = .ok e ∧ exp = e.toInt := by
  constructor
  · intro h
    unfold readExponent at h
    split at h
    · exact .inl ⟨rfl, (Except.ok.inj h).symm⟩
    · next ds =>
      split at h
      · next e he => exact .inr ⟨ds, e, rfl, he, (Except.ok.inj h).symm⟩
      all_goals exact nomatch h
  · rintro (⟨rfl, rfl⟩ | ⟨ds, e, rfl, he, rfl⟩)
    · rfl
    · rw [readExponent, he]

/-- A body is read when its digits are, and the exponent of the last one is in range. -/
theorem readBody_eq_ok_iff {s : String} {body : List Char} {exp : ℤ} {d : Decimal} :
    readBody s body exp = .ok d ↔
      ∃ glued places coeff, splitPoint body = some (glued, places) ∧
        readCoeff glued = some coeff ∧ Fits (exp - places) ∧
        d = ⟨coeff, Int32.ofInt (exp - places)⟩ := by
  constructor
  · intro h
    unfold readBody at h
    split at h
    · exact nomatch h
    · next glued places hpoint =>
      split at h
      · exact nomatch h
      · next coeff hcoeff =>
        dsimp only at h
        split at h
        · next hfits =>
          exact ⟨glued, places, coeff, hpoint, hcoeff, (fitsExp_iff _).mp hfits,
            (Except.ok.inj h).symm⟩
        · exact nomatch h
  · rintro ⟨glued, places, coeff, hpoint, hcoeff, hfits, rfl⟩
    unfold readBody
    simp only [hpoint, hcoeff, (fitsExp_iff _).mpr hfits, if_true]

/-- A text is read when each of its pieces is. -/
theorem parse_eq_ok_iff {s : String} {d : Decimal} :
    parse s = .ok d ↔
      ∃ body numeral exp, splitExponent s.toList = (body, numeral) ∧
        readExponent s numeral = .ok exp ∧ readBody s body exp = .ok d := by
  have hparse : parse s = (readExponent s (splitExponent s.toList).2).bind
      (readBody s (splitExponent s.toList).1) := rfl
  rw [hparse]
  constructor
  · intro h
    obtain ⟨exp, hexp⟩ : ∃ exp, readExponent s (splitExponent s.toList).2 = .ok exp := by
      cases hexp : readExponent s (splitExponent s.toList).2 with
      | error e =>
        rw [hexp] at h
        exact nomatch h
      | ok exp => exact ⟨exp, rfl⟩
    rw [hexp] at h
    exact ⟨_, _, exp, rfl, hexp, h⟩
  · rintro ⟨body, numeral, exp, hsplit, hexp, hbody⟩
    rw [hsplit, hexp]
    exact hbody

/-! ### Literals are read -/

namespace Literal

variable (ℓ : Literal)

/-- The number that is read, as it is stored. -/
def decimal : Decimal :=
  ⟨Sign.factor ℓ.sign * Nat.ofDigitChars 10 (ℓ.whole ++ ℓ.significant) 0,
    Int32.ofInt (ℓ.exponent - ℓ.significant.length)⟩

/-- The number that is stored is the one that the literal denotes: the digits of the fraction move
the exponent. -/
theorem toRat_decimal {ℓ : Literal} (h : ℓ.InRange) : ℓ.decimal.toRat = ℓ.value := by
  have hplaces : (0 : ℚ) < 10 ^ ℓ.significant.length := by positivity
  rw [decimal, toRat_mk, toInt_ofInt_of_fits h.2, value, ← fraction_dropEndZeros,
    Nat.ofDigitChars_append, Nat.ofDigitChars_eq_ofDigitChars_zero, zpow_sub₀ (by norm_num),
    zpow_natCast]
  change _ = _ * (_ + (Nat.ofDigitChars 10 ℓ.significant 0 : ℚ) / 10 ^ ℓ.significant.length) * _
  push_cast
  field_simp

/-- Neither a point nor an exponent mark is among signs and digits. -/
theorem ne_of_mem_front {c : Char} (h : c ∈ Sign.text ℓ.sign ++ ℓ.whole) :
    c ≠ '.' ∧ c ≠ 'e' ∧ c ≠ 'E' := by
  obtain hsign | hdigit := List.mem_append.mp h
  · obtain rfl | rfl := Sign.mem_text hsign <;> decide
  · have hc := ℓ.whole_digits c hdigit
    exact ⟨Text.ne_of_isDigit hc rfl, Text.ne_of_isDigit hc rfl, Text.ne_of_isDigit hc rfl⟩

/-- There is no exponent mark before the exponent. -/
theorem ne_of_mem_body {c : Char} (h : c ∈ ℓ.body) : c ≠ 'e' ∧ c ≠ 'E' := by
  obtain hfront | hfraction := List.mem_append.mp h
  · exact (ℓ.ne_of_mem_front hfront).2
  · have hdigits := ℓ.fraction_digits
    cases hf : ℓ.fraction with
    | none =>
      rw [hf] at hfraction
      exact nomatch hfraction
    | some f =>
      rw [hf] at hfraction hdigits
      obtain rfl | hc := List.mem_cons.mp hfraction
      · decide
      · exact ⟨Text.ne_of_isDigit (hdigits c hc) rfl, Text.ne_of_isDigit (hdigits c hc) rfl⟩

/-- A literal is cut at its exponent mark. -/
theorem splitExponent_text :
    splitExponent ℓ.text = (ℓ.body, ℓ.scale.map Scale.numeral) := by
  have hbody : ∀ c ∈ ℓ.body, (!(c == 'e' || c == 'E')) = true := fun c hc => by
    obtain ⟨h₁, h₂⟩ := ℓ.ne_of_mem_body hc
    rw [Bool.not_eq_true', Bool.or_eq_false_iff, beq_eq_false_iff_ne, beq_eq_false_iff_ne]
    exact ⟨h₁, h₂⟩
  unfold splitExponent text
  dsimp only
  -- no character of the body is a mark, so the first mark is the literal's own, if there is one
  cases ℓ.scale with
  | none =>
    have hnil := List.dropWhile_eq_nil_iff.mpr hbody
    rw [Option.elim_none, List.append_nil, hnil]
    rfl
  | some x =>
    have hmark : (!(x.mark == 'e' || x.mark == 'E')) = false := by
      unfold Scale.mark
      split <;> rfl
    obtain ⟨htake, hdrop⟩ := takeWhile_append_cons hbody hmark x.numeral
    rw [Option.elim_some, htake, hdrop]
    rfl

/-- A literal's body is cut at its point. -/
theorem splitPoint_body :
    splitPoint ℓ.body =
      some (Sign.text ℓ.sign ++ (ℓ.whole ++ ℓ.significant), ℓ.significant.length) := by
  have hfront : ∀ c ∈ Sign.text ℓ.sign ++ ℓ.whole, (c != '.') = true := fun c hc =>
    bne_iff_ne.mpr (ℓ.ne_of_mem_front hc).1
  have hdigits := ℓ.fraction_digits
  unfold splitPoint body significant
  -- the signs and digits in front have no point, so the first point is the literal's own
  cases hf : ℓ.fraction with
  | none =>
    have hnil := List.dropWhile_eq_nil_iff.mpr hfront
    rw [Option.elim_none, List.append_nil, hnil]
    simp [dropEndZeros]
  | some f =>
    rw [hf] at hdigits
    obtain ⟨htake, hdrop⟩ := takeWhile_append_cons hfront (bne_self_eq_false '.') f
    have hpoint : ¬ f.contains '.' = true := fun h =>
      Text.ne_of_isDigit (hdigits '.' (List.contains_iff_mem.mp h)) rfl rfl
    rw [Option.elim_some, hdrop]
    dsimp only
    rw [if_neg hpoint, htake, List.append_assoc]
    rfl

/-- A literal's exponent is read as what it denotes. -/
theorem readExponent_numeral {ℓ : Literal} (h : Fits ℓ.exponent) (s : String) :
    readExponent s (ℓ.scale.map Scale.numeral) = .ok ℓ.exponent := by
  unfold exponent at h ⊢
  rw [readExponent_eq_ok_iff]
  cases hs : ℓ.scale with
  | none => exact .inl ⟨rfl, rfl⟩
  | some x =>
    rw [hs] at h
    have hread : Text.readInt32 x.numeral = .ok (Int32.ofInt x.number) :=
      Text.readInt32_eq_ok_iff.mpr
        ⟨x.sign, x.digits, rfl, x.ne_nil, x.allDigits, toInt_ofInt_of_fits h⟩
    exact .inr ⟨x.numeral, _, rfl, hread, (toInt_ofInt_of_fits h).symm⟩

/-- A literal is read, unless it has no digits left or leaves the range. -/
theorem parse_eq_decimal {ℓ : Literal} {s : String} (hs : ℓ.text = s.toList) (hr : ℓ.InRange)
    (hz : ¬ ℓ.BareZeros) : parse s = .ok ℓ.decimal := by
  have hne : ℓ.whole ++ ℓ.significant ≠ [] := fun h => hz (List.append_eq_nil_iff.mp h)
  have hdigits : AllDigits (ℓ.whole ++ ℓ.significant) :=
    Text.allDigits_append.mpr ⟨ℓ.whole_digits, allDigits_dropEndZeros.mpr ℓ.fraction_digits⟩
  have hsplit := ℓ.splitExponent_text
  rw [hs] at hsplit
  exact parse_eq_ok_iff.mpr ⟨_, _, _, hsplit, readExponent_numeral hr.1 s,
    readBody_eq_ok_iff.mpr ⟨_, _, _, ℓ.splitPoint_body, readCoeff_append hne hdigits, hr.2, rfl⟩⟩

end Literal

/-! ### What is read is a literal -/

/-- Whether signs are misplaced is a matter of the first characters. -/
theorem MisplacedSign.of_prefix {s t : List Char} (h : MisplacedSign s) (hst : s <+: t) :
    MisplacedSign t := by
  obtain h | h | h | h := h
  · exact .inl (h.trans hst)
  · exact .inr (.inl (h.trans hst))
  · exact .inr (.inr (.inl (h.trans hst)))
  · exact .inr (.inr (.inr (h.trans hst)))

/-- What is cut off and read as an exponent is one. -/
theorem exists_scale {s body : List Char} {numeral : Option (List Char)} {text : String} {exp : ℤ}
    (hsplit : splitExponent s = (body, numeral)) (hexp : readExponent text numeral = .ok exp) :
    Fits exp ∧ ∃ scale : Option Scale, exp = scale.elim 0 Scale.number ∧
      s = body ++ scale.elim [] fun x => x.mark :: x.numeral := by
  -- a mark has been found just if there is something to read as an exponent
  obtain ⟨rfl, rfl⟩ | ⟨ds, e, rfl, he, rfl⟩ := readExponent_eq_ok_iff.mp hexp
  · obtain ⟨rfl, -⟩ | ⟨c, rest, -, -, hnone⟩ := splitExponent_eq hsplit
    · exact ⟨by decide, none, rfl, (List.append_nil s).symm⟩
    · exact nomatch hnone
  · obtain ⟨-, hsome⟩ | ⟨c, rest, hc, rfl, hrest⟩ := splitExponent_eq hsplit
    · exact nomatch hsome
    · obtain rfl := Option.some.inj hrest
      obtain ⟨sign, digits, rfl, hne, hdigits, hnum⟩ := Text.readInt32_eq_ok_iff.mp he
      refine ⟨⟨e.le_toInt, e.toInt_lt⟩, some ⟨c = 'E', sign, digits, hdigits, hne⟩, hnum, ?_⟩
      obtain rfl | rfl := hc <;> rfl

/-- What is cut off from a sign and digits leaves digits, or is less than the sign. -/
theorem sign_append_cases {sign : Option Sign} {digits front back : List Char}
    (h : front ++ back = Sign.text sign ++ digits) :
    (∃ whole, front = Sign.text sign ++ whole ∧ digits = whole ++ back) ∨
      (front = [] ∧ (['+'] <+: back ∨ ['-'] <+: back)) := by
  obtain ⟨rest, hsign, hback⟩ | ⟨whole, hfront, hdigits⟩ := List.append_eq_append_iff.mp h
  · match sign with
    | none =>
      obtain ⟨rfl, rfl⟩ := List.append_eq_nil_iff.mp hsign.symm
      exact .inl ⟨[], rfl, hback.symm⟩
    | some .plus =>
      obtain ⟨rfl, rfl⟩ | ⟨rfl, rfl⟩ := List.singleton_eq_append_iff.mp hsign
      · exact .inr ⟨rfl, .inl ⟨digits, hback.symm⟩⟩
      · exact .inl ⟨[], rfl, hback.symm⟩
    | some .minus =>
      obtain ⟨rfl, rfl⟩ | ⟨rfl, rfl⟩ := List.singleton_eq_append_iff.mp hsign
      · exact .inr ⟨rfl, .inr ⟨digits, hback.symm⟩⟩
      · exact .inl ⟨[], rfl, hback.symm⟩
  · exact .inl ⟨whole, hfront, hdigits⟩

/-- A plus and a minus that are glued were side by side, or with the point between them. -/
theorem misplacedSign_of_glued {front back tail : List Char} (htail : back <+: tail)
    (h : ['+', '-'] <+: front ++ back) : MisplacedSign (front ++ '.' :: tail) := by
  -- whether the two glued characters lie before the point, around it or behind it
  match front with
  | [] =>
    have hplus : ['+'] <+: tail := ((List.prefix_append ['+'] ['-']).trans h).trans htail
    exact .inr (.inr (.inl (List.cons_prefix_cons.mpr ⟨rfl, hplus⟩)))
  | [c] =>
    obtain ⟨rfl, hminus⟩ := List.cons_prefix_cons.mp h
    refine .inr (.inl (List.cons_prefix_cons.mpr ⟨rfl, List.cons_prefix_cons.mpr ⟨rfl, ?_⟩⟩))
    exact hminus.trans htail
  | c :: c' :: rest =>
    obtain ⟨rfl, hminus⟩ := List.cons_prefix_cons.mp h
    obtain ⟨rfl, -⟩ := List.cons_prefix_cons.mp hminus
    exact .inl (List.prefix_append ['+', '-'] _)

/-- A body that is read is that of a literal, unless signs are misplaced in it. -/
theorem exists_body {body glued : List Char} {places : ℕ} {coeff : ℤ}
    (hpoint : splitPoint body = some (glued, places)) (hcoeff : readCoeff glued = some coeff)
    (hbody : ¬ MisplacedSign body) :
    ∃ ℓ : Literal, ℓ.body = body ∧ ℓ.significant.length = places ∧ ¬ ℓ.BareZeros := by
  -- without a point, the glued digits are the body itself
  obtain ⟨rfl, rfl⟩ | ⟨front, tail, rfl, rfl, rfl⟩ := splitPoint_eq_some hpoint
  · obtain hsigns | ⟨sign, ds, rfl, hne, hds⟩ := readCoeff_eq_some hcoeff
    · exact absurd (.inl hsigns) hbody
    · exact ⟨⟨sign, ds, none, none, hds, Text.allDigits_nil, .inl hne⟩, List.append_nil _, rfl,
        fun hz => hne hz.1⟩
  -- with one, zeros at the end of the fraction have been left out; they are digits, too
  · have hprefix : dropEndZeros tail <+: tail := by
      obtain ⟨k, hk⟩ := dropEndZeros_append_zeros tail
      exact ⟨_, hk⟩
    obtain hsigns | ⟨sign, ds, hglued, hne, hds⟩ := readCoeff_eq_some hcoeff
    · exact absurd (misplacedSign_of_glued hprefix hsigns) hbody
    · obtain ⟨whole, rfl, rfl⟩ | ⟨rfl, hsign⟩ := sign_append_cases hglued
      · obtain ⟨hwhole, hsignificant⟩ := Text.allDigits_append.mp hds
        have hdigit : whole ≠ [] ∨ tail ≠ [] := by
          rw [ne_eq, List.append_eq_nil_iff, not_and_or] at hne
          -- if no digit were in the literal, none would have been glued
          exact hne.imp_right fun hs hnil => hs (by rw [hnil]; rfl)
        exact ⟨⟨sign, whole, some tail, none, hwhole, allDigits_dropEndZeros.mp hsignificant,
          hdigit⟩, rfl, rfl, fun hz => hne (List.append_eq_nil_iff.mpr hz)⟩
      · -- the sign is behind the point
        refine absurd (.inr (.inr ?_)) hbody
        obtain hplus | hminus := hsign
        · exact .inl (List.cons_prefix_cons.mpr ⟨rfl, hplus.trans hprefix⟩)
        · exact .inr (List.cons_prefix_cons.mpr ⟨rfl, hminus.trans hprefix⟩)

/-- What is read is a literal, unless there is a sign where it has no place. -/
theorem exists_literal_of_parse {s : String} {d : Decimal} (h : parse s = .ok d)
    (hs : ¬ MisplacedSign s.toList) :
    ∃ ℓ : Literal, ℓ.text = s.toList ∧ ℓ.InRange ∧ ¬ ℓ.BareZeros := by
  obtain ⟨body, numeral, exp, hsplit, hexp, hread⟩ := parse_eq_ok_iff.mp h
  obtain ⟨glued, places, coeff, hpoint, hcoeff, hfits, -⟩ := readBody_eq_ok_iff.mp hread
  obtain ⟨hexpfits, scale, rfl, htext⟩ := exists_scale hsplit hexp
  have hbody : ¬ MisplacedSign body := fun hm => hs <| by
    rw [htext]
    exact hm.of_prefix (List.prefix_append body _)
  obtain ⟨ℓ, rfl, rfl, hz⟩ := exists_body hpoint hcoeff hbody
  exact ⟨{ ℓ with scale := scale }, htext.symm, ⟨hexpfits, hfits⟩, hz⟩

/-! ### Literals have no misplaced signs -/

/-- A digit ends the place where signs may be misplaced. -/
theorem not_misplacedSign_sign_cons {sign : Option Sign} {c : Char} (hc : c.isDigit = true)
    (rest : List Char) : ¬ MisplacedSign (Sign.text sign ++ c :: rest) := by
  have hplus := Text.ne_of_isDigit hc (x := '+') rfl
  have hminus := Text.ne_of_isDigit hc (x := '-') rfl
  have hpoint := Text.ne_of_isDigit hc (x := '.') rfl
  match sign with
  | none => simp [MisplacedSign, Sign.text, List.cons_prefix_cons, hplus.symm, hpoint.symm]
  | some .plus => simp [MisplacedSign, Sign.text, List.cons_prefix_cons, hminus.symm, hpoint.symm]
  | some .minus => simp [MisplacedSign, Sign.text, List.cons_prefix_cons]

/-- So does a digit behind the point. -/
theorem not_misplacedSign_sign_point_cons {sign : Option Sign} {c : Char} (hc : c.isDigit = true)
    (rest : List Char) : ¬ MisplacedSign (Sign.text sign ++ '.' :: c :: rest) := by
  have hplus := Text.ne_of_isDigit hc (x := '+') rfl
  have hminus := Text.ne_of_isDigit hc (x := '-') rfl
  match sign with
  | none => simp [MisplacedSign, Sign.text, List.cons_prefix_cons, hplus.symm, hminus.symm]
  | some .plus => simp [MisplacedSign, Sign.text, List.cons_prefix_cons, hminus.symm]
  | some .minus => simp [MisplacedSign, Sign.text, List.cons_prefix_cons]

/-- A literal has no misplaced signs: behind its sign, or behind the point that follows, there is a
digit. -/
theorem Literal.not_misplacedSign_text (ℓ : Literal) : ¬ MisplacedSign ℓ.text := by
  have hwhole := ℓ.whole_digits
  have hfraction := ℓ.fraction_digits
  have hdigit := ℓ.has_digit
  unfold text body
  -- the first digit is in front of the point, or right behind it
  cases hw : ℓ.whole with
  | cons c rest =>
    rw [hw] at hwhole
    have hc := (Text.allDigits_cons.mp hwhole).1
    rw [List.append_assoc, List.append_assoc]
    exact not_misplacedSign_sign_cons hc _
  | nil =>
    cases hf : ℓ.fraction with
    | none =>
      rw [hw, hf] at hdigit
      exact (hdigit.elim (· rfl) (· rfl)).elim
    | some f =>
      rw [hf] at hfraction
      cases f with
      | nil =>
        rw [hw, hf] at hdigit
        exact (hdigit.elim (· rfl) (· rfl)).elim
      | cons c rest =>
        have hc := (Text.allDigits_cons.mp hfraction).1
        rw [List.append_assoc, List.append_assoc]
        exact not_misplacedSign_sign_point_cons hc _

/-- **A decimal is read from a literal, and is the number that it denotes.** A text without a sign
where literals have none is read just if it is a literal whose exponents fit into 32 bits, and
which is not a point with zeros after it only. -/
theorem parse_ok_iff_literal (s : String) (v : ℚ) :
    (¬ MisplacedSign s.toList ∧ ∃ d, parse s = .ok d ∧ d.toRat = v) ↔
      ∃ ℓ : Literal, ℓ.text = s.toList ∧ ℓ.InRange ∧ ¬ ℓ.BareZeros ∧ ℓ.value = v := by
  constructor
  · rintro ⟨hs, d, hd, rfl⟩
    obtain ⟨ℓ, htext, hr, hz⟩ := exists_literal_of_parse hd hs
    refine ⟨ℓ, htext, hr, hz, ?_⟩
    -- the reader answers one number for a text, so it is that of the literal found
    have hsame := hd.symm.trans (ℓ.parse_eq_decimal htext hr hz)
    rw [Except.ok.inj hsame, Literal.toRat_decimal hr]
  · rintro ⟨ℓ, htext, hr, hz, rfl⟩
    have hs := ℓ.not_misplacedSign_text
    rw [htext] at hs
    exact ⟨hs, ℓ.decimal, ℓ.parse_eq_decimal htext hr hz, Literal.toRat_decimal hr⟩

/-- Zero written as `.0` is refused, while two signs, or a sign behind the point, are read. -/
theorem parse_glued :
    (∃ ℓ : Literal, ℓ.text = ".0".toList ∧ ℓ.InRange ∧ ℓ.value = 0 ∧
      parse ".0" = .error (.notNumeral ".0")) ∧
    (parse "+-5" = .ok ⟨-5, 0⟩ ∧ ∀ ℓ : Literal, ℓ.text ≠ "+-5".toList) ∧
    (parse ".-5" = .ok ⟨-5, -2⟩ ∧ ∀ ℓ : Literal, ℓ.text ≠ ".-5".toList) := by
  refine ⟨⟨⟨none, [], some ['0'], none, by decide, by decide, by decide⟩, rfl, by decide, ?_, rfl⟩,
    ⟨rfl, fun ℓ h => ℓ.not_misplacedSign_text ?_⟩, ⟨rfl, fun ℓ h => ℓ.not_misplacedSign_text ?_⟩⟩
  · have hzero : Nat.ofDigitChars 10 ['0'] 0 = 0 := rfl
    norm_num [Literal.value, hzero]
  · rw [h]
    decide
  · rw [h]
    decide

end ScriptEngine.Decimal
