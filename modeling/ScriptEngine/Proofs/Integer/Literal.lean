import Mathlib.Data.List.Forall2
import Mathlib.Data.Nat.Digits.Defs
import ScriptEngine.Builtin.Conversion
import ScriptEngine.Proofs.Text.Numeral

/-!
# Which texts are integers

A `Numeral` is an optional sign, an optional mark of the base, and digits of the base with
underscores anywhere among them; `Numeral.text` is how it is written and `Numeral.value` the integer
that it denotes. `Literal.ofText` takes sign and mark off the front of a text, and there is only one
way to do so (`Splits`). What is left is read without the underscores, and there a sign may come
first again: `Numeral.inner` is that second sign. Literals are the numerals without one, that is,
those that have no sign behind their first character (`Numeral.inner_eq_none_iff`).

The readers accept the numerals whose integer is within 64 bits, and nothing else
(`int64?_eq_some_iff`, `uint64?_eq_some_iff`).
-/

namespace ScriptEngine.Text

/-- Nothing is taken off a text without blanks. -/
theorem trim_eq_self {s : List Char} (h : ∀ c ∈ s, isBlank c = false) : trim s = s := by
  -- the same at both ends, so the fact is stated for any text
  have hdrop : ∀ t : List Char, (∀ c ∈ t, isBlank c = false) → t.dropWhile isBlank = t := by
    intro t ht
    have hnone : ([] ++ t).dropWhile isBlank = t :=
      dropWhile_run nofun fun c hc => ht c (List.mem_of_mem_head? hc)
    exact hnone
  rw [trim, dropEndWhile, hdrop s h, hdrop s.reverse fun c hc => h c (List.mem_reverse.mp hc),
    List.reverse_reverse]

/-! ### Digits -/

/-- The character is the digit of `d` in a base. The digits from ten on are letters, in either
case. -/
def IsDigit (base d : ℕ) (c : Char) : Prop :=
  d < base ∧ (c = Nat.digitChar d ∨ c = (Nat.digitChar d).toUpper)

/-- Each digit up to fifteen has its value. -/
theorem digitInBase?_digitChar :
    ∀ d < 16, digitInBase? 16 (Nat.digitChar d) = some d ∧
      digitInBase? 16 (Nat.digitChar d).toUpper = some d := by
  decide

/-- The places of the digits among the characters. -/
theorem toNat_digitChar :
    ∀ d < 16, (Nat.digitChar d).toNat = (if d < 10 then 48 + d else 87 + d) ∧
      (10 ≤ d → (Nat.digitChar d).toUpper.toNat = 55 + d) := by
  decide

/-- No digit is a blank. -/
theorem isBlank_digitChar :
    ∀ d < 16, isBlank (Nat.digitChar d) = false ∧ isBlank (Nat.digitChar d).toUpper = false := by
  decide

/-- The value of a digit does not depend on the base, as long as it is below the base. -/
theorem digitInBase?_eq_some_iff_of_le {base base' d : ℕ} {c : Char} (hd : d < base)
    (hle : base ≤ base') : digitInBase? base c = some d ↔ digitInBase? base' c = some d := by
  have hd' : d < base' := by omega
  simp only [digitInBase?, Option.filter_eq_some_iff, decide_eq_true_eq, hd, hd', and_true]

/-- A character is read as a digit exactly if it is one, small or capital. -/
theorem digitInBase?_eq_some_iff {base d : ℕ} (hbase : base ≤ 16) {c : Char} :
    digitInBase? base c = some d ↔ IsDigit base d c := by
  constructor
  · intro h
    have hd : d < base := by
      rw [digitInBase?, Option.filter_eq_some_iff, decide_eq_true_eq] at h
      exact h.2
    refine ⟨hd, ?_⟩
    rw [digitInBase?_eq_some_iff_of_le hd hbase] at h
    obtain ⟨hplace, hupper⟩ := toNat_digitChar d (by omega)
    obtain ⟨hvalue, -⟩ := Option.filter_eq_some_iff.mp h
    -- the character stands where digits, small letters or capitals are
    split at hvalue
    · next hdigit =>
      obtain rfl := Option.some.inj hvalue
      have hrange : 48 ≤ c.toNat ∧ c.toNat ≤ 57 := Char.isDigit_iff_toNat.mp hdigit
      -- the place of a digit, to which its value gives the way back
      left
      apply Char.toNat_inj.mp
      rw [hplace]
      split <;> omega
    · split at hvalue
      · next hsmall =>
        obtain rfl := Option.some.inj hvalue
        change 97 ≤ c.toNat ∧ c.toNat ≤ 122 at hsmall
        left
        apply Char.toNat_inj.mp
        rw [hplace]
        split <;> omega
      · split at hvalue
        · next hcapital =>
          obtain rfl := Option.some.inj hvalue
          change 65 ≤ c.toNat ∧ c.toNat ≤ 90 at hcapital
          right
          apply Char.toNat_inj.mp
          rw [hupper (by omega)]
          omega
        · exact nomatch hvalue
  · rintro ⟨hd, hc⟩
    -- both forms of the digit were read in the largest base
    obtain ⟨hlower, hupper⟩ := digitInBase?_digitChar d (by omega)
    rw [digitInBase?_eq_some_iff_of_le hd hbase]
    obtain rfl | rfl := hc
    · exact hlower
    · exact hupper

/-- Signs and underscores are no digits. -/
theorem IsDigit.ne {base d : ℕ} (hbase : base ≤ 16) {c x : Char} (h : IsDigit base d c)
    (hx : digitInBase? 16 x = none) : c ≠ x := by
  rintro rfl
  have hc := (digitInBase?_eq_some_iff hbase).mpr h
  rw [digitInBase?_eq_some_iff_of_le h.1 hbase, hx] at hc
  exact nomatch hc

/-- Digits are read from the left. -/
theorem foldlM_digits_eq_some_iff {base : ℕ} (hbase : base ≤ 16) {s : List Char} {acc n : ℕ} :
    s.foldlM (fun n c => (digitInBase? base c).map (n * base + ·)) acc = some n ↔
      ∃ ds, List.Forall₂ (IsDigit base) ds s ∧ n = ds.foldl (fun n d => d + base * n) acc := by
  induction s generalizing acc with
  | nil =>
    rw [List.foldlM_nil]
    constructor
    · intro h
      exact ⟨[], .nil, (Option.some.inj h).symm⟩
    · rintro ⟨ds, hds, rfl⟩
      cases hds
      rfl
  | cons c s ih =>
    rw [List.foldlM_cons]
    constructor
    · intro h
      obtain ⟨m, hm, hrest⟩ := Option.bind_eq_some_iff.mp h
      -- the first character is a digit, and the rest is read on from it
      obtain ⟨d, hd, rfl⟩ := Option.map_eq_some_iff.mp hm
      obtain ⟨ds, hds, rfl⟩ := ih.mp hrest
      refine ⟨d :: ds, .cons ((digitInBase?_eq_some_iff hbase).mp hd) hds, ?_⟩
      rw [List.foldl_cons, add_comm d, mul_comm base]
    · rintro ⟨ds, hds, rfl⟩
      cases hds with
      | @cons d _ ds _ hd hds =>
        apply Option.bind_eq_some_iff.mpr
        refine ⟨acc * base + d, ?_, ih.mpr ⟨ds, hds, ?_⟩⟩
        · rw [(digitInBase?_eq_some_iff hbase).mpr hd, Option.map_some]
        · rw [List.foldl_cons, add_comm d, mul_comm base]

/-- Digits from the left, as Horner's rule takes them, are those of the reversed list. -/
theorem ofDigits_reverse (base : ℕ) (ds : List ℕ) :
    Nat.ofDigits base ds.reverse = ds.foldl (fun n d => d + base * n) 0 := by
  rw [Nat.ofDigits_eq_foldr, List.foldr_reverse]
  rfl

/-- One or more digits are read as the number they denote. -/
theorem natInBase?_eq_some_iff {base : ℕ} (hbase : base ≤ 16) {s : List Char} {n : ℕ} :
    natInBase? base s = some n ↔
      ∃ ds, ds ≠ [] ∧ List.Forall₂ (IsDigit base) ds s ∧ n = Nat.ofDigits base ds.reverse := by
  simp only [ofDigits_reverse]
  cases s with
  | nil =>
    constructor
    · exact nofun
    · rintro ⟨ds, hne, hds, -⟩
      -- no digits are no text
      cases hds
      exact absurd rfl hne
  | cons c s =>
    rw [natInBase?, foldlM_digits_eq_some_iff hbase]
    · constructor
      · rintro ⟨ds, hds, hn⟩
        refine ⟨ds, ?_, hds, hn⟩
        -- there is a first character, so there is a first digit
        rintro rfl
        exact nomatch hds
      · rintro ⟨ds, -, hds, hn⟩
        exact ⟨ds, hds, hn⟩
    · exact nofun

/-! ### Signs -/

/-- The text does not start with a sign. -/
def Unsigned (s : List Char) : Prop := ∀ c ∈ s.head?, c ≠ '+' ∧ c ≠ '-'

/-- A sign in such a text stands behind its first character. -/
theorem Unsigned.mem_tail {s : List Char} (h : Unsigned s) {c : Char} (hc : c ∈ s)
    (hsign : c = '+' ∨ c = '-') : c ∈ s.tail := by
  cases s with
  | nil => exact nomatch hc
  | cons x s =>
    obtain rfl | htail := List.mem_cons.mp hc
    · obtain ⟨hplus, hminus⟩ := h c rfl
      exact absurd hsign (not_or.mpr ⟨hplus, hminus⟩)
    · exact htail

/-- A text starts with a sign or not. -/
theorem exists_sign (s : List Char) :
    ∃ sign rest, s = Sign.text sign ++ rest ∧ (sign = none → Unsigned rest) := by
  by_cases hplus : s.head? = some '+'
  · obtain ⟨rest, rfl⟩ := List.head?_eq_some_iff.mp hplus
    exact ⟨some .plus, rest, rfl, nofun⟩
  · by_cases hminus : s.head? = some '-'
    · obtain ⟨rest, rfl⟩ := List.head?_eq_some_iff.mp hminus
      exact ⟨some .minus, rest, rfl, nofun⟩
    · refine ⟨none, s, rfl, fun _ c hc => ⟨?_, ?_⟩⟩
      · rintro rfl
        exact hplus hc
      · rintro rfl
        exact hminus hc

/-- Digits do not start with a sign. -/
theorem unsigned_of_digits {base : ℕ} (hbase : base ≤ 16) {ds : List ℕ} {cs : List Char}
    (h : List.Forall₂ (IsDigit base) ds cs) : Unsigned cs := by
  rintro c hc
  cases h with
  | nil => exact nomatch hc
  | cons hd _ =>
    obtain rfl := Option.some.inj hc
    exact ⟨hd.ne hbase rfl, hd.ne hbase rfl⟩

/-- A sign in front multiplies what is read behind it. -/
theorem intInBase?_text (base : ℕ) (sign : Option Sign) {s : List Char}
    (hs : sign = none → Unsigned s) :
    intInBase? base (Sign.text sign ++ s) =
      (natInBase? base s).map fun n : ℕ => Sign.factor sign * (n : ℤ) := by
  match sign with
  -- a minus negates, a plus is dropped, and without a sign the text is read as it is
  | some .minus =>
    change intInBase? base ('-' :: s) = _
    rw [intInBase?]
    cases natInBase? base s with
    | none => rfl
    | some n => exact congrArg some (neg_eq_neg_one_mul _)
  | some .plus =>
    change (natInBase? base s).map Int.ofNat = _
    congr 1
    funext n
    exact (one_mul _).symm
  | none =>
    have hread : intInBase? base s = (natInBase? base s).map Int.ofNat := by
      unfold intInBase?
      -- a text that starts with no sign falls through to the last branch
      split
      · exact absurd rfl (hs rfl '-' rfl).2
      · exact absurd rfl (hs rfl '+' rfl).1
      · rfl
    refine hread.trans ?_
    congr 1
    funext n
    exact (one_mul _).symm

/-- What is read as an integer is digits, with one sign before them at most. -/
theorem intInBase?_eq_some_iff {base : ℕ} (hbase : base ≤ 16) {s : List Char} {n : ℤ} :
    intInBase? base s = some n ↔
      ∃ sign ds cs, s = Sign.text sign ++ cs ∧ ds ≠ [] ∧ List.Forall₂ (IsDigit base) ds cs ∧
        n = Sign.factor sign * Nat.ofDigits base ds.reverse := by
  constructor
  · intro h
    -- what stands before the digits is a sign or nothing, and either way that is the text's own
    obtain ⟨sign, cs, rfl, hsign⟩ := exists_sign s
    rw [intInBase?_text base sign hsign] at h
    obtain ⟨m, hm, rfl⟩ := Option.map_eq_some_iff.mp h
    obtain ⟨ds, hne, hds, rfl⟩ := (natInBase?_eq_some_iff hbase).mp hm
    exact ⟨sign, ds, cs, rfl, hne, hds, rfl⟩
  · rintro ⟨sign, ds, cs, rfl, hne, hds, rfl⟩
    have hread : natInBase? base cs = some (Nat.ofDigits base ds.reverse) :=
      (natInBase?_eq_some_iff hbase).mpr ⟨ds, hne, hds, rfl⟩
    rw [intInBase?_text base sign fun _ => unsigned_of_digits hbase hds, hread, Option.map_some]

/-! ### Taking signs and marks off -/

/-- The mark of a base other than ten, whose letter may be a capital. -/
inductive Mark where
  | binary (capital : Bool)
  | octal (capital : Bool)
  | hexadecimal (capital : Bool)
deriving DecidableEq, Repr

namespace Mark

/-- The letter of a mark, which a zero precedes. -/
def letter : Mark → Char
  | binary capital => if capital then 'B' else 'b'
  | octal capital => if capital then 'O' else 'o'
  | hexadecimal capital => if capital then 'X' else 'x'

/-- The text of a mark, if there is one. -/
def text : Option Mark → List Char
  | none => []
  | some mark => ['0', mark.letter]

/-- The base of the digits behind a mark. -/
def base : Option Mark → ℕ
  | none => 10
  | some (binary _) => 2
  | some (octal _) => 8
  | some (hexadecimal _) => 16

/-- A mark has no sign in it. -/
theorem ne_of_mem_text {mark : Option Mark} {c : Char} (h : c ∈ text mark) :
    ¬ (c = '+' ∨ c = '-') := by
  match mark with
  | none => exact nomatch h
  | some mark =>
    -- the letter of each mark, in both cases
    have hletter : ∀ mark : Mark, ¬ (mark.letter = '+' ∨ mark.letter = '-')
      | binary capital => by cases capital <;> decide
      | octal capital => by cases capital <;> decide
      | hexadecimal capital => by cases capital <;> decide
    obtain rfl | h := List.mem_cons.mp h
    · decide
    · rw [List.mem_singleton.mp h]
      exact hletter mark

/-- Nor has it a blank. -/
theorem isBlank_eq_false {mark : Option Mark} {c : Char} (h : c ∈ text mark) :
    isBlank c = false := by
  match mark with
  | none => exact nomatch h
  | some mark =>
    have hletter : ∀ mark : Mark, isBlank mark.letter = false
      | binary capital => by cases capital <;> decide
      | octal capital => by cases capital <;> decide
      | hexadecimal capital => by cases capital <;> decide
    obtain rfl | h := List.mem_cons.mp h
    · decide
    · rw [List.mem_singleton.mp h]
      exact hletter mark

/-- No mark is that of a base beyond sixteen. -/
theorem base_le (mark : Option Mark) : base mark ≤ 16 := by
  unfold base
  split <;> omega

end Mark

/-- The text has the sign and the mark in front, and then the rest. The rest does not start with
what could have been a sign or a mark. -/
structure Splits (t : List Char) (sign : Option Sign) (mark : Option Mark) (rest : List Char) :
    Prop where
  eq : t = Sign.text sign ++ (Mark.text mark ++ rest)
  no_sign : sign = none → mark = none → Unsigned rest
  no_mark : mark = none → ∀ other, ¬ Mark.text (some other) <+: rest

/-- A text starts with a mark or not. -/
theorem exists_mark (t : List Char) :
    ∃ mark rest, t = Mark.text mark ++ rest ∧
      (mark = none → ∀ other, ¬ Mark.text (some other) <+: rest) := by
  by_cases h : ∃ mark, Mark.text (some mark) <+: t
  · obtain ⟨mark, rest, rfl⟩ := h
    exact ⟨some mark, rest, rfl, nofun⟩
  · exact ⟨none, t, rfl, fun _ other hother => h ⟨other, hother⟩⟩

/-- Every text can be split. -/
theorem exists_splits (t : List Char) : ∃ sign mark rest, Splits t sign mark rest := by
  obtain ⟨sign, back, rfl, hsign⟩ := exists_sign t
  obtain ⟨mark, rest, rfl, hmark⟩ := exists_mark back
  refine ⟨sign, mark, rest, rfl, ?_, hmark⟩
  -- without a mark the rest is all that the sign left
  rintro hnone rfl
  exact hsign hnone

namespace Splits

variable {s t rest : List Char} {sign : Option Sign} {mark : Option Mark}

/-- A text without a sign in front does not start with one. -/
theorem unsigned (h : Splits t none mark rest) : Unsigned t := by
  rw [h.eq]
  intro c hc
  match mark with
  | none => exact h.no_sign rfl rfl c hc
  | some _ =>
    cases hc
    decide

/-- **There is one way to split a text,** and that is how a literal is taken apart. -/
theorem ofText_eq (h : Splits (trim s) sign mark rest) :
    Literal.ofText s = ⟨sign = some .minus, Mark.base mark, rest⟩ := by
  unfold Literal.ofText
  extract_lets body
  -- with the sign gone, the mark decides on the base
  have hbody : ∀ negative,
      body negative (Mark.text mark ++ rest) = ⟨negative, Mark.base mark, rest⟩ := by
    intro negative
    match mark with
    | some (.binary capital) => cases capital <;> rfl
    | some (.octal capital) => cases capital <;> rfl
    | some (.hexadecimal capital) => cases capital <;> rfl
    | none =>
      change body negative rest = ⟨negative, 10, rest⟩
      unfold body
      split
      · next c tail =>
        -- what follows the zero is none of the letters
        have hletter : ∀ other : Mark, c ≠ other.letter := by
          rintro other rfl
          exact h.no_mark rfl other ⟨tail, rfl⟩
        have hx : c ≠ 'x' ∧ c ≠ 'X' := ⟨hletter (.hexadecimal false), hletter (.hexadecimal true)⟩
        have ho : c ≠ 'o' ∧ c ≠ 'O' := ⟨hletter (.octal false), hletter (.octal true)⟩
        have hb : c ≠ 'b' ∧ c ≠ 'B' := ⟨hletter (.binary false), hletter (.binary true)⟩
        simp [hx, ho, hb]
      · rfl
  -- the sign is taken off before the mark is looked for
  match sign with
  | some .plus =>
    rw [h.eq]
    exact hbody false
  | some .minus =>
    rw [h.eq]
    exact hbody true
  | none =>
    have hhead := h.unsigned
    have heq : trim s = Mark.text mark ++ rest := h.eq
    split
    · next htrim =>
      rw [htrim] at hhead
      exact absurd rfl (hhead _ rfl).2
    · next htrim =>
      rw [htrim] at hhead
      exact absurd rfl (hhead _ rfl).1
    · rw [heq]
      exact hbody false

end Splits

/-! ### Numerals -/

/-- There is a sign behind the first character. -/
def SignInside (t : List Char) : Prop := ∃ c ∈ t.tail, c = '+' ∨ c = '-'

instance (t : List Char) : Decidable (SignInside t) :=
  decidable_of_iff (t.tail.any (fun c => c == '+' || c == '-') = true) (by simp [SignInside])

/-- An integer as it is read: perhaps a sign, perhaps the mark of a base, and digits of the base.
There may be underscores anywhere behind the mark, and a second sign before the digits. -/
structure Numeral where
  sign : Option Sign
  mark : Option Mark
  /-- What is written behind the mark. -/
  body : List Char
  /-- The second sign. -/
  inner : Option Sign
  digits : List ℕ
  ne_nil : digits ≠ []
  spelled : ∃ cs, withoutUnderscores body = Sign.text inner ++ cs ∧
    List.Forall₂ (IsDigit (Mark.base mark)) digits cs
  /-- A sign in front of everything else is the first one. -/
  no_sign : sign = none → mark = none → Unsigned body

namespace Numeral

variable (ℓ : Numeral)

/-- How a numeral is written. -/
def text : List Char := Sign.text ℓ.sign ++ (Mark.text ℓ.mark ++ ℓ.body)

/-- The integer that a numeral denotes. -/
def value : ℤ :=
  Sign.factor ℓ.sign * (Sign.factor ℓ.inner * Nat.ofDigits (Mark.base ℓ.mark) ℓ.digits.reverse)

/-- What is behind the mark consists of digits, underscores and the second sign. -/
theorem mem_body {c : Char} (h : c ∈ ℓ.body) :
    c = '_' ∨ c ∈ Sign.text ℓ.inner ∨ ∃ d, IsDigit (Mark.base ℓ.mark) d c := by
  obtain ⟨cs, hcs, hds⟩ := ℓ.spelled
  by_cases hc : c = '_'
  · exact .inl hc
  · right
    -- a character that is no underscore is left when these are taken out
    have hmem : c ∈ withoutUnderscores ℓ.body := List.mem_filter.mpr ⟨h, bne_iff_ne.mpr hc⟩
    rw [hcs, List.mem_append] at hmem
    obtain hsign | hdigit := hmem
    · exact .inl hsign
    · obtain ⟨i, hi, rfl⟩ := List.getElem_of_mem hdigit
      have hlen : i < ℓ.digits.length := by rw [hds.length_eq]; exact hi
      exact .inr ⟨ℓ.digits[i], hds.get hlen hi⟩

/-- The second sign stands behind the mark. -/
theorem mem_body_of_mem_inner {c : Char} (h : c ∈ Sign.text ℓ.inner) : c ∈ ℓ.body := by
  obtain ⟨cs, hcs, -⟩ := ℓ.spelled
  have hmem : c ∈ withoutUnderscores ℓ.body := by
    rw [hcs]
    exact List.mem_append_left _ h
  exact (List.mem_filter.mp hmem).1

/-- The signs in the body are the second one. -/
theorem mem_inner_of_mem_body {c : Char} (h : c ∈ ℓ.body) (hc : c = '+' ∨ c = '-') :
    c ∈ Sign.text ℓ.inner := by
  obtain rfl | hinner | ⟨d, hd⟩ := ℓ.mem_body h
  · exact absurd hc (by decide)
  · exact hinner
  · have hbase := Mark.base_le ℓ.mark
    obtain rfl | rfl := hc
    · exact absurd rfl (hd.ne hbase rfl)
    · exact absurd rfl (hd.ne hbase rfl)

/-- Taking sign and mark off the text of a numeral leaves its body. -/
theorem splits : Splits ℓ.text ℓ.sign ℓ.mark ℓ.body := by
  refine ⟨rfl, ℓ.no_sign, ?_⟩
  rintro hmark other ⟨tail, hbody⟩
  have hmem : other.letter ∈ ℓ.body := by
    rw [← hbody]
    exact List.mem_append_left _ (List.mem_cons_of_mem _ List.mem_cons_self)
  -- the letter of a mark is no digit of the base ten
  obtain ⟨hletter, hplus, hminus, hdigit⟩ : other.letter ≠ '_' ∧ other.letter ≠ '+' ∧
      other.letter ≠ '-' ∧ digitInBase? 10 other.letter = none := by
    match other with
    | .binary capital => cases capital <;> decide
    | .octal capital => cases capital <;> decide
    | .hexadecimal capital => cases capital <;> decide
  -- so it stands in the body for nothing that a body may have
  obtain hunder | hinner | ⟨d, hd⟩ := ℓ.mem_body hmem
  · exact hletter hunder
  · exact (Sign.mem_text hinner).elim hplus hminus
  · rw [hmark] at hd
    have hread := (digitInBase?_eq_some_iff (Mark.base_le none)).mpr hd
    rw [show Mark.base none = 10 from rfl, hdigit] at hread
    exact nomatch hread

/-- No sign is behind the first character of a numeral just if it has no second sign. -/
theorem inner_eq_none_iff : ℓ.inner = none ↔ ¬ SignInside ℓ.text := by
  -- a sign behind the first character is the second sign
  constructor
  · rintro hinner ⟨c, hc, hsign⟩
    have hmem : c ∈ Mark.text ℓ.mark ++ ℓ.body := by
      rw [text] at hc
      match hfirst : ℓ.sign with
      -- whether there is a first sign or not, what is behind the first character ends the text
      | none =>
        rw [hfirst] at hc
        exact List.mem_of_mem_tail hc
      | some .plus =>
        rw [hfirst] at hc
        exact hc
      | some .minus =>
        rw [hfirst] at hc
        exact hc
    obtain hmark | hbody := List.mem_append.mp hmem
    · exact Mark.ne_of_mem_text hmark hsign
    · have hnone := ℓ.mem_inner_of_mem_body hbody hsign
      rw [hinner] at hnone
      exact nomatch hnone
  · intro h
    by_contra hinner
    obtain ⟨sign, hsome⟩ := Option.ne_none_iff_exists'.mp hinner
    obtain ⟨c, hc⟩ : ∃ c, c ∈ Sign.text ℓ.inner := by
      rw [hsome]
      cases sign <;> exact ⟨_, List.mem_singleton_self _⟩
    have hbody := ℓ.mem_body_of_mem_inner hc
    refine h ⟨c, ?_, Sign.mem_text hc⟩
    rw [text]
    -- with anything in front of it, the body is behind the first character
    match hfirst : ℓ.sign, hmark : ℓ.mark with
    | some .plus, mark => exact List.mem_append_right (Mark.text mark) hbody
    | some .minus, mark => exact List.mem_append_right (Mark.text mark) hbody
    | none, some _ => exact List.mem_cons_of_mem _ hbody
    | none, none =>
      -- the body is all there is, and it does not start with a sign
      exact (ℓ.no_sign hfirst hmark).mem_tail hbody (Sign.mem_text hc)

/-- A numeral has a minus if one of its signs is one. -/
theorem minus_mem_text :
    '-' ∈ ℓ.text ↔ ℓ.sign = some .minus ∨ ℓ.inner = some .minus := by
  have hsign : ∀ sign : Option Sign, '-' ∈ Sign.text sign ↔ sign = some .minus := by
    intro sign
    match sign with
    | none => decide
    | some .plus => decide
    | some .minus => decide
  -- the mark has no sign in it, and the body has the second one only
  rw [text, List.mem_append, List.mem_append, hsign]
  constructor
  · rintro (h | h | h)
    · exact .inl h
    · exact absurd (.inr rfl) (Mark.ne_of_mem_text h)
    · exact .inr ((hsign _).mp (ℓ.mem_inner_of_mem_body h (.inr rfl)))
  · rintro (h | h)
    · exact .inl h
    · exact .inr (.inr (ℓ.mem_body_of_mem_inner ((hsign _).mpr h)))

/-- Without a minus, a numeral denotes what its digits do. -/
theorem value_of_not_minus (h : '-' ∉ ℓ.text) :
    ℓ.value = Nat.ofDigits (Mark.base ℓ.mark) ℓ.digits.reverse := by
  rw [ℓ.minus_mem_text] at h
  obtain ⟨hsign, hinner⟩ := not_or.mp h
  rw [value, Sign.factor_of_ne_minus hsign, Sign.factor_of_ne_minus hinner, one_mul, one_mul]

/-- There are no blanks in a numeral. -/
theorem isBlank_eq_false {c : Char} (h : c ∈ ℓ.text) : isBlank c = false := by
  have hsign : ∀ {sign : Option Sign}, c ∈ Sign.text sign → isBlank c = false := by
    intro sign hc
    obtain rfl | rfl := Sign.mem_text hc <;> decide
  rw [text, List.mem_append, List.mem_append] at h
  obtain hfirst | hmark | hbody := h
  · exact hsign hfirst
  · exact Mark.isBlank_eq_false hmark
  -- underscores, signs and digits are no blanks
  · obtain rfl | hinner | ⟨d, hd, hc⟩ := ℓ.mem_body hbody
    · decide
    · exact hsign hinner
    · have hbase := Mark.base_le ℓ.mark
      obtain ⟨hlower, hupper⟩ := isBlank_digitChar d (by omega)
      obtain rfl | rfl := hc
      · exact hlower
      · exact hupper

/-- So nothing is trimmed off it. -/
theorem trim_text : trim ℓ.text = ℓ.text := trim_eq_self fun _ => ℓ.isBlank_eq_false

/-- A text is a numeral for one integer at most. -/
theorem value_eq_of_text_eq {ℓ ℓ' : Numeral} (h : ℓ.text = ℓ'.text) : ℓ.value = ℓ'.value := by
  -- both numerals are read as what they denote, and what is read depends on the text only
  have hread : ∀ ℓ : Numeral,
      Literal.ofText ℓ.text = ⟨ℓ.sign = some .minus, Mark.base ℓ.mark, ℓ.body⟩ ∧
        intInBase? (Mark.base ℓ.mark) (withoutUnderscores ℓ.body) =
          some (Sign.factor ℓ.inner * Nat.ofDigits (Mark.base ℓ.mark) ℓ.digits.reverse) := by
    intro ℓ
    constructor
    · refine Splits.ofText_eq ?_
      rw [ℓ.trim_text]
      exact ℓ.splits
    · obtain ⟨cs, hcs, hds⟩ := ℓ.spelled
      exact (intInBase?_eq_some_iff (Mark.base_le ℓ.mark)).mpr
        ⟨ℓ.inner, ℓ.digits, cs, hcs, ℓ.ne_nil, hds, rfl⟩
  obtain ⟨hsplit, hbody⟩ := hread ℓ
  obtain ⟨hsplit', hbody'⟩ := hread ℓ'
  rw [h, hsplit', Literal.mk.injEq] at hsplit
  obtain ⟨hminus, hbase, hrest⟩ := hsplit
  rw [← hbase, ← hrest, hbody'] at hbody
  -- the readers say of the first sign only whether it is a minus
  have hfactor : Sign.factor ℓ.sign = Sign.factor ℓ'.sign := by
    rw [Sign.factor_eq_ite, Sign.factor_eq_ite]
    exact if_congr (decide_eq_decide.mp hminus).symm rfl rfl
  rw [value, value, hfactor, ← hbase, Option.some.inj hbody]

end Numeral

/-! ### Printed integers -/

/-- The digits of a number, as it is printed. -/
theorem exists_digits (m : ℕ) :
    ∃ ds, ds ≠ [] ∧ List.Forall₂ (IsDigit 10) ds (Nat.toDigits 10 m) ∧
      Nat.ofDigits 10 ds.reverse = m := by
  -- by the number without its last digit
  induction m using Nat.strong_induction_on with
  | h m ih =>
    by_cases hlt : m < 10
    · refine ⟨[m], List.cons_ne_nil m [], ?_, ?_⟩
      · rw [Nat.toDigits_of_lt_base hlt]
        exact .cons ⟨hlt, .inl rfl⟩ .nil
      · rw [List.reverse_singleton, Nat.ofDigits_singleton]
    · -- the last digit is what is left of a division by ten
      obtain ⟨ds, -, hds, hvalue⟩ := ih (m / 10) (by omega)
      refine ⟨ds ++ [m % 10], by simp, ?_, ?_⟩
      · rw [Nat.toDigits_of_base_le (by decide) (by omega)]
        exact List.rel_append hds (.cons ⟨Nat.mod_lt m (by decide), .inl rfl⟩ .nil)
      · rw [List.reverse_append, List.reverse_singleton, List.singleton_append, Nat.ofDigits_cons,
          hvalue]
        exact Nat.mod_add_div m 10

/-- The text is an integer literal for the number, that is, a numeral without a second sign. -/
def Denotes (t : List Char) (x : ℤ) : Prop :=
  ∃ ℓ : Numeral, ℓ.inner = none ∧ ℓ.text = t ∧ ℓ.value = x

/-- A literal denotes one integer. -/
theorem Denotes.unique {t : List Char} {x y : ℤ} (hx : Denotes t x) (hy : Denotes t y) : x = y := by
  obtain ⟨ℓ, -, htext, rfl⟩ := hx
  obtain ⟨ℓ', -, htext', rfl⟩ := hy
  exact Numeral.value_eq_of_text_eq (htext.trans htext'.symm)

/-- Literals with a minus denote no positive integer. -/
theorem Denotes.nonpos_of_minus {t : List Char} {x : ℤ} (h : Denotes t x) (hminus : '-' ∈ t) :
    x ≤ 0 := by
  obtain ⟨ℓ, hinner, rfl, rfl⟩ := h
  rw [ℓ.minus_mem_text, hinner] at hminus
  have hsign : ℓ.sign = some .minus := hminus.resolve_right nofun
  have hfactor : Sign.factor (some .minus) = -1 ∧ Sign.factor none = 1 := ⟨rfl, rfl⟩
  rw [Numeral.value, hsign, hinner, hfactor.1, hfactor.2]
  omega

/-- Integers are printed as literals. -/
theorem denotes_toString (x : ℤ) : Denotes (toString x).toList x := by
  obtain ⟨ds, hne, hds, hvalue⟩ := exists_digits x.natAbs
  have hunsigned : Unsigned (Nat.toDigits 10 x.natAbs) := unsigned_of_digits (by decide) hds
  -- a printed number has no underscores
  have hunder : withoutUnderscores (Nat.toDigits 10 x.natAbs) = Nat.toDigits 10 x.natAbs := by
    refine List.filter_eq_self.mpr fun c hc => bne_iff_ne.mpr ?_
    exact ne_of_isDigit (allDigits_toDigits x.natAbs c hc) rfl
  -- the sign is the only one, there is no mark, and the digits are those of the absolute value
  refine ⟨⟨if x < 0 then some .minus else none, none, Nat.toDigits 10 x.natAbs, none, ds, hne,
    ⟨Nat.toDigits 10 x.natAbs, hunder, hds⟩, fun _ _ => hunsigned⟩, rfl, ?_, ?_⟩
  · exact (toList_toString x).symm
  · change Sign.factor (if x < 0 then some .minus else none) *
      (Sign.factor none * (Nat.ofDigits 10 ds.reverse : ℕ)) = x
    have hnone : Sign.factor none = 1 := rfl
    have hminus : Sign.factor (some .minus) = -1 := rfl
    rw [hvalue, hnone, one_mul]
    -- the sign gives the absolute value back its sign
    by_cases hx : x < 0
    · rw [if_pos hx, hminus]
      omega
    · rw [if_neg hx, hnone, one_mul]
      omega

/-! ### The readers -/

section

variable {s rest : List Char} {sign : Option Sign} {mark : Option Mark}

/-- Numbers of 64 bits are kept, and no others. -/
theorem ofInt?_eq_some_iff {x : ℤ} {n : Int64} :
    (if -9223372036854775808 ≤ x ∧ x ≤ 9223372036854775807 then some (Int64.ofInt x) else none) =
      some n ↔ x = n.toInt := by
  constructor
  -- the integer is within the bounds, so the conversion is exact
  · intro h
    split at h
    · next hx =>
      rw [← Option.some.inj h, Int64.toInt_ofInt_of_le (by omega) (by omega)]
    · exact nomatch h
  · rintro rfl
    have hmin := n.le_toInt
    have hmax := n.toInt_lt
    rw [if_pos (by omega), Int64.ofInt_toInt]

/-- So it is with unsigned numbers of 64 bits. -/
theorem ofNat?_eq_some_iff {m : ℕ} {n : UInt64} :
    (if m < 18446744073709551616 then some (UInt64.ofNat m) else none) = some n ↔
      m = n.toNat := by
  constructor
  · intro h
    split at h
    · next hm => rw [← Option.some.inj h, UInt64.toNat_ofNat_of_lt' hm]
    · exact nomatch h
  · rintro rfl
    rw [if_pos n.toNat_lt, UInt64.ofNat_toNat]

/-- A sign multiplies what the digits behind it are read as. -/
theorem int64?_of_splits (h : Splits (trim s) sign mark rest) :
    int64? s = (intInBase? (Mark.base mark) (withoutUnderscores rest)).bind fun x =>
      if -9223372036854775808 ≤ Sign.factor sign * x ∧ Sign.factor sign * x ≤ 9223372036854775807
        then some (Int64.ofInt (Sign.factor sign * x)) else none := by
  -- the reader negates where the sign multiplies
  have hneg : ∀ x : ℤ,
      (if decide (sign = some .minus) = true then -x else x) = Sign.factor sign * x := by
    intro x
    match sign with
    | none => exact (one_mul x).symm
    | some .plus => exact (one_mul x).symm
    | some .minus => exact neg_eq_neg_one_mul x
  rw [int64?, h.ofText_eq]
  simp only [hneg]
  rfl

/-- **Signed integers.** What is read is a numeral for an integer of 64 bits. -/
theorem int64?_eq_some_iff {n : Int64} :
    int64? s = some n ↔ ∃ ℓ : Numeral, ℓ.text = trim s ∧ ℓ.value = n.toInt := by
  constructor
  · intro h
    -- taking sign and mark off leaves what the digits are read from
    obtain ⟨sign, mark, rest, hsplit⟩ := exists_splits (trim s)
    rw [int64?_of_splits hsplit] at h
    obtain ⟨x, hx, hn⟩ := Option.bind_eq_some_iff.mp h
    obtain ⟨inner, ds, cs, hcs, hne, hds, rfl⟩ :=
      (intInBase?_eq_some_iff (Mark.base_le mark)).mp hx
    exact ⟨⟨sign, mark, rest, inner, ds, hne, ⟨cs, hcs, hds⟩, hsplit.no_sign⟩, hsplit.eq.symm,
      ofInt?_eq_some_iff.mp hn⟩
  · rintro ⟨ℓ, htext, hvalue⟩
    -- the numeral is split as the text is
    have hsplit := ℓ.splits
    rw [htext] at hsplit
    obtain ⟨cs, hcs, hds⟩ := ℓ.spelled
    rw [int64?_of_splits hsplit, (intInBase?_eq_some_iff (Mark.base_le ℓ.mark)).mpr
      ⟨ℓ.inner, ℓ.digits, cs, hcs, ℓ.ne_nil, hds, rfl⟩]
    exact ofInt?_eq_some_iff.mpr hvalue

/-- Passes over one plus. -/
def dropPlus : List Char → List Char
  | '+' :: cs => cs
  | cs => cs

/-- Passing over a plus leaves a minus standing. -/
theorem dropPlus_text {inner : Option Sign} {cs : List Char} (h : inner = none → Unsigned cs) :
    dropPlus (Sign.text inner ++ cs) = if inner = some .minus then '-' :: cs else cs := by
  match inner with
  | some .plus => rfl
  | some .minus => rfl
  | none =>
    change dropPlus cs = cs
    unfold dropPlus
    split
    · exact absurd rfl (h rfl '+' rfl).1
    · rfl

/-- What is left of a text that starts with a minus is not read as a number. -/
theorem natInBase?_minus {base : ℕ} (hbase : base ≤ 16) (cs : List Char) :
    natInBase? base ('-' :: cs) = none := by
  by_contra hsome
  obtain ⟨n, hn⟩ := Option.ne_none_iff_exists'.mp hsome
  obtain ⟨ds, -, hds, -⟩ := (natInBase?_eq_some_iff hbase).mp hn
  exact (unsigned_of_digits hbase hds '-' rfl).2 rfl

/-- The unsigned reader takes no minus in front; it passes over a plus, and reads the digits. -/
theorem uint64?_of_splits (h : Splits (trim s) sign mark rest) :
    uint64? s = if sign = some .minus then none else
      (natInBase? (Mark.base mark) (dropPlus (withoutUnderscores rest))).bind fun n =>
        if n < 18446744073709551616 then some (UInt64.ofNat n) else none := by
  unfold uint64?
  rw [h.ofText_eq]
  by_cases hneg : sign = some .minus
  · rw [if_pos hneg]
    exact if_pos (decide_eq_true hneg)
  · rw [if_neg hneg]
    refine (if_neg fun hsign => hneg (of_decide_eq_true hsign)).trans ?_
    extract_lets digits
    have hdigits : digits = dropPlus (withoutUnderscores rest) := rfl
    rw [hdigits]
    cases natInBase? (Mark.base mark) (dropPlus (withoutUnderscores rest)) with
    | none => rfl
    | some n => rfl

/-- **Unsigned integers.** What is read is a numeral without a minus, for an integer of 64 bits. -/
theorem uint64?_eq_some_iff {n : UInt64} :
    uint64? s = some n ↔
      '-' ∉ trim s ∧ ∃ ℓ : Numeral, ℓ.text = trim s ∧ ℓ.value = n.toNat := by
  constructor
  · intro h
    obtain ⟨sign, mark, rest, hsplit⟩ := exists_splits (trim s)
    obtain ⟨inner, cs, hcs, hinner⟩ := exists_sign (withoutUnderscores rest)
    have hbase := Mark.base_le mark
    rw [uint64?_of_splits hsplit, hcs, dropPlus_text hinner] at h
    obtain ⟨hsign, h⟩ := Option.ite_none_left_eq_some.mp h
    obtain ⟨m, hm, hn⟩ := Option.bind_eq_some_iff.mp h
    -- a minus behind the plus is left standing, and is no digit
    have hnotminus : inner ≠ some .minus := by
      intro hminus
      rw [if_pos hminus, natInBase?_minus hbase] at hm
      exact nomatch hm
    rw [if_neg hnotminus] at hm
    obtain ⟨ds, hne, hds, rfl⟩ := (natInBase?_eq_some_iff hbase).mp hm
    -- what has been found makes up a numeral
    obtain ⟨ℓ, rfl, rfl, rfl, rfl, rfl⟩ : ∃ ℓ : Numeral, ℓ.sign = sign ∧ ℓ.mark = mark ∧
        ℓ.body = rest ∧ ℓ.inner = inner ∧ ℓ.digits = ds :=
      ⟨⟨sign, mark, rest, inner, ds, hne, ⟨cs, hcs, hds⟩, hsplit.no_sign⟩, rfl, rfl, rfl, rfl, rfl⟩
    have htext : ℓ.text = trim s := hsplit.eq.symm
    have hminus : '-' ∉ ℓ.text := by
      rw [ℓ.minus_mem_text]
      exact not_or.mpr ⟨hsign, hnotminus⟩
    refine ⟨htext ▸ hminus, ℓ, htext, ?_⟩
    rw [ℓ.value_of_not_minus hminus, ofNat?_eq_some_iff.mp hn]
  · rintro ⟨hminus, ℓ, htext, hn⟩
    rw [← htext] at hminus
    rw [ℓ.value_of_not_minus hminus, Nat.cast_inj] at hn
    -- without a minus in its text the numeral has neither sign a minus
    obtain ⟨hsign, hinner⟩ := not_or.mp (mt ℓ.minus_mem_text.mpr hminus)
    have hsplit := ℓ.splits
    rw [htext] at hsplit
    have hbase := Mark.base_le ℓ.mark
    obtain ⟨cs, hcs, hds⟩ := ℓ.spelled
    rw [uint64?_of_splits hsplit, if_neg hsign, hcs,
      dropPlus_text fun _ => unsigned_of_digits hbase hds, if_neg hinner,
      (natInBase?_eq_some_iff hbase).mpr ⟨ℓ.digits, ℓ.ne_nil, hds, rfl⟩]
    exact ofNat?_eq_some_iff.mpr hn

end

/-- Literals are the numerals that have no sign behind the first character. -/
theorem denotes_iff {t : List Char} {x : ℤ} :
    Denotes t x ↔ (∃ ℓ : Numeral, ℓ.text = t ∧ ℓ.value = x) ∧ ¬ SignInside t := by
  constructor
  · rintro ⟨ℓ, hinner, rfl, hvalue⟩
    exact ⟨⟨ℓ, rfl, hvalue⟩, ℓ.inner_eq_none_iff.mp hinner⟩
  · rintro ⟨⟨ℓ, rfl, hvalue⟩, hinside⟩
    exact ⟨ℓ, ℓ.inner_eq_none_iff.mpr hinside, rfl, hvalue⟩

/-- The other numerals have a second sign. -/
theorem second_sign_iff {t : List Char} {x : ℤ} :
    (∃ ℓ : Numeral, ℓ.inner ≠ none ∧ ℓ.text = t ∧ ℓ.value = x) ↔
      (∃ ℓ : Numeral, ℓ.text = t ∧ ℓ.value = x) ∧ SignInside t := by
  constructor
  · rintro ⟨ℓ, hinner, rfl, hvalue⟩
    exact ⟨⟨ℓ, rfl, hvalue⟩, not_not.mp (mt ℓ.inner_eq_none_iff.mpr hinner)⟩
  · rintro ⟨⟨ℓ, rfl, hvalue⟩, hinside⟩
    exact ⟨ℓ, fun hinner => ℓ.inner_eq_none_iff.mp hinner hinside, rfl, hvalue⟩

/-- **Which texts are integers.** Among the texts that have no sign behind their first character,
exactly the integer literals of 64 bits are read, as what they denote; the unsigned reader takes
those without a minus. Of the other texts, which are no literals, the numerals with a second sign
right before their digits are read as well. A printed integer is read back. -/
theorem readers_accept_literals (s : List Char) :
    (∀ n : Int64, int64? s = some n ∧ ¬ SignInside (trim s) ↔ Denotes (trim s) n.toInt) ∧
    (∀ n : UInt64,
      uint64? s = some n ∧ ¬ SignInside (trim s) ↔ '-' ∉ trim s ∧ Denotes (trim s) n.toNat) ∧
    (∀ n : Int64, int64? s = some n ∧ SignInside (trim s) ↔
      ∃ ℓ : Numeral, ℓ.inner ≠ none ∧ ℓ.text = trim s ∧ ℓ.value = n.toInt) ∧
    (∀ n : UInt64, uint64? s = some n ∧ SignInside (trim s) ↔
      '-' ∉ trim s ∧ ∃ ℓ : Numeral, ℓ.inner ≠ none ∧ ℓ.text = trim s ∧ ℓ.value = n.toNat) ∧
    ∀ n : Int64, s = (toString n.toInt).toList → int64? s = some n := by
  refine ⟨?literals, ?unsignedLiterals, ?second, ?unsignedSecond, ?printed⟩
  case literals =>
    intro n
    rw [int64?_eq_some_iff, denotes_iff]
  case unsignedLiterals =>
    intro n
    rw [uint64?_eq_some_iff, denotes_iff, and_assoc]
  case second =>
    intro n
    rw [int64?_eq_some_iff, second_sign_iff]
  case unsignedSecond =>
    intro n
    rw [uint64?_eq_some_iff, second_sign_iff, and_assoc]
  case printed =>
    rintro n rfl
    obtain ⟨ℓ, -, htext, hvalue⟩ := denotes_toString n.toInt
    refine int64?_eq_some_iff.mpr ⟨ℓ, ?_, hvalue⟩
    -- nothing is trimmed off a numeral
    rw [← htext, ℓ.trim_text]

/-- With a sign behind the first one, texts that are no literals are read, and a minus may hide
behind a plus. -/
theorem signs_behind_signs :
    int64? "+-5".toList = some (-5) ∧ (∀ x, ¬ Denotes (trim "+-5".toList) x) ∧
      uint64? "++5".toList = some 5 ∧ ∀ x, ¬ Denotes (trim "++5".toList) x := by
  have hliteral : ∀ t, SignInside t → ∀ x, ¬ Denotes t x := by
    rintro t h x ⟨ℓ, hinner, rfl, -⟩
    exact ℓ.inner_eq_none_iff.mp hinner h
  refine ⟨by decide, hliteral _ (by decide), by decide, hliteral _ (by decide)⟩

end ScriptEngine.Text
