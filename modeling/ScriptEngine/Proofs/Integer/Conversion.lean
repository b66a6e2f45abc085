import ScriptEngine.Builtin.Library
import ScriptEngine.Eval.Level
import ScriptEngine.Proofs.Decimal.IntegerParts
import ScriptEngine.Proofs.Equality.Operator
import ScriptEngine.Proofs.Integer.Kind
import ScriptEngine.Proofs.Integer.Literal

/-!
# Conversions to integers

Integers, decimals, truth values and texts stand for numbers (`StandsFor`), texts as the integer
literals they are. `int` and `uint` turn such a value into the integer part of its number, if it is
one of the kind, and refuse texts whose number is not (`IntegerKind.Keeps`).

Other values are never refused. What does not fit is then taken by its lowest 64 bits, and decimals
are moved into the range of the signed integers before, also those on their way to an unsigned
integer: `IntegerKind.Changes` says when, and what comes out. Conversions keep the number but for
these cases and the unsigned zero with a minus, which is refused (`Builtin.conversions_keep`).
-/

namespace ScriptEngine

open Eval
open Decimal (towardZero towardZero_intCast)
open Text (Denotes SignInside Numeral trim)

/-- The value stands for the number. A text stands for what it denotes as a literal. -/
inductive StandsFor : Value → ℚ → Prop
  | int (n : Int64) : StandsFor (.int n) n.toInt
  | uint (n : UInt64) : StandsFor (.uint n) n.toNat
  | decimal (d : Decimal) : StandsFor (.decimal d) d.toRat
  | bool (b : Bool) : StandsFor (.bool b) (if b then 1 else 0)
  | text {s : String} {x : ℤ} : Denotes (trim s.toList) x → StandsFor (.text s) x

/-- Natural numbers have no fractional part to lose. -/
theorem towardZero_natCast (n : ℕ) : towardZero n = n := by
  exact_mod_cast towardZero_intCast n

namespace IntegerKind

/-- The function that converts to a kind. -/
def op : IntegerKind → Op
  | signed => .int
  | unsigned => .uint

/-- The conversion of a value answers with the number, which the kind holds. -/
def Makes (k : IntegerKind) (v : Value) (y : ℤ) : Prop :=
  k.Fits y ∧ ∀ E site s, Builtin.run E site [v] k.op s = .done (k.wrap y).toValue s

/-- The conversion of a value fails at its place. -/
def Refuses (k : IntegerKind) (v : Value) : Prop :=
  ∀ E site s, ∃ c, Builtin.run E site [v] k.op s = .stop (.fault ⟨c, site.span⟩) s

/-- The conversion answers with the number if the kind holds it, and fails if not. -/
def Keeps (k : IntegerKind) (v : Value) (y : ℤ) : Prop :=
  (k.Fits y → k.Makes v y) ∧ (¬ k.Fits y → k.Refuses v)

/-- The conversion does not keep the number of the value, but makes another one. -/
inductive Changes : IntegerKind → Value → ℤ → Prop
  | large {n : UInt64} : 2 ^ 63 ≤ n.toNat → Changes .signed (.uint n) (n.toNat - 2 ^ 64)
  | negative {n : Int64} : n.toInt < 0 → Changes .unsigned (.int n) (n.toInt + 2 ^ 64)
  | above {k : IntegerKind} {d : Decimal} : 2 ^ 63 ≤ towardZero d.toRat →
      Changes k (.decimal d) (2 ^ 63 - 1)
  | below {d : Decimal} : towardZero d.toRat < -2 ^ 63 → Changes .signed (.decimal d) (-2 ^ 63)
  | belowZero {d : Decimal} : towardZero d.toRat < 0 →
      Changes .unsigned (.decimal d) (max (-2 ^ 63) (towardZero d.toRat) + 2 ^ 64)

/-- A zero with a minus, which is refused as an unsigned integer. -/
inductive MinusZero : IntegerKind → Value → Prop
  | text {s : String} : '-' ∈ trim s.toList → Denotes (trim s.toList) 0 →
      MinusZero .unsigned (.text s)

variable {k : IntegerKind} {v : Value} {x : ℚ} {y z : ℤ}

/-- A conversion makes one number only. -/
theorem Makes.unique (hy : k.Makes v y) (hz : k.Makes v z) : y = z := by
  obtain ⟨hfits, hy⟩ := hy
  obtain ⟨hfits', hz⟩ := hz
  -- any run shows what is made, since it is the same in all of them
  have hrun := (hy (.level 0) ⟨State.root, .unknown, ""⟩ .blank).symm.trans (hz _ _ _)
  have hwrap : k.wrap y = k.wrap z := Integer.toValue_inj (Run.done.inj hrun).1
  rw [← Integer.number_wrap hfits, hwrap, Integer.number_wrap hfits']

/-- What is made is not refused. -/
theorem Makes.not_refuses (h : k.Makes v y) : ¬ k.Refuses v := by
  intro hrefuses
  obtain ⟨c, hc⟩ := hrefuses (.level 0) ⟨State.root, .unknown, ""⟩ .blank
  exact nomatch (h.2 _ _ _).symm.trans hc

/-! ### Numbers -/

/-- The number that a conversion takes the lowest bits of. -/
def source : Value → ℤ
  | .int n => n.toInt
  | .uint n => n.toNat
  | .decimal d => d.intPart
  | .bool b => if b then 1 else 0
  | _ => 0

/-- Values that are no texts are never refused, and what is made is the source up to the lowest
bits. -/
theorem exists_answer (k : IntegerKind) (hv : StandsFor v x) (htext : ∀ s, v ≠ .text s) :
    ∃ r : Integer, r.kind = k ∧ r.number ≡ source v [ZMOD 2 ^ 64] ∧
      ∀ E site s, Builtin.run E site [v] k.op s = .done r.toValue s := by
  cases hv with
  | int n =>
    cases k with
    | signed => exact ⟨.int n, rfl, rfl, fun _ _ _ => rfl⟩
    | unsigned => exact ⟨.uint n.toUInt64, rfl, toNat_toUInt64_modEq n, fun _ _ _ => rfl⟩
  | uint n =>
    cases k with
    | signed => exact ⟨.int n.toInt64, rfl, toInt_toInt64_modEq n, fun _ _ _ => rfl⟩
    | unsigned => exact ⟨.uint n, rfl, rfl, fun _ _ _ => rfl⟩
  | decimal d =>
    have hpart : (Int64.ofInt d.intPart).toInt ≡ d.intPart [ZMOD 2 ^ 64] :=
      Integer.number_wrap_modEq .signed d.intPart
    cases k with
    | signed => exact ⟨.int (Int64.ofInt d.intPart), rfl, hpart, fun _ _ _ => rfl⟩
    | unsigned =>
      exact ⟨.uint (Int64.ofInt d.intPart).toUInt64, rfl, (toNat_toUInt64_modEq _).trans hpart,
        fun _ _ _ => rfl⟩
  | bool b =>
    cases k with
    | signed => exact ⟨.int (if b then 1 else 0), rfl, by cases b <;> rfl, fun _ _ _ => rfl⟩
    | unsigned => exact ⟨.uint (if b then 1 else 0), rfl, by cases b <;> rfl, fun _ _ _ => rfl⟩
  | text h => exact absurd rfl (htext _)

/-- Values that are no texts are taken by the lowest bits. -/
theorem makes_of_modEq (hv : StandsFor v x) (htext : ∀ s, v ≠ .text s) (hfits : k.Fits y)
    (hmod : y ≡ source v [ZMOD 2 ^ 64]) : k.Makes v y := by
  obtain ⟨r, hkind, hr, hrun⟩ := exists_answer k hv htext
  refine ⟨hfits, ?_⟩
  -- a kind has one integer for each residue
  have hwrap : r = k.wrap y := Integer.eq_wrap_iff.mpr ⟨hkind, hr.trans hmod.symm⟩
  rwa [← hwrap]

/-- The number is changed into the one that is named. -/
theorem Changes.makes (h : k.Changes v y) : k.Makes v y := by
  cases h with
  | @large n hn =>
    -- the greatest integers become negative: one turn of the words less
    have hlt := n.toNat_lt
    refine makes_of_modEq (.uint n) nofun (fits_signed_iff.mpr ⟨by omega, by omega⟩) ?_
    exact Int.sub_emod_right _ _
  | @negative n hn =>
    -- and the negative ones become large: one turn more
    have hle := n.le_toInt
    refine makes_of_modEq (.int n) nofun (fits_unsigned_iff.mpr ⟨by omega, by omega⟩) ?_
    exact Int.add_modEq_right
  | @above _ d hd =>
    -- the integer part stops at the ends of the signed integers
    have hpart : 2 ^ 63 - 1 = d.intPart := by
      rw [Decimal.intPart_eq]
      omega
    refine makes_of_modEq (.decimal d) nofun ?_ (by rw [source, hpart])
    cases k with
    | signed => decide
    | unsigned => decide
  | @below d hd =>
    have hpart : -2 ^ 63 = d.intPart := by
      rw [Decimal.intPart_eq]
      omega
    exact makes_of_modEq (.decimal d) nofun (by decide) (by rw [source, hpart])
  | @belowZero d hd =>
    -- the stop comes first, and the turn of the words after it
    have hpart : max (-2 ^ 63) (towardZero d.toRat) = d.intPart := by
      rw [Decimal.intPart_eq]
      omega
    refine makes_of_modEq (.decimal d) nofun (fits_unsigned_iff.mpr ⟨by omega, by omega⟩) ?_
    rw [hpart]
    exact Int.add_modEq_right

/-- A number that is changed is not the integer part of the value. -/
theorem Changes.ne_towardZero (h : k.Changes v y) (hv : StandsFor v x) : y ≠ towardZero x := by
  cases h with
  | @large n hn =>
    cases hv
    rw [towardZero_natCast]
    omega
  | @negative n hn =>
    cases hv
    rw [towardZero_intCast]
    omega
  | above hd =>
    cases hv
    omega
  | below hd =>
    cases hv
    omega
  | belowZero hd =>
    cases hv
    omega

/-- So the number is not kept: it is another one, and not refused. -/
theorem Changes.not_keeps (h : k.Changes v y) (hv : StandsFor v x) :
    ¬ k.Keeps v (towardZero x) := by
  rintro ⟨hmakes, hrefuses⟩
  by_cases hfits : k.Fits (towardZero x)
  · exact h.ne_towardZero hv (h.makes.unique (hmakes hfits))
  · exact h.makes.not_refuses (hrefuses hfits)

/-- Numbers that are not changed are held, and the lowest bits are taken of them. -/
theorem fits_of_not_changes (hv : StandsFor v x) (htext : ∀ s, v ≠ .text s)
    (h : ∀ y, ¬ k.Changes v y) : k.Fits (towardZero x) ∧ towardZero x = source v := by
  cases hv with
  -- a signed integer is changed by `uint` if it is negative
  | int n =>
    rw [towardZero_intCast]
    refine ⟨?_, rfl⟩
    cases k with
    | signed => exact (Integer.int n).fits
    | unsigned =>
      have hlt := n.toInt_lt
      have hnonneg : 0 ≤ n.toInt := not_lt.mp fun hneg => h _ (.negative hneg)
      exact fits_unsigned_iff.mpr ⟨hnonneg, by omega⟩
  -- an unsigned one by `int` if it is in the upper half
  | uint n =>
    rw [towardZero_natCast]
    refine ⟨?_, rfl⟩
    cases k with
    | signed =>
      have hlt : n.toNat < 2 ^ 63 := not_le.mp fun hlarge => h _ (.large hlarge)
      exact fits_signed_iff.mpr ⟨by omega, by omega⟩
    | unsigned => exact (Integer.uint n).fits
  -- a decimal if its integer part is no signed integer, or is negative where that does not fit
  | decimal d =>
    have habove : towardZero d.toRat < 2 ^ 63 := not_le.mp fun habove => h _ (.above habove)
    rw [source, Decimal.intPart_eq]
    cases k with
    | signed =>
      have hbelow : -2 ^ 63 ≤ towardZero d.toRat := not_lt.mp fun hbelow => h _ (.below hbelow)
      exact ⟨fits_signed_iff.mpr ⟨hbelow, habove⟩, by omega⟩
    | unsigned =>
      have hnonneg : 0 ≤ towardZero d.toRat := not_lt.mp fun hneg => h _ (.belowZero hneg)
      exact ⟨fits_unsigned_iff.mpr ⟨hnonneg, by omega⟩, by omega⟩
  | bool b =>
    have hpart : towardZero (if b then 1 else 0) = if b then 1 else 0 := by
      cases b with
      | false => exact towardZero_natCast 0
      | true => exact towardZero_natCast 1
    rw [hpart]
    refine ⟨?_, rfl⟩
    cases k <;> cases b <;> decide
  | text _ => exact absurd rfl (htext _)

/-- What is not changed is kept, and is never refused because it fits. -/
theorem keeps_of_not_changes (hv : StandsFor v x) (htext : ∀ s, v ≠ .text s)
    (h : ∀ y, ¬ k.Changes v y) : k.Keeps v (towardZero x) := by
  obtain ⟨hfits, hsource⟩ := fits_of_not_changes hv htext h
  exact ⟨fun _ => makes_of_modEq hv htext hfits (by rw [hsource]), fun hnot => absurd hfits hnot⟩

/-! ### Texts -/

variable {text : String} {w : ℤ}

/-- The reader of texts of a kind. -/
def read? : IntegerKind → List Char → Option Integer
  | signed, s => (Text.int64? s).map .int
  | unsigned, s => (Text.uint64? s).map .uint

/-- A text is read by a kind iff it is a numeral of the kind, without a minus for the unsigned. -/
theorem read?_eq_some_iff {s : List Char} {r : Integer} :
    k.read? s = some r ↔ r.kind = k ∧ (k = .unsigned → '-' ∉ trim s) ∧
      ∃ ℓ : Numeral, ℓ.text = trim s ∧ ℓ.value = r.number := by
  cases k with
  | signed =>
    constructor
    · intro h
      obtain ⟨n, hn, rfl⟩ := Option.map_eq_some_iff.mp h
      exact ⟨rfl, nofun, Text.int64?_eq_some_iff.mp hn⟩
    · rintro ⟨hkind, -, hread⟩
      cases r with
      | int n => exact congrArg (Option.map Integer.int) (Text.int64?_eq_some_iff.mpr hread)
      | uint n => exact nomatch hkind
  | unsigned =>
    constructor
    · intro h
      obtain ⟨n, hn, rfl⟩ := Option.map_eq_some_iff.mp h
      obtain ⟨hminus, hread⟩ := Text.uint64?_eq_some_iff.mp hn
      exact ⟨rfl, fun _ => hminus, hread⟩
    · rintro ⟨hkind, hminus, hread⟩
      cases r with
      | int n => exact nomatch hkind
      | uint n =>
        exact congrArg (Option.map Integer.uint)
          (Text.uint64?_eq_some_iff.mpr ⟨hminus rfl, hread⟩)

/-- The conversion of a text answers with what is read. -/
theorem makes_of_read {r : Integer} (h : k.read? text.toList = some r) :
    k.Makes (.text text) r.number := by
  obtain ⟨rfl, -⟩ := read?_eq_some_iff.mp h
  refine ⟨r.fits, fun E site s => ?_⟩
  rw [r.wrap_number]
  cases r with
  | int n =>
    obtain ⟨m, hm, hread⟩ := Option.map_eq_some_iff.mp h
    cases hread
    change Builtin.toInt site (.text text) s = _
    rw [Builtin.toInt, hm]
    rfl
  | uint n =>
    obtain ⟨m, hm, hread⟩ := Option.map_eq_some_iff.mp h
    cases hread
    change Builtin.toUInt site (.text text) s = _
    rw [Builtin.toUInt, hm]
    rfl

/-- The conversion fails if nothing is read. -/
theorem refuses_of_read (h : k.read? text.toList = none) : k.Refuses (.text text) := by
  intro E site s
  refine ⟨.unsupportedInput text site.name, ?_⟩
  cases k with
  | signed =>
    change Builtin.toInt site (.text text) s = _
    rw [Builtin.toInt, Option.map_eq_none_iff.mp h]
    rfl
  | unsigned =>
    change Builtin.toUInt site (.text text) s = _
    rw [Builtin.toUInt, Option.map_eq_none_iff.mp h]
    rfl

/-- The reader of unsigned integers takes no minus, also in front of zero. -/
theorem MinusZero.refuses (h : MinusZero k v) : k.Refuses v := by
  obtain ⟨hminus, -⟩ := h
  refine refuses_of_read (Option.eq_none_iff_forall_ne_some.mpr fun r hr => ?_)
  obtain ⟨-, hnot, -⟩ := read?_eq_some_iff.mp hr
  exact hnot rfl hminus

/-- Literals are read if the kind holds the number, but for an unsigned zero with a minus. -/
theorem keeps_text (hw : Denotes (trim text.toList) w) (hzero : ¬ MinusZero k (.text text)) :
    k.Keeps (.text text) w := by
  obtain ⟨ℓ, -, htext, hvalue⟩ := id hw
  constructor
  · intro hfits
    have hnumber := Integer.number_wrap hfits
    have hread : k.read? text.toList = some (k.wrap w) := by
      refine read?_eq_some_iff.mpr ⟨k.kind_wrap w, ?_, ℓ, htext, hvalue.trans hnumber.symm⟩
      rintro rfl hminus
      -- with a minus the number is not positive, so the only one that is held is zero
      have hle := hw.nonpos_of_minus hminus
      obtain rfl : w = 0 := le_antisymm hle (fits_unsigned_iff.mp hfits).1
      exact hzero (.text hminus hw)
    have hmakes := makes_of_read hread
    rwa [hnumber] at hmakes
  -- a reader answers only with numbers of its kind, so a number that is not held is not read
  · intro hfits
    refine refuses_of_read (Option.eq_none_iff_forall_ne_some.mpr fun r hr => hfits ?_)
    obtain ⟨hkind, -, ℓ', htext', hvalue'⟩ := read?_eq_some_iff.mp hr
    -- one text has one value
    have heq : w = r.number := by
      rw [← hvalue, ← hvalue']
      exact Numeral.value_eq_of_text_eq (htext.trans htext'.symm)
    rw [heq, ← hkind]
    exact r.fits

/-- Zero is an unsigned integer, so refusing it does not keep it. -/
theorem MinusZero.not_keeps (h : MinusZero k v) (hv : StandsFor v x) :
    ¬ k.Keeps v (towardZero x) := by
  rintro ⟨hmakes, -⟩
  have hrefuses := h.refuses
  obtain ⟨hminus, hw⟩ := h
  cases hv with
  | text hx =>
    obtain rfl := hw.unique hx
    rw [towardZero_intCast] at hmakes
    exact (hmakes (by decide)).not_refuses hrefuses

/-- A text that is no literal fails, unless a sign is in the middle of it. -/
theorem text_of_not_denotes (h : ∀ w, ¬ Denotes (trim text.toList) w) :
    k.Refuses (.text text) ∨ SignInside (trim text.toList) ∧ ∃ y, k.Makes (.text text) y := by
  cases hread : k.read? text.toList with
  | none => exact .inl (refuses_of_read hread)
  | some r =>
    refine .inr ⟨?_, r.number, makes_of_read hread⟩
    -- what is read without being a literal has its sign at a wrong place
    obtain ⟨-, -, hℓ⟩ := read?_eq_some_iff.mp hread
    by_contra hinside
    exact h _ (Text.denotes_iff.mpr ⟨hℓ, hinside⟩)

end IntegerKind

/-- **Conversions to integers.** An integer, decimal, truth value or literal is converted into the
integer part of its number if the kind holds that, and refused if not, except in two cases. Numbers
that `Changes` lists are made into the ones that it names with them; and `-0` is refused by `uint`.
Texts that are no literals are refused unless a sign is in the middle of them. -/
theorem Builtin.conversions_keep (k : IntegerKind) (v : Value) :
    (∀ x, StandsFor v x →
      (k.Keeps v (towardZero x) ↔ (∀ y, ¬ k.Changes v y) ∧ ¬ k.MinusZero v)) ∧
    (∀ y, k.Changes v y → k.Makes v y) ∧
    (k.MinusZero v → k.Refuses v) ∧
    ∀ text, v = .text text → (∀ x, ¬ StandsFor v x) →
      k.Refuses v ∨ SignInside (trim text.toList) ∧ ∃ y, k.Makes v y := by
  refine ⟨?keeps, fun _ => IntegerKind.Changes.makes, IntegerKind.MinusZero.refuses, ?other⟩
  case keeps =>
    intro x hv
    constructor
    · intro h
      exact ⟨fun y hy => hy.not_keeps hv h, fun hzero => hzero.not_keeps hv h⟩
    -- what is not changed: a text is read as a literal, and all else by its lowest bits
    · rintro ⟨hchanges, hzero⟩
      by_cases htext : ∃ text, v = .text text
      · obtain ⟨text, rfl⟩ := htext
        cases hv with
        | text hw =>
          rw [towardZero_intCast]
          exact IntegerKind.keeps_text hw hzero
      · exact IntegerKind.keeps_of_not_changes hv (not_exists.mp htext) hchanges
  case other =>
    rintro text rfl h
    exact IntegerKind.text_of_not_denotes fun w hw => h w (.text hw)

/-- The decimal 7 is converted, the greatest unsigned integer becomes -1, and `-0` is no unsigned
integer. -/
theorem Builtin.conversions_keep_seven :
    IntegerKind.signed.Keeps (.decimal (.ofInt 7)) 7 ∧
    IntegerKind.signed.Makes (.uint 18446744073709551615) (-1) ∧
    IntegerKind.unsigned.Refuses (.text "-0") := by
  obtain ⟨hkeeps, -⟩ := Builtin.conversions_keep .signed (.decimal (.ofInt 7))
  obtain ⟨-, hchanges, -⟩ := Builtin.conversions_keep .signed (.uint 18446744073709551615)
  obtain ⟨-, -, hzero, -⟩ := Builtin.conversions_keep .unsigned (.text "-0")
  have hseven : towardZero (Decimal.ofInt 7).toRat = 7 := by
    rw [Decimal.toRat_ofInt]
    exact towardZero_intCast 7
  refine ⟨?_, hchanges _ (.large (by decide)), hzero (.text (by decide) ?_)⟩
  · have hkept := (hkeeps _ (.decimal _)).mpr ⟨?_, nofun⟩
    · rwa [hseven] at hkept
    -- seven is in the range, so neither bound was crossed
    · intro y hy
      cases hy with
      | above h => exact absurd (hseven ▸ h) (by decide)
      | below h => exact absurd (hseven ▸ h) (by decide)
  · exact ⟨⟨some .minus, none, ['0'], none, [0], by decide,
      ⟨['0'], rfl, .cons ⟨by decide, .inl rfl⟩ .nil⟩, nofun⟩, rfl, rfl, rfl⟩

/-- The decimal 9223372036854775808 is not kept as an unsigned integer, although it fits. The
greatest unsigned integer is not refused as a signed one, and minus one not as an unsigned one. -/
theorem Builtin.conversions_change :
    StandsFor (.decimal (.ofInt 9223372036854775808)) ((9223372036854775808 : ℤ) : ℚ) ∧
    IntegerKind.unsigned.Fits 9223372036854775808 ∧
    IntegerKind.unsigned.Makes (.decimal (.ofInt 9223372036854775808)) 9223372036854775807 ∧
    ¬ IntegerKind.unsigned.Keeps (.decimal (.ofInt 9223372036854775808)) 9223372036854775808 ∧
    ¬ IntegerKind.signed.Keeps (.uint 18446744073709551615) 18446744073709551615 ∧
    ¬ IntegerKind.unsigned.Keeps (.int (-1)) (-1) := by
  have hvalue := Decimal.toRat_ofInt 9223372036854775808
  have hstands : StandsFor (.decimal (.ofInt 9223372036854775808))
      ((9223372036854775808 : ℤ) : ℚ) := hvalue ▸ .decimal _
  have habove : IntegerKind.unsigned.Changes (.decimal (.ofInt 9223372036854775808))
      (2 ^ 63 - 1) := by
    refine .above ?_
    rw [hvalue, towardZero_intCast]
    decide
  refine ⟨hstands, by decide, habove.makes, ?_, ?_, ?_⟩
  · have hnot := habove.not_keeps hstands
    rwa [towardZero_intCast] at hnot
  · have hnot := (IntegerKind.Changes.large (n := 18446744073709551615) (by decide)).not_keeps
      (.uint _)
    rwa [towardZero_natCast] at hnot
  · have hnot := (IntegerKind.Changes.negative (n := -1) (by decide)).not_keeps (.int _)
    rwa [towardZero_intCast] at hnot

end ScriptEngine
