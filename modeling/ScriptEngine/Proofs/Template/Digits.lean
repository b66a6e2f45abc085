import ScriptEngine.Proofs.Text.Numeral
import ScriptEngine.Template.Render
import ScriptEngine.Template.Scan

/-!
# Digits that are read back

The verbs of integers write digits of a base, and the scanner takes the longest run of them. Zeros in
front do not count (`natOfDigits?_zeros_digits`), and a run ends where a character is no digit, as no
blank is. So `scanInteger?` reads what a sign and such digits stand for, and nothing behind them
(`scanInteger?_numeral`).
-/

namespace ScriptEngine.Template

/-! ### Single digits -/

/-- A digit as a verb writes it. -/
def digit (verb : Char) (d : ℕ) : Char := if verb = 'X' then d.digitChar.toUpper else d.digitChar

variable {verb : Char} {base : ℕ}

/-- A digit of one base is a digit of another one that has it. -/
theorem digitIn?_eq_some_of_lt {c : Char} {b d : ℕ} (h : digitIn? b c = some d) (hd : d < base) :
    digitIn? base c = some d := by
  obtain ⟨e, he, hlt⟩ := Option.bind_eq_some_iff.mp h
  obtain ⟨-, hed⟩ := Option.ite_none_right_eq_some.mp hlt
  obtain rfl := Option.some.inj hed
  exact Option.bind_eq_some_iff.mpr ⟨e, he, if_pos hd⟩

/-- A digit that a verb writes is read as its value. -/
theorem digitIn?_digit (verb : Char) (hbase : base ≤ 16) {d : ℕ} (hd : d < base) :
    digitIn? base (digit verb d) = some d := by
  -- sixteen digits of either case are gone through
  have small : ∀ d < 16, digitIn? 16 d.digitChar = some d := by decide
  have capital : ∀ d < 16, digitIn? 16 d.digitChar.toUpper = some d := by decide
  refine digitIn?_eq_some_of_lt (b := 16) ?_ hd
  rw [digit]
  split
  · exact capital d (by omega)
  · exact small d (by omega)

/-- The digits of all bases are ASCII characters. -/
theorem toNat_of_digitIn? {c : Char} {d : ℕ} (h : digitIn? base c = some d) :
    48 ≤ c.toNat ∧ c.toNat ≤ 122 := by
  obtain ⟨e, he, -⟩ := Option.bind_eq_some_iff.mp h
  -- digits and letters are between `0` and `z`
  simp only [Char.isDigit, Bool.and_eq_true, decide_eq_true_eq, Char.le_def, ge_iff_le,
    UInt32.le_iff_toNat_le] at he
  have hc : c.toNat = c.val.toNat := rfl
  grind

/-- No blank is a digit. -/
theorem digitIn?_of_isBlank {c : Char} (hc : Text.isBlank c = true) : digitIn? base c = none := by
  rw [Option.eq_none_iff_forall_not_mem]
  intro d hd
  have := toNat_of_digitIn? hd
  -- blanks are outside of that
  simp only [Text.isBlank, Bool.or_eq_true, Bool.and_eq_true, decide_eq_true_eq, beq_iff_eq] at hc
  omega

/-! ### Numbers -/

/-- A number with one more digit. -/
def extended (base : ℕ) (acc : Option ℕ) (c : Char) : Option ℕ :=
  acc.bind fun n => (digitIn? base c).map (n * base + ·)

/-- Digits stand for a number if there is one at least. -/
theorem natOfDigits?_eq_some_iff {ds : List Char} {n : ℕ} :
    natOfDigits? base ds = some n ↔ ds ≠ [] ∧ ds.foldl (extended base) (some 0) = some n := by
  rw [natOfDigits?, Option.ite_none_left_eq_some, List.isEmpty_iff]
  rfl

/-- What is no number stays so. -/
theorem foldl_extended_none (ds : List Char) : ds.foldl (extended base) none = none := by
  induction ds with
  | nil => rfl
  | cons c ds ih => exact ih

/-- If digits stand for a number, each of them is a digit. -/
theorem isSome_of_foldl_extended {ds : List Char} {acc : Option ℕ} {n : ℕ}
    (h : ds.foldl (extended base) acc = some n) : ∀ c ∈ ds, (digitIn? base c).isSome = true := by
  induction ds generalizing acc with
  | nil => exact nofun
  | cons c ds ih =>
    refine List.forall_mem_cons.mpr ⟨?_, ih h⟩
    -- a character that is no digit would leave no number
    obtain ⟨m, hm⟩ : ∃ m, extended base acc c = some m := by
      refine Option.ne_none_iff_exists'.mp fun hnone => ?_
      rw [List.foldl_cons, hnone, foldl_extended_none] at h
      exact nomatch h
    obtain ⟨_, -, hc⟩ := Option.bind_eq_some_iff.mp hm
    obtain ⟨d, hd, -⟩ := Option.map_eq_some_iff.mp hc
    exact Option.isSome_iff_exists.mpr ⟨d, hd⟩

/-- A number below the base has one digit. -/
theorem digits_of_lt {n : ℕ} (hn : n < base) : digits verb base n = [digit verb n] := by
  rw [digits, Nat.toDigits_of_lt_base hn, digit]
  split <;> rfl

/-- Any other one has the digits of its quotient, and then its last. -/
theorem digits_of_base_le (hbase : 1 < base) {n : ℕ} (hn : base ≤ n) :
    digits verb base n = digits verb base (n / base) ++ [digit verb (n % base)] := by
  rw [digits, digits, Nat.toDigits_of_base_le hbase hn, digit]
  split
  · exact List.map_append
  · rfl

/-- There is one digit at least. -/
theorem digits_ne_nil (n : ℕ) : digits verb base n ≠ [] := by
  rw [digits]
  split
  · exact fun h => Nat.toDigits_ne_nil (List.map_eq_nil_iff.mp h)
  · exact Nat.toDigits_ne_nil

/-- Zeros in front count for nothing. -/
theorem foldl_extended_zeros (hbase : 0 < base) (k : ℕ) :
    (List.replicate k '0').foldl (extended base) (some 0) = some 0 := by
  induction k with
  | zero => rfl
  | succ k ih =>
    -- zero is a digit of every base
    have hzero : digitIn? base '0' = some 0 := digitIn?_eq_some_of_lt (b := 16) (by decide) hbase
    have hstep : extended base (some 0) '0' = some 0 := by
      rw [extended, hzero, Option.bind_some, Option.map_some, Nat.zero_mul]
    rw [List.replicate_succ, List.foldl_cons, hstep, ih]

/-- **The digits of a number stand for it.** -/
theorem foldl_extended_digits (hlow : 1 < base) (hhigh : base ≤ 16) (n : ℕ) :
    (digits verb base n).foldl (extended base) (some 0) = some n := by
  -- by induction on the number, whose last digit is cut off
  induction n using Nat.strong_induction_on with
  | h n ih =>
    by_cases hn : n < base
    · rw [digits_of_lt hn, List.foldl_cons, List.foldl_nil, extended, digitIn?_digit verb hhigh hn,
        Option.bind_some, Option.map_some, Nat.zero_mul, Nat.zero_add]
    -- the digits in front stand for the quotient, and the last one for the remainder
    · have hfront := ih (n / base) (Nat.div_lt_self (by omega) hlow)
      have hlast := digitIn?_digit verb hhigh (Nat.mod_lt n (by omega : 0 < base))
      rw [digits_of_base_le hlow (not_lt.mp hn), List.foldl_append, hfront, List.foldl_cons,
        List.foldl_nil, extended, hlast, Option.bind_some, Option.map_some, Nat.div_add_mod']

/-- The digits of a number stand for it, with any number of zeros in front. -/
theorem natOfDigits?_zeros_digits (verb : Char) (hlow : 1 < base) (hhigh : base ≤ 16) (k n : ℕ) :
    natOfDigits? base (List.replicate k '0' ++ digits verb base n) = some n := by
  refine natOfDigits?_eq_some_iff.mpr ⟨fun h => ?_, ?_⟩
  · exact digits_ne_nil n (List.append_eq_nil_iff.mp h).2
  · rw [List.foldl_append, foldl_extended_zeros (by omega), foldl_extended_digits hlow hhigh]

/-! ### Integers -/

section

variable {sign : Option Text.Sign} {ds rest : List Char} {k : ℕ}

/-- No digit is a sign, or what may stand in place of one. -/
theorem ne_sign_of_digitIn? {c : Char} {d : ℕ} (h : digitIn? base c = some d) :
    c ≠ '-' ∧ c ≠ '+' ∧ c ≠ ' ' := by
  -- signs and blanks have smaller codes than digits
  have hle := (toNat_of_digitIn? h).1
  refine ⟨?_, ?_, ?_⟩ <;> rintro rfl <;> exact absurd hle (by decide)

/-- A number has a first digit. -/
theorem exists_cons_of_natOfDigits? (hds : natOfDigits? base ds = some k) :
    ∃ c ds' d, ds = c :: ds' ∧ digitIn? base c = some d := by
  obtain ⟨hne, hfold⟩ := natOfDigits?_eq_some_iff.mp hds
  obtain ⟨c, ds', rfl⟩ := List.exists_cons_of_ne_nil hne
  obtain ⟨d, hd⟩ := Option.isSome_iff_exists.mp (isSome_of_foldl_extended hfold c List.mem_cons_self)
  exact ⟨c, ds', d, rfl, hd⟩

/-- A sign and digits stand for an integer. -/
theorem signedOfDigits?_numeral (hds : natOfDigits? base ds = some k) :
    signedOfDigits? base (Text.Sign.text sign ++ ds) = some (Text.Sign.factor sign * k) := by
  match sign with
  | some .plus =>
    rw [Text.Sign.text, List.singleton_append, signedOfDigits?, hds]
    exact congrArg some (one_mul (k : ℤ)).symm
  | some .minus =>
    rw [Text.Sign.text, List.singleton_append, signedOfDigits?, hds]
    exact congrArg some (neg_one_mul (k : ℤ)).symm
  | none =>
    -- the text begins with a digit, which is no sign
    obtain ⟨c, ds', d, rfl, hc⟩ := exists_cons_of_natOfDigits? hds
    obtain ⟨hminus, hplus, -⟩ := ne_sign_of_digitIn? hc
    rw [Text.Sign.text, List.nil_append, signedOfDigits?, hds]
    · exact congrArg some (one_mul (k : ℤ)).symm
    · exact fun _ h => hminus (List.cons.inj h).1
    · exact fun _ h => hplus (List.cons.inj h).1

/-- An integer that is read up to a place, if it has 64 bits. -/
def fitting (rest : List Char) (n : ℤ) : Option (Value × List Char) :=
  if -9223372036854775808 ≤ n ∧ n ≤ 9223372036854775807 then some (.int (Int64.ofInt n), rest)
  else none

/-- With a sign in front the digits behind it are read. -/
theorem scanInteger?_sign {c : Char} (hc : c = '-' ∨ c = '+') (s : List Char) :
    scanInteger? base (c :: s) =
      (signedOfDigits? base ([c] ++ s.takeWhile fun c => (digitIn? base c).isSome)).bind
        (fitting (s.dropWhile fun c => (digitIn? base c).isSome)) := by
  unfold scanInteger?
  dsimp only
  rw [if_pos hc]
  rfl

/-- Without one the digits are read from the first character on. -/
theorem scanInteger?_noSign {c : Char} (hc : ¬ (c = '-' ∨ c = '+')) (s : List Char) :
    scanInteger? base (c :: s) =
      (signedOfDigits? base ((c :: s).takeWhile fun c => (digitIn? base c).isSome)).bind
        (fitting ((c :: s).dropWhile fun c => (digitIn? base c).isSome)) := by
  unfold scanInteger?
  dsimp only
  rw [if_neg hc]
  rfl

/-- A sign and digits are read to their end as the integer that they stand for. -/
theorem scanInteger?_numeral {n : Int64} (hds : natOfDigits? base ds = some k)
    (hn : n.toInt = Text.Sign.factor sign * k) (hrest : ∀ c ∈ rest.head?, digitIn? base c = none) :
    scanInteger? base (Text.Sign.text sign ++ ds ++ rest) = some (.int n, rest) := by
  have hrun := isSome_of_foldl_extended (natOfDigits?_eq_some_iff.mp hds).2
  have hend : ∀ c ∈ rest.head?, (digitIn? base c).isSome = false := fun c hc => by
    rw [hrest c hc]
    rfl
  -- the sign is taken off, and no digit is taken for one
  have hsplit : scanInteger? base (Text.Sign.text sign ++ ds ++ rest) =
      (signedOfDigits? base (Text.Sign.text sign ++ ds)).bind (fitting rest) := by
    have htake := Text.takeWhile_run hrun hend
    have hdrop := Text.dropWhile_run hrun hend
    match sign with
    | some .plus =>
      change scanInteger? base ('+' :: (ds ++ rest)) = _
      rw [scanInteger?_sign (.inr rfl), htake, hdrop]
      rfl
    | some .minus =>
      change scanInteger? base ('-' :: (ds ++ rest)) = _
      rw [scanInteger?_sign (.inl rfl), htake, hdrop]
      rfl
    | none =>
      -- without a sign the first digit is not taken for one
      obtain ⟨c, ds', d, rfl, hc⟩ := exists_cons_of_natOfDigits? hds
      obtain ⟨hminus, hplus, -⟩ := ne_sign_of_digitIn? hc
      rw [Text.Sign.text, List.nil_append, List.cons_append,
        scanInteger?_noSign (not_or.mpr ⟨hminus, hplus⟩), ← List.cons_append, htake, hdrop]
  -- the integer has 64 bits, so it fits
  have hrange : -9223372036854775808 ≤ n.toInt ∧ n.toInt ≤ 9223372036854775807 :=
    ⟨n.le_toInt, n.toInt_le⟩
  rw [hsplit, signedOfDigits?_numeral hds, Option.bind_some, ← hn, fitting, if_pos hrange,
    Int64.ofInt_toInt]

end

end ScriptEngine.Template
