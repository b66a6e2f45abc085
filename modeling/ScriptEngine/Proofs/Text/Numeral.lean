import Mathlib.Algebra.Order.Ring.Int
import Mathlib.Data.Nat.Notation
import Mathlib.Tactic.Linarith
import Mathlib.Tactic.Ring
import ScriptEngine.Text.Numeral

/-!
# What integer numerals stand for

A numeral is an optional sign and a run of digits, at least one. `Text.readInt` stops as soon as
what it has read is out of bounds; since more digits only lead farther from zero, it accepts
exactly the numerals whose number is within the bounds, and answers that number
(`readInt_eq_ok_iff`).
-/

namespace ScriptEngine.Text

/-- A sign that is written. -/
inductive Sign where
  | plus
  | minus
deriving DecidableEq, Repr

namespace Sign

/-- The text of a sign, if there is one. -/
def text : Option Sign → List Char
  | none => []
  | some plus => ['+']
  | some minus => ['-']

/-- What a sign multiplies by. -/
def factor : Option Sign → ℤ
  | some minus => -1
  | _ => 1

/-- Only the two signs are written. -/
theorem mem_text {sign : Option Sign} {c : Char} (h : c ∈ text sign) : c = '+' ∨ c = '-' := by
  match sign with
  | none => exact nomatch h
  | some .plus => exact .inl (List.mem_singleton.mp h)
  | some .minus => exact .inr (List.mem_singleton.mp h)

/-- A sign never makes a number zero. -/
theorem factor_ne_zero (sign : Option Sign) : factor sign ≠ 0 := by
  match sign with
  | none => decide
  | some .plus => decide
  | some .minus => decide

/-- A sign turns a number round if it is a minus. -/
theorem factor_eq_ite (sign : Option Sign) : factor sign = if sign = some minus then -1 else 1 := by
  match sign with
  | none => rfl
  | some .plus => rfl
  | some .minus => rfl

/-- Any other one leaves it. -/
theorem factor_of_ne_minus {sign : Option Sign} (h : sign ≠ some minus) : factor sign = 1 := by
  rw [factor_eq_ite, if_neg h]

end Sign

/-! ### Runs -/

section

variable {p : Char → Bool} {run rest : List Char}

/-- A run goes on to the first character that is not of its kind. -/
theorem takeWhile_run (hrun : ∀ c ∈ run, p c = true) (hrest : ∀ c ∈ rest.head?, p c = false) :
    (run ++ rest).takeWhile p = run := by
  -- behind the run there is nothing, or a character that ends it
  rw [List.takeWhile_append_of_pos hrun]
  cases rest with
  | nil => exact List.append_nil run
  | cons c rest => rw [List.takeWhile_cons, hrest c rfl, if_neg Bool.false_ne_true, List.append_nil]

/-- And what is left begins with that character. -/
theorem dropWhile_run (hrun : ∀ c ∈ run, p c = true) (hrest : ∀ c ∈ rest.head?, p c = false) :
    (run ++ rest).dropWhile p = rest := by
  rw [List.dropWhile_append_of_pos hrun]
  cases rest with
  | nil => rfl
  | cons c rest => rw [List.dropWhile_cons, hrest c rfl, if_neg Bool.false_ne_true]

end

/-! ### Digits -/

/-- Whether all characters are decimal digits. -/
def AllDigits (s : List Char) : Prop := ∀ c ∈ s, c.isDigit = true

instance (s : List Char) : Decidable (AllDigits s) :=
  List.decidableBAll (fun c : Char => Char.isDigit c = true) s

/-- A digit is no other kind of character. -/
theorem ne_of_isDigit {c x : Char} (hc : c.isDigit = true) (hx : x.isDigit = false) : c ≠ x := by
  rintro rfl
  exact Bool.false_ne_true (hx.symm.trans hc)

@[simp] theorem allDigits_nil : AllDigits [] := nofun

@[simp] theorem allDigits_cons {c : Char} {s : List Char} :
    AllDigits (c :: s) ↔ c.isDigit = true ∧ AllDigits s :=
  List.forall_mem_cons

@[simp] theorem allDigits_append {s t : List Char} :
    AllDigits (s ++ t) ↔ AllDigits s ∧ AllDigits t :=
  List.forall_mem_append

/-- Zeros are digits. -/
theorem allDigits_zeros (k : ℕ) : AllDigits (List.replicate k '0') := fun c hc => by
  rw [List.eq_of_mem_replicate hc]
  rfl

/-- The number of a run of digits is the one that the library reads from it. -/
theorem natOfDigits_eq (s : List Char) : natOfDigits s = Nat.ofDigitChars 10 s 0 := by
  unfold natOfDigits Nat.ofDigitChars
  -- the two fold the digits in the same way, but for the order of the factors
  congr 1
  funext acc c
  rw [mul_comm]
  rfl

/-- Further digits lead away from zero. -/
theorem le_ofDigitChars (s : List Char) (acc : ℕ) : acc ≤ Nat.ofDigitChars 10 s acc := by
  induction s generalizing acc with
  | nil => exact le_rfl
  | cons c s ih =>
    rw [Nat.ofDigitChars_cons]
    exact le_trans (by omega) (ih _)

/-! ### Digits of numbers -/

/-- The digits of a number are digits. -/
theorem allDigits_toDigits (n : ℕ) : AllDigits (Nat.toDigits 10 n) := fun _ hc =>
  Nat.isDigit_of_mem_toDigits (by decide) le_rfl hc

/-- Only the digits of zero start with a zero. -/
theorem head?_toDigits_ne_zero {w : ℕ} (hw : 0 < w) :
    ∀ c ∈ (Nat.toDigits 10 w).head?, c ≠ '0' := by
  induction w using Nat.strong_induction_on with
  | h w ih =>
    by_cases hlt : w < 10
    -- a single digit is zero only for zero
    · rw [Nat.toDigits_of_lt_base hlt]
      rintro _ ⟨⟩
      exact fun h => hw.ne' (Nat.digitChar_eq_zero.mp h)
    -- the first digit is that of the number without its last digit
    · have hhead : (Nat.toDigits 10 w).head? = (Nat.toDigits 10 (w / 10)).head? := by
        rw [Nat.toDigits_of_base_le (by decide) (by omega), List.head?_append,
          List.head?_eq_some_head Nat.toDigits_ne_nil]
        rfl
      rw [hhead]
      exact ih (w / 10) (by omega) (by omega)

/-- An integer is written as the digits of its size, with a minus in front if it is below zero. -/
theorem toList_toString (x : ℤ) :
    (toString x).toList = Sign.text (if x < 0 then some .minus else none) ++
      Nat.toDigits 10 x.natAbs := by
  rw [Int.toString_eq_repr, Int.repr_eq_if]
  -- below zero the text is that of the opposite with a sign in front
  by_cases h : x < 0
  · have habs : (-x).toNat = x.natAbs := by omega
    rw [if_neg (by omega), if_pos h, String.toList_append, habs, Nat.toList_repr]
    rfl
  · have habs : x.toNat = x.natAbs := by omega
    rw [if_pos (by omega), if_neg h, habs, Nat.toList_repr]
    rfl

/-! ### Integers -/

section

variable {lo hi n : ℤ}

/-- The digits are all read if they are digits and their number, extended from `acc`, is within
the bounds. -/
theorem readDigits_eq_ok_iff (hlo : lo ≤ 0) (hhi : 0 ≤ hi) {neg : Bool} {ε : ℤ}
    (hε : neg = true ∧ ε = -1 ∨ neg = false ∧ ε = 1) {s : List Char} (acc : ℕ)
    (hmin : lo ≤ ε * acc) (hmax : ε * acc ≤ hi) :
    readDigits lo hi neg (ε * acc) s = .ok n ↔
      AllDigits s ∧ n = ε * Nat.ofDigitChars 10 s acc ∧ lo ≤ n ∧ n ≤ hi := by
  -- by induction on the digits that are left, for every number read so far
  induction s generalizing acc with
  | nil =>
    rw [readDigits, Except.ok.injEq, Nat.ofDigitChars_nil]
    constructor
    · rintro rfl
      exact ⟨allDigits_nil, rfl, hmin, hmax⟩
    · rintro ⟨-, rfl, -⟩
      rfl
  | cons c s ih =>
    have hzero : '0'.toNat = 48 := rfl
    rw [allDigits_cons, Nat.ofDigitChars_cons, readDigits, digitValue?, hzero]
    by_cases hc : c.isDigit = true
    -- the next digit moves the number away from zero, on the side of its sign
    · obtain ⟨d, hd⟩ : ∃ d, c.toNat - 48 = d := ⟨_, rfl⟩
      have hnext : (if neg = true then ε * acc * 10 - (d : ℤ) else ε * acc * 10 + d) =
          ε * (10 * acc + d : ℕ) := by
        obtain ⟨rfl, rfl⟩ | ⟨rfl, rfl⟩ := hε
        · rw [if_pos rfl]
          push_cast
          ring
        · rw [if_neg Bool.false_ne_true]
          push_cast
          ring
      -- what is out of bounds already is farther out with the rest
      have hgrow := le_ofDigitChars s (10 * acc + d)
      simp only [hc, if_true, hd, hnext, true_and]
      split
      · next hout =>
        refine ⟨nofun, fun ⟨_, hn, hmin', _⟩ => ?_⟩
        obtain ⟨-, rfl⟩ | ⟨-, rfl⟩ := hε <;> omega
      · next hin =>
        split
        · next hout =>
          refine ⟨nofun, fun ⟨_, hn, _, hmax'⟩ => ?_⟩
          obtain ⟨-, rfl⟩ | ⟨-, rfl⟩ := hε <;> omega
        · next hin' => exact ih _ (not_lt.mp hin) (not_lt.mp hin')
    -- what is no digit is refused, and no numeral has it
    · rw [if_neg hc]
      exact ⟨nofun, fun ⟨⟨h, _⟩, _⟩ => absurd h hc⟩

/-- A text is read as an integer if it is a numeral for it and the bounds admit it. -/
theorem readInt_eq_ok_iff (hlo : lo < 0) (hhi : 0 ≤ hi) {s : List Char} :
    readInt lo hi s = .ok n ↔
      ∃ sign ds, s = Sign.text sign ++ ds ∧ ds ≠ [] ∧ AllDigits ds ∧
        n = Sign.factor sign * Nat.ofDigitChars 10 ds 0 ∧ lo ≤ n ∧ n ≤ hi := by
  have up : ∀ ds, readDigits lo hi false 0 ds = .ok n ↔
      AllDigits ds ∧ n = 1 * Nat.ofDigitChars 10 ds 0 ∧ lo ≤ n ∧ n ≤ hi := fun ds =>
    readDigits_eq_ok_iff hlo.le hhi (.inr ⟨rfl, rfl⟩) 0 hlo.le hhi
  have down : ∀ ds, readDigits lo hi true 0 ds = .ok n ↔
      AllDigits ds ∧ n = -1 * Nat.ofDigitChars 10 ds 0 ∧ lo ≤ n ∧ n ≤ hi := fun ds =>
    readDigits_eq_ok_iff hlo.le hhi (.inl ⟨rfl, rfl⟩) 0 hlo.le hhi
  constructor
  · intro h
    -- nothing, or a sign alone, is no numeral
    unfold readInt at h
    split at h
    · exact nomatch h
    · exact nomatch h
    · exact nomatch h
    · next rest hne =>
      exact ⟨some .plus, rest, rfl, fun hnil => hne (by rw [hnil]), (up rest).mp h⟩
    · next rest hne =>
      rw [if_pos hlo] at h
      exact ⟨some .minus, rest, rfl, fun hnil => hne (by rw [hnil]), (down rest).mp h⟩
    · next hne _ _ _ _ => exact ⟨none, s, rfl, hne, (up s).mp h⟩
  · rintro ⟨sign, ds, rfl, hne, hds, hn⟩
    obtain ⟨c, rest, rfl⟩ := List.exists_cons_of_ne_nil hne
    -- the sign says on which side of zero the digits are read
    match sign with
    | some .plus => exact (up _).mpr ⟨hds, hn⟩
    | some .minus =>
      change (if lo < 0 then _ else _) = _
      rw [if_pos hlo]
      exact (down _).mpr ⟨hds, hn⟩
    | none =>
      -- a digit is no sign
      have hc := (allDigits_cons.mp hds).1
      have hplus := ne_of_isDigit hc (x := '+') rfl
      have hminus := ne_of_isDigit hc (x := '-') rfl
      have hread : readInt lo hi (c :: rest) = readDigits lo hi false 0 (c :: rest) := by
        unfold readInt
        split <;> simp_all
      rw [Sign.text, List.nil_append, hread]
      exact (up _).mpr ⟨hds, hn⟩

end

/-- The same for 32 bits, which hold every number within the bounds. -/
theorem readInt32_eq_ok_iff {s : List Char} {e : Int32} :
    readInt32 s = .ok e ↔
      ∃ sign ds, s = Sign.text sign ++ ds ∧ ds ≠ [] ∧ AllDigits ds ∧
        e.toInt = Sign.factor sign * Nat.ofDigitChars 10 ds 0 := by
  have hlo := e.le_toInt
  have hhi := e.toInt_lt
  have hread : readInt32 s = .ok e ↔ readInt (-2147483648) 2147483647 s = .ok e.toInt := by
    unfold readInt32
    constructor
    · intro h
      -- an answer of 32 bits is one of the wider reader
      obtain ⟨n, hn, hne⟩ :
          ∃ n, readInt (-2147483648) 2147483647 s = .ok n ∧ Int32.ofInt n = e := by
        cases hn : readInt (-2147483648) 2147483647 s with
        | error x =>
          rw [hn] at h
          exact nomatch h
        | ok n =>
          rw [hn] at h
          exact ⟨n, rfl, Except.ok.inj h⟩
      -- what is within the bounds is not changed by the conversion
      obtain ⟨-, -, -, -, -, -, hmin, hmax⟩ := (readInt_eq_ok_iff (by omega) (by omega)).mp hn
      rw [hn, ← hne, Int32.toInt_ofInt_of_le (by omega) (by omega)]
    · intro h
      rw [h]
      exact congrArg Except.ok (Int32.ofInt_toInt e)
  rw [hread, readInt_eq_ok_iff (by omega) (by omega)]
  constructor
  · rintro ⟨sign, ds, hs, hne, hds, hn, -⟩
    exact ⟨sign, ds, hs, hne, hds, hn⟩
  · rintro ⟨sign, ds, hs, hne, hds, hn⟩
    exact ⟨sign, ds, hs, hne, hds, hn, by omega, by omega⟩

end ScriptEngine.Text
