import Mathlib.Algebra.Order.Group.Nat
import ScriptEngine.Proofs.Template.Digits

/-!
# Layouts

A verb is written with flags and a width in front of its letter. `readSpec` takes the longest run of
flags, in which a zero is one, and then the longest run of digits: what it reads of a width of zero is
one more flag, and of other widths the width (`Layout.readSpec_append`). The text of a verb is filled
up to the width, whatever the flags are (`Spec.length_filled`); what is filled in are blanks on one
side, or zeros between the sign and the digits (`Spec.filled_signed`).
-/

namespace ScriptEngine.Template

/-! ### Reading -/

/-- A letter ends the flags and the digits before it, and is no percent sign. -/
theorem isFlag_of_isAlpha {c : Char} (hc : c.isAlpha = true) : isFlag c = false := by
  rw [← Bool.not_eq_true]
  intro h
  simp only [isFlag, Bool.or_eq_true, beq_iff_eq] at h
  obtain ((rfl | rfl) | rfl) | rfl := h <;> exact absurd hc (by decide)

theorem isDigit_of_isAlpha {c : Char} (hc : c.isAlpha = true) : c.isDigit = false := by
  have hcase : c.isAlpha = (decide (c.val ≥ 'A'.val ∧ c.val ≤ 'Z'.val) ||
      decide (c.val ≥ 'a'.val) && decide (c.val ≤ 'z'.val)) := rfl
  rw [hcase] at hc
  simp only [Char.isDigit, Bool.or_eq_true, Bool.and_eq_true, Bool.and_eq_false_iff,
    decide_eq_true_eq, decide_eq_false_iff_not, ge_iff_le, UInt32.le_iff_toNat_le] at hc ⊢
  -- letters are compared with digits by their codes
  have hupper : ('A'.val.toNat, 'Z'.val.toNat) = (65, 90) := rfl
  have hlower : ('a'.val.toNat, 'z'.val.toNat) = (97, 122) := rfl
  have hdigit : ('0'.val.toNat, '9'.val.toNat) = (48, 57) := rfl
  grind

/-- Flags and digits before a letter are what the reader takes. -/
theorem readSpec_run {flags ds : List Char} (hflags : ∀ c ∈ flags, isFlag c = true)
    (hds : Text.AllDigits ds) (hfirst : ∀ c ∈ ds.head?, c ≠ '0') {verb : Char}
    (hverb : verb.isAlpha = true) (rest : List Char) :
    readSpec (flags ++ (ds ++ verb :: rest)) =
      ({ Spec.ofFlags flags with width := size? ds }, verb :: rest) := by
  -- the flags end at the first digit that is no zero, or at the letter
  have hend : ∀ c ∈ (ds ++ verb :: rest).head?, isFlag c = false := by
    cases ds with
    | nil =>
      rintro _ ⟨⟩
      exact isFlag_of_isAlpha hverb
    | cons d ds =>
      rintro _ ⟨⟩
      have hd := (Text.allDigits_cons.mp hds).1
      rw [← Bool.not_eq_true]
      intro h
      simp only [isFlag, Bool.or_eq_true, beq_iff_eq] at h
      obtain ((rfl | rfl) | rfl) | rfl := h
      · exact absurd hd (by decide)
      · exact absurd hd (by decide)
      · exact hfirst _ rfl rfl
      · exact absurd hd (by decide)
  -- the digits end at the letter
  have hletter : ∀ c ∈ (verb :: rest).head?, c.isDigit = false := by
    rintro _ ⟨⟩
    exact isDigit_of_isAlpha hverb
  unfold readSpec
  rw [Text.takeWhile_run hflags hend, Text.dropWhile_run hflags hend]
  dsimp only
  rw [Text.takeWhile_run hds hletter, Text.dropWhile_run hds hletter]
  -- there is no precision, as a letter is no point
  split
  · next h =>
    obtain ⟨rfl, -⟩ := List.cons.inj h
    exact absurd hverb (by decide)
  · rfl

theorem size?_toDigits {w : ℕ} (hw : w < 18446744073709551616) :
    size? (Nat.toDigits 10 w) = some w := by
  have hne : (Nat.toDigits 10 w).isEmpty = false := List.isEmpty_eq_false_iff.mpr Nat.toDigits_ne_nil
  rw [size?, hne, if_neg Bool.false_ne_true, Text.natOfDigits_eq, Nat.ofDigitChars_ten_toDigits]
  exact if_pos hw

/-- The flags and the width of a verb. The width has 64 bits. -/
structure Layout where
  flags : List Char
  width : Option ℕ
  isFlag_flags : ∀ c ∈ flags, isFlag c = true
  width_lt : ∀ w ∈ width, w < 18446744073709551616

namespace Layout

variable (l : Layout)

/-- What is written in front of the letter. -/
def chars : List Char := l.flags ++ (l.width.map (Nat.toDigits 10)).getD []

/-- What is read of it. -/
def spec : Spec :=
  match l.width with
  | none => Spec.ofFlags l.flags
  | some 0 => Spec.ofFlags (l.flags ++ ['0'])
  | some w => { Spec.ofFlags l.flags with width := some w }

theorem readSpec_append {verb : Char} (hverb : verb.isAlpha = true) (rest : List Char) :
    readSpec (l.chars ++ verb :: rest) = (l.spec, verb :: rest) := by
  obtain ⟨flags, width, hflags, hwidth⟩ := l
  match width with
  | none =>
    change readSpec ((flags ++ []) ++ _) = (Spec.ofFlags flags, _)
    rw [List.append_assoc, readSpec_run hflags Text.allDigits_nil nofun hverb]
    rfl
  | some 0 =>
    -- a width of zero reads as one more flag
    have hmore : ∀ c ∈ flags ++ ['0'], isFlag c = true :=
      List.forall_mem_append.mpr ⟨hflags, List.forall_mem_singleton.mpr rfl⟩
    change readSpec ((flags ++ ['0']) ++ ([] ++ _)) = (Spec.ofFlags (flags ++ ['0']), _)
    rw [readSpec_run hmore Text.allDigits_nil nofun hverb]
    rfl
  | some (w + 1) =>
    change readSpec ((flags ++ Nat.toDigits 10 (w + 1)) ++ _) = _
    rw [List.append_assoc, readSpec_run hflags (Text.allDigits_toDigits _)
      (Text.head?_toDigits_ne_zero w.succ_pos) hverb,
      size?_toDigits (hwidth _ rfl)]
    rfl

@[simp] theorem width_spec : l.spec.width.getD 0 = l.width.getD 0 := by
  rw [spec]
  split <;> simp_all [Spec.ofFlags, Spec.plain]

@[simp] theorem precision_spec : l.spec.precision = none := by
  rw [spec]
  split <;> rfl

/-- The flags for the sign are those that are written. -/
theorem signed_spec (negative : Bool) (magnitude : List Char) :
    l.spec.signed negative magnitude = (Spec.ofFlags l.flags).signed negative magnitude := by
  -- a width of zero adds a flag that has nothing to do with signs
  rw [spec]
  split
  · rfl
  · simp [Spec.signed, Spec.ofFlags]
  · rfl

end Layout

/-! ### Filling up -/

namespace Spec

/-- A text is as long as the width, or as it is without one. -/
theorem length_filled (spec : Spec) (body : List Char) (numeric : Bool) :
    (spec.filled body numeric).length = max (spec.width.getD 0) body.length := by
  have hmissing : spec.missing body = spec.width.getD 0 - body.length := rfl
  unfold filled
  -- whichever side is filled up, the length is that of the text and of what is missing
  repeat' split
  all_goals
    simp only [List.length_append, List.length_cons, List.length_nil, List.length_replicate,
      hmissing]
    omega

/-- What is filled in: blanks behind or in front, or zeros between the sign and the digits. -/
theorem filled_signed (spec : Spec) (negative : Bool) {c : Char} (ds : List Char)
    (hc : ¬ (c = '-' ∨ c = '+' ∨ c = ' ')) :
    ∃ k, spec.filled (spec.signed negative (c :: ds)) true =
        spec.signed negative (c :: ds) ++ List.replicate k ' ' ∨
      spec.filled (spec.signed negative (c :: ds)) true =
        List.replicate k ' ' ++ spec.signed negative (c :: ds) ∨
      spec.filled (spec.signed negative (c :: ds)) true =
        spec.signed negative (List.replicate k '0' ++ c :: ds) := by
  refine ⟨spec.missing (spec.signed negative (c :: ds)), ?_⟩
  unfold filled
  -- a flag puts the text first, and then blanks
  split
  · exact .inl rfl
  · split
    · -- the zeros go behind the sign, if one is written, and else in front of the digits
      refine .inr (.inr ?_)
      unfold signed
      split_ifs
      · rfl
      · rfl
      · rfl
      · exact if_neg hc
    · exact .inr (.inl rfl)

example : { Spec.ofFlags ['0'] with width := some 6 }.filled ['-', '4', '2'] true =
    ['-', '0', '0', '0', '4', '2'] := by
  decide

end Spec

end ScriptEngine.Template
