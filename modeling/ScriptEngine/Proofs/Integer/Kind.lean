import Mathlib.Data.Int.ModEq
import Mathlib.Data.Nat.Notation
import ScriptEngine.Proofs.Equality.Operator

/-!
# Integers of 64 bits

An `Integer` is signed or unsigned, and stands for a number (`Integer.number`). Either kind holds
2 ^ 64 numbers in a row, from `IntegerKind.least` on, so each residue modulo 2 ^ 64 is that of one
number of the kind (`IntegerKind.Fits.eq_of_modEq`), and `IntegerKind.wrap` finds it.
-/

namespace ScriptEngine

/-- Whether integers have a sign. -/
inductive IntegerKind where
  | signed
  | unsigned
deriving DecidableEq, Repr

/-- An integer of either kind. -/
inductive Integer where
  | int (n : Int64)
  | uint (n : UInt64)
deriving DecidableEq, Repr

namespace Integer

/-- The value that a program has it as. -/
def toValue : Integer → Value
  | int n => .int n
  | uint n => .uint n

theorem toValue_inj {n m : Integer} (h : n.toValue = m.toValue) : n = m := by
  cases n <;> cases m <;> cases h <;> rfl

/-- Whether it has a sign. -/
def kind : Integer → IntegerKind
  | int _ => .signed
  | uint _ => .unsigned

/-- The number that an integer stands for. -/
def number : Integer → ℤ
  | int n => n.toInt
  | uint n => n.toNat

end Integer

namespace IntegerKind

/-- The least number of a kind. -/
def least : IntegerKind → ℤ
  | signed => -9223372036854775808
  | unsigned => 0

/-- The kind holds the number. -/
def Fits (k : IntegerKind) (x : ℤ) : Prop :=
  k.least ≤ x ∧ x < k.least + 18446744073709551616

instance (k : IntegerKind) (x : ℤ) : Decidable (k.Fits x) := inferInstanceAs (Decidable (_ ∧ _))

theorem fits_signed_iff {x : ℤ} : signed.Fits x ↔ -2 ^ 63 ≤ x ∧ x < 2 ^ 63 := Iff.rfl

theorem fits_unsigned_iff {x : ℤ} : unsigned.Fits x ↔ 0 ≤ x ∧ x < 2 ^ 64 := by
  change 0 ≤ x ∧ x < 0 + 18446744073709551616 ↔ _
  omega

/-- The integer of a kind with the lowest 64 bits of a number. -/
def wrap : IntegerKind → ℤ → Integer
  | signed, x => .int (.ofInt x)
  | unsigned, x => .uint (.ofInt x)

@[simp] theorem kind_wrap (k : IntegerKind) (x : ℤ) : (k.wrap x).kind = k := by
  cases k <;> rfl

/-- A kind holds only one number with given lowest bits. -/
theorem Fits.eq_of_modEq {k : IntegerKind} {x y : ℤ} (hx : k.Fits x) (hy : k.Fits y)
    (h : x ≡ y [ZMOD 2 ^ 64]) : x = y := by
  obtain ⟨hxlo, hxhi⟩ := hx
  obtain ⟨hylo, hyhi⟩ := hy
  unfold Int.ModEq at h
  -- two numbers that differ by a multiple of 2 ^ 64 are not both among 2 ^ 64 in a row
  omega

end IntegerKind

/-- Taking the lowest bits as those of a signed number keeps them. -/
theorem bmod_modEq (x : ℤ) : x.bmod (2 ^ 64) ≡ x [ZMOD 2 ^ 64] := Int.bmod_emod

theorem toInt_toInt64_modEq (n : UInt64) : n.toInt64.toInt ≡ n.toNat [ZMOD 2 ^ 64] := by
  rw [toInt_toInt64]
  exact bmod_modEq _

theorem toNat_toUInt64_modEq (n : Int64) : (n.toUInt64.toNat : ℤ) ≡ n.toInt [ZMOD 2 ^ 64] := by
  -- both are the bits of one number
  rw [← Int64.toInt_toBitVec, BitVec.toInt_eq_toNat_bmod]
  exact (bmod_modEq _).symm

namespace Integer

/-- An integer is one of the numbers that its kind holds. -/
theorem fits (n : Integer) : n.kind.Fits n.number := by
  cases n with
  | int n => exact ⟨n.le_toInt, n.toInt_lt⟩
  | uint n =>
    have hn := n.toNat_lt
    change 0 ≤ (n.toNat : ℤ) ∧ (n.toNat : ℤ) < 0 + 18446744073709551616
    omega

/-- Integers of one kind that stand for the same number are the same. -/
theorem eq_of_number_eq {n m : Integer} (hkind : n.kind = m.kind) (h : n.number = m.number) :
    n = m := by
  cases n with
  | int n =>
    cases m with
    | int m => rw [Int64.toInt_inj.mp h]
    | uint m => exact nomatch hkind
  | uint n =>
    cases m with
    | int m => exact nomatch hkind
    | uint m => rw [UInt64.toNat_inj.mp (Int.ofNat_inj.mp h)]

/-- Wrapping keeps the lowest 64 bits. -/
theorem number_wrap_modEq (k : IntegerKind) (x : ℤ) : (k.wrap x).number ≡ x [ZMOD 2 ^ 64] := by
  cases k with
  | signed =>
    change (Int64.ofInt x).toInt ≡ x [ZMOD 2 ^ 64]
    rw [Int64.toInt_ofInt]
    exact bmod_modEq x
  | unsigned =>
    -- the remainder has 64 bits, so it is held as it is
    have hmod : 0 ≤ x % 2 ^ 64 ∧ x % 2 ^ 64 < 2 ^ 64 := by omega
    have hnumber : (IntegerKind.unsigned.wrap x).number = x % 2 ^ 64 := by
      change ((UInt64.ofNat (x % 2 ^ 64).toNat).toNat : ℤ) = _
      rw [UInt64.toNat_ofNat_of_lt' (by change _ < 2 ^ 64; omega)]
      omega
    rw [hnumber]
    exact Int.mod_modEq x _

/-- **Wrapping** finds the integer of the kind that is congruent to the number. -/
theorem eq_wrap_iff {k : IntegerKind} {n : Integer} {x : ℤ} :
    n = k.wrap x ↔ n.kind = k ∧ n.number ≡ x [ZMOD 2 ^ 64] := by
  constructor
  · rintro rfl
    exact ⟨k.kind_wrap x, number_wrap_modEq k x⟩
  · rintro ⟨rfl, h⟩
    have hkind : n.kind = (n.kind.wrap x).kind := (n.kind.kind_wrap x).symm
    -- both are of the kind, which holds one such number only
    refine eq_of_number_eq hkind (n.fits.eq_of_modEq ?_ (h.trans (number_wrap_modEq n.kind x).symm))
    have hfits := (n.kind.wrap x).fits
    rwa [← hkind] at hfits

/-- Numbers that a kind holds are not changed. -/
theorem number_wrap {k : IntegerKind} {x : ℤ} (h : k.Fits x) : (k.wrap x).number = x := by
  have hfits := (k.wrap x).fits
  rw [k.kind_wrap x] at hfits
  exact hfits.eq_of_modEq h (number_wrap_modEq k x)

@[simp] theorem wrap_number (n : Integer) : n.kind.wrap n.number = n :=
  (eq_wrap_iff.mpr ⟨rfl, rfl⟩).symm

end Integer

end ScriptEngine
