/-!
# Sums within 64 bits

The sum of two machine integers, where the host adds only what fits. What comes of a sum that
does not is up to who asked for it: a count in steps ends, a counter ends the host.
-/

namespace ScriptEngine

/-- The sum of two integers, unless it leaves the 64 bits. -/
def checkedAdd (a b : Int64) : Option Int64 :=
  if a.toBitVec.saddOverflow b.toBitVec then none else some (a + b)

variable {a b c : Int64}

/-- The flag of an overflow says that the exact sum is out of range. -/
theorem saddOverflow_eq_true_iff :
    a.toBitVec.saddOverflow b.toBitVec = true ↔
      a.toInt + b.toInt < -9223372036854775808 ∨ 9223372036854775808 ≤ a.toInt + b.toInt := by
  simp only [BitVec.saddOverflow, Bool.or_eq_true, decide_eq_true_eq]
  change 9223372036854775808 ≤ a.toInt + b.toInt ∨ a.toInt + b.toInt < -9223372036854775808 ↔ _
  omega

/-- There is no sum if the exact one is out of range, and only then. -/
theorem checkedAdd_eq_none_iff :
    checkedAdd a b = none ↔
      a.toInt + b.toInt < -9223372036854775808 ∨ 9223372036854775808 ≤ a.toInt + b.toInt := by
  unfold checkedAdd
  rw [← saddOverflow_eq_true_iff]
  split
  · next hout => exact iff_of_true rfl hout
  · next hfits => exact iff_of_false nofun hfits

/-- A sum that there is, is the exact one. -/
theorem checkedAdd_eq_some_iff : checkedAdd a b = some c ↔ c.toInt = a.toInt + b.toInt := by
  have hexact : ¬ a.toBitVec.saddOverflow b.toBitVec = true →
      (a + b).toInt = a.toInt + b.toInt :=
    BitVec.toInt_add_of_not_saddOverflow
  unfold checkedAdd
  constructor
  · intro h
    obtain ⟨hfits, h⟩ := Option.ite_none_left_eq_some.mp h
    obtain rfl := Option.some.inj h
    exact hexact hfits
  · intro h
    -- an exact sum in the range of `c` is no overflow
    have hfits : ¬ a.toBitVec.saddOverflow b.toBitVec = true := by
      have hleast := c.le_toInt
      have hgreatest := c.toInt_lt
      rw [saddOverflow_eq_true_iff]
      omega
    rw [if_neg hfits, Option.some_inj, ← Int64.toInt_inj, hexact hfits, h]

end ScriptEngine
