import ScriptEngine.Checked
import ScriptEngine.Value

/-!
# Counting in steps

A count begins with zero and adds the step to its number turn by turn, until the number has reached
a bound, or the sum would leave the 64 bits. With a positive step every turn comes closer to the
bound, so there is a last one.
-/

namespace ScriptEngine.Builtin

/-- Where a count stands: the number that comes next, and the items so far. -/
structure Counting where
  next : Int64
  items : Array Value

namespace Counting

variable {stop step : Int64} {c c' : Counting}

/-- Counting begins with zero. -/
def start : Counting := ⟨0, #[]⟩

/-- One turn: a number below `stop` becomes an item, and the step is added to it. The turn is the
last one if the number is not below `stop`, or if the sum leaves the 64 bits. -/
def turn (stop step : Int64) (c : Counting) : ForInStep Counting :=
  if c.next < stop then
    let items := c.items.push (.int c.next)
    match checkedAdd c.next step with
    | some next => .yield ⟨next, items⟩
    | none => .done ⟨c.next, items⟩
  else .done c

/-- A turn that is not the last one adds the step to a number below the bound. -/
theorem toInt_of_turn_eq_yield (h : c.turn stop step = .yield c') :
    c.next.toInt < stop.toInt ∧ c'.next.toInt = c.next.toInt + step.toInt := by
  unfold turn at h
  split at h
  · next hlt =>
    split at h
    · next sum hsum =>
      cases h
      exact ⟨Int64.lt_iff_toInt_lt.mp hlt, checkedAdd_eq_some_iff.mp hsum⟩
    · cases h
  · cases h

/-- Takes turns up to the last one. -/
def finish (stop step : Int64) (hstep : 0 < step) (c : Counting) : Counting :=
  match _hturn : c.turn stop step with
  | .yield c' => c'.finish stop step hstep
  | .done c' => c'
termination_by (stop.toInt - c.next.toInt).toNat
decreasing_by
  have hpos : 0 < step.toInt := Int64.lt_iff_toInt_lt.mp hstep
  obtain ⟨hlt, hnext⟩ := toInt_of_turn_eq_yield _hturn
  omega

theorem finish_of_yield (hstep : 0 < step) (h : c.turn stop step = .yield c') :
    c.finish stop step hstep = c'.finish stop step hstep := by
  rw [finish]
  split
  · next hturn => rw [ForInStep.yield.inj (hturn.symm.trans h)]
  · next hturn => exact nomatch hturn.symm.trans h

theorem finish_of_done (hstep : 0 < step) (h : c.turn stop step = .done c') :
    c.finish stop step hstep = c' := by
  rw [finish]
  split
  · next hturn => exact nomatch hturn.symm.trans h
  · next hturn => exact ForInStep.done.inj (hturn.symm.trans h)

/-- The items of a count from zero up to `stop`, without it. -/
def upTo (stop step : Int64) (hstep : 0 < step) : Array Value :=
  (start.finish stop step hstep).items

end Counting

end ScriptEngine.Builtin
