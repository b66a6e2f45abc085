import Mathlib.Data.Rat.Floor
import Mathlib.Logic.Relation
import ScriptEngine.Builtin.Library
import ScriptEngine.Proofs.Run.Answers

/-!
# Ranges in steps

`range` counts from zero in steps (`Counting.turn`) until the next number has reached the bound, or
would leave the 64 bits. Sums that leave them are never taken over: before every turn the next number
is the exact product of the step and the number of items (`Counting.Stands`). A turn keeps it so, or
is the last one and all items are there (`Counting.Stands.turn`); in particular nothing is missing
when a sum leaves the 64 bits, as it is beyond every bound then (`Counting.size_of_overflow`).

With a positive step every count ends, and its items are the multiples of the step below the bound
(`Counting.upTo_multiples`), also next to the greatest integer. With the step zero no count does that
has anything to list (`Counting.not_ends_zero`); `range` refuses it, as it does negative steps
(`run_range`).
-/

namespace ScriptEngine.Builtin

open Eval

namespace Counting

variable {stop step : Int64} {c c' : Counting}

/-! ### The multiples below a bound -/

/-- How many multiples of the step there are from zero up to the bound, without it. -/
def size (stop step : Int64) : ℕ := ⌈(stop.toInt : ℚ) / step.toInt⌉₊

/-- The first multiples of the step. -/
def multiples (step : Int64) (n : ℕ) : List Int64 :=
  (List.range n).map fun j : ℕ => Int64.ofInt (j * step.toInt)

/-- A positive step is positive as an integer. -/
theorem toInt_pos (hstep : 0 < step) : 0 < step.toInt := Int64.lt_iff_toInt_lt.mp hstep

/-- A multiple is among those counted if it is below the bound. -/
theorem lt_size_iff (hstep : 0 < step) (j : ℕ) :
    j < size stop step ↔ (j : ℤ) * step.toInt < stop.toInt := by
  have hpos : (0 : ℚ) < step.toInt := by exact_mod_cast toInt_pos hstep
  -- below the quotient rounded up, so below the quotient
  rw [size, Nat.lt_ceil, lt_div_iff₀ hpos]
  exact_mod_cast Iff.rfl

/-- One multiple more comes at the end. -/
theorem multiples_succ (step : Int64) (n : ℕ) :
    multiples step (n + 1) = multiples step n ++ [Int64.ofInt (n * step.toInt)] := by
  simp [multiples, List.range_succ]

@[simp] theorem length_multiples (step : Int64) (n : ℕ) : (multiples step n).length = n := by
  simp [multiples]

/-- The multiples below a bound are integers of 64 bits, as the bound is one. -/
theorem toInt_multiples (hstep : 0 < step) :
    (multiples step (size stop step)).map Int64.toInt =
      (List.range (size stop step)).map fun j : ℕ => (j : ℤ) * step.toInt := by
  rw [multiples, List.map_map, List.map_inj_left]
  intro j hj
  have hbelow := (lt_size_iff hstep j).mp (List.mem_range.mp hj)
  -- a multiple is not negative, and less than the bound
  have hnonneg : 0 ≤ (j : ℤ) * step.toInt :=
    mul_nonneg (Int.natCast_nonneg j) (toInt_pos hstep).le
  have hgreatest := stop.toInt_lt
  exact Int64.toInt_ofInt_of_le (by omega) (by omega)

/-- The multiples increase. -/
theorem pairwise_multiples (hstep : 0 < step) :
    (multiples step (size stop step)).Pairwise (· < ·) := by
  simp only [Int64.lt_iff_toInt_lt]
  rw [← List.pairwise_map, toInt_multiples hstep, List.pairwise_map]
  -- a greater factor makes a greater multiple
  refine List.pairwise_lt_range.imp fun hij => ?_
  exact mul_lt_mul_of_pos_right (by exact_mod_cast hij) (toInt_pos hstep)

/-- They are those of the step, from zero up to the bound. -/
theorem mem_multiples_iff (hstep : 0 < step) (n : ℤ) :
    n ∈ (multiples step (size stop step)).map Int64.toInt ↔
      0 ≤ n ∧ n < stop.toInt ∧ step.toInt ∣ n := by
  have hpos := toInt_pos hstep
  rw [toInt_multiples hstep]
  simp only [List.mem_map, List.mem_range, lt_size_iff hstep]
  constructor
  · rintro ⟨j, hbelow, rfl⟩
    exact ⟨mul_nonneg (Int.natCast_nonneg j) hpos.le, hbelow, dvd_mul_left _ _⟩
  · rintro ⟨hnonneg, hbelow, q, rfl⟩
    -- a multiple that is not negative is one by such a factor
    have hq : 0 ≤ q := nonneg_of_mul_nonneg_right hnonneg hpos
    refine ⟨q.toNat, ?_, ?_⟩ <;> rw [Int.toNat_of_nonneg hq, mul_comm]
    exact hbelow

/-- There are none if the bound is not positive. -/
theorem size_eq_zero (hstep : 0 < step) (hstop : stop ≤ 0) : size stop step = 0 := by
  have hle : stop.toInt ≤ 0 := Int64.le_iff_toInt_le.mp hstop
  refine Nat.eq_zero_of_not_pos fun hpos => ?_
  have := (lt_size_iff hstep 0).mp hpos
  omega

/-- A multiple that is followed by none of 64 bits is the last one below the bound. -/
theorem size_of_overflow (hstep : 0 < step) {j : ℕ} (hlt : j < size stop step)
    (hover : 2 ^ 63 ≤ (j + 1 : ℕ) * step.toInt) : j + 1 = size stop step := by
  have hlast : ¬ j + 1 < size stop step := by
    rw [lt_size_iff hstep]
    have hgreatest := stop.toInt_lt
    omega
  omega

/-! ### Turns -/

/-- The count goes on with another turn. -/
def Goes (stop step : Int64) (c c' : Counting) : Prop := c.turn stop step = .yield c'

/-- Finitely many turns lead to a last one, and to what it leaves. -/
inductive Ends (stop step : Int64) : Counting → Counting → Prop
  | last {c c' : Counting} : c.turn stop step = .done c' → Ends stop step c c'
  | next {c c' last : Counting} : Goes stop step c c' → Ends stop step c' last →
      Ends stop step c last

/-- The items are the first multiples, and the next number is the multiple that follows them, as an
integer of any size. -/
structure Stands (stop step : Int64) (c : Counting) : Prop where
  next : c.next.toInt = c.items.size * step.toInt
  items : c.items.toList = (multiples step c.items.size).map .int
  le : c.items.size ≤ size stop step

/-- The count starts with no items and with zero as the next number. -/
theorem stands_start : Stands stop step start where
  next := (zero_mul _).symm
  items := rfl
  le := Nat.zero_le _

namespace Stands

/-- The next number is below the bound exactly if a multiple is missing. -/
theorem next_lt_iff (hstep : 0 < step) (h : Stands stop step c) :
    c.next < stop ↔ c.items.size < size stop step := by
  rw [lt_size_iff hstep, ← h.next, Int64.lt_iff_toInt_lt]

/-- With one more item, the items are one multiple more. -/
theorem toList_push (h : Stands stop step c) :
    (c.items.push (.int c.next)).toList = (multiples step (c.items.size + 1)).map .int := by
  rw [Array.toList_push, h.items, multiples_succ, ← h.next, Int64.ofInt_toInt, List.map_append,
    List.map_singleton]

/-- **What a turn does.** Either it adds an item and the count goes on, or it is the last one and all
multiples are there. -/
theorem turn (hstep : 0 < step) (h : Stands stop step c) :
    (∃ c', c.turn stop step = .yield c' ∧ Stands stop step c' ∧
      c'.items.size = c.items.size + 1) ∨
    ∃ c', c.turn stop step = .done c' ∧
      c'.items.toList = (multiples step (size stop step)).map .int := by
  -- with one more item the product is the next number and the step
  have hsucc : ((c.items.size + 1 : ℕ) : ℤ) * step.toInt = c.next.toInt + step.toInt := by
    rw [h.next]
    push_cast
    ring
  unfold Counting.turn
  by_cases hlt : c.next < stop
  -- a multiple is missing, and it is the next number
  · have hsize := (h.next_lt_iff hstep).mp hlt
    rw [if_pos hlt]
    cases hsum : checkedAdd c.next step with
    | some next =>
      refine .inl ⟨_, rfl, ⟨?_, ?_, ?_⟩, Array.size_push _⟩
      · rw [Array.size_push, hsucc]
        exact checkedAdd_eq_some_iff.mp hsum
      · rw [Array.size_push]
        exact h.toList_push
      · rw [Array.size_push]
        exact hsize
    | none =>
      -- both summands are positive, so the sum is too large
      have hnonneg : 0 ≤ c.next.toInt := by
        rw [h.next]
        exact mul_nonneg (Int.natCast_nonneg _) (toInt_pos hstep).le
      have hpos := toInt_pos hstep
      have hout := checkedAdd_eq_none_iff.mp hsum
      have hlast := size_of_overflow hstep hsize (by rw [hsucc]; omega)
      refine .inr ⟨_, rfl, ?_⟩
      rw [← hlast]
      exact h.toList_push
  -- the bound has been reached, so nothing is missing
  · have hall : c.items.size = size stop step :=
      le_antisymm h.le (not_lt.mp fun hsize => hlt ((h.next_lt_iff hstep).mpr hsize))
    rw [if_neg hlt]
    refine .inr ⟨c, rfl, ?_⟩
    rw [← hall]
    exact h.items

/-- A count ends, and all multiples are there. The induction is on the number of those that are
missing. -/
theorem ends (hstep : 0 < step) (h : Stands stop step c) :
    Ends stop step c (c.finish stop step hstep) ∧
      (c.finish stop step hstep).items.toList =
        (multiples step (size stop step)).map .int := by
  induction hmissing : size stop step - c.items.size using Nat.strong_induction_on
    generalizing c with
  | h missing ih =>
    obtain ⟨c', hturn, hc', hsize⟩ | ⟨c', hturn, hitems⟩ := h.turn hstep
    -- an item more, so one less is missing
    · have hle := hc'.le
      obtain ⟨hends, hitems⟩ := ih _ (by omega) hc' rfl
      rw [finish_of_yield hstep hturn]
      exact ⟨.next hturn hends, hitems⟩
    · rw [finish_of_done hstep hturn]
      exact ⟨.last hturn, hitems⟩

/-- The count stands so before every turn. -/
theorem of_goes (hstep : 0 < step)
    (h : Relation.ReflTransGen (Goes stop step) start c) : Stands stop step c := by
  induction h with
  | refl => exact stands_start
  | tail _ hgoes ih =>
    -- the turn that was taken is the one that it has to be
    obtain ⟨c', hturn, hc', -⟩ | ⟨c', hturn, -⟩ := ih.turn hstep
    · obtain rfl := ForInStep.yield.inj (hgoes.symm.trans hturn)
      exact hc'
    · exact nomatch hgoes.symm.trans hturn

end Stands

/-! ### Whole counts -/

/-- **A whole count has all the multiples for items.** -/
theorem upTo_eq (hstep : 0 < step) (stop : Int64) :
    upTo stop step hstep = ((multiples step (size stop step)).map .int).toArray := by
  have hstart : Stands stop step start := stands_start
  rw [upTo, ← (hstart.ends hstep).2]

/-- **A count in steps lists the multiples below its bound.** Whatever the bound is, and whatever
positive integer the step is, the count has a last turn, and its items are integers:

* they are 0, the step, two times the step and so on, in increasing order;
* they are all the multiples of the step from zero up to the bound, without it, and nothing else;
* there are as many as the bound divided by the step, rounded up, and none if the bound is not
  positive.

Before every turn, the number that comes next is the product of the step and the number of items so
far, as an integer of any size. -/
theorem upTo_multiples (stop step : Int64) (hstep : 0 < step) :
    Ends stop step start (start.finish stop step hstep) ∧
    (∃ ks : List Int64, upTo stop step hstep = (ks.map Value.int).toArray ∧
      ks.map Int64.toInt = (List.range ks.length).map (fun j : ℕ => (j : ℤ) * step.toInt) ∧
      ks.Pairwise (· < ·) ∧
      (∀ n : ℤ, n ∈ ks.map Int64.toInt ↔ 0 ≤ n ∧ n < stop.toInt ∧ step.toInt ∣ n) ∧
      ks.length = if 0 < stop then ⌈(stop.toInt : ℚ) / step.toInt⌉₊ else 0) ∧
    ∀ c, Relation.ReflTransGen (Goes stop step) start c →
      c.next.toInt = c.items.size * step.toInt := by
  refine ⟨(stands_start.ends hstep).1, ⟨multiples step (size stop step), upTo_eq hstep stop, ?order,
    pairwise_multiples hstep, mem_multiples_iff hstep, ?count⟩,
    fun c h => (Stands.of_goes hstep h).next⟩
  case order => rw [length_multiples, toInt_multiples hstep]
  case count =>
    rw [length_multiples]
    split
    · rfl
    · next hstop => exact size_eq_zero hstep (Int64.not_lt.mp hstop)

/-- Next to the greatest integer: the sum after the second item leaves the 64 bits. -/
theorem upTo_multiples_atTop :
    (0 : Int64) < 4611686018427387904 ∧
      upTo Int64.maxValue 4611686018427387904 (by decide) =
        #[.int 0, .int 4611686018427387904] ∧
      checkedAdd 4611686018427387904 4611686018427387904 = none ∧
      (∃ last, Ends Int64.maxValue 4611686018427387904 start last) ∧
      ∀ c, Relation.ReflTransGen (Goes Int64.maxValue 4611686018427387904) start c →
        c.next.toInt = c.items.size * (4611686018427387904 : Int64).toInt := by
  have hstep : (0 : Int64) < 4611686018427387904 := by decide
  obtain ⟨hends, ⟨ks, hitems, hmultiples, -, -, hlength⟩, hexact⟩ :=
    upTo_multiples Int64.maxValue 4611686018427387904 hstep
  have htwo : ks.length = 2 := hlength.trans (by decide +kernel)
  obtain rfl : ks = [0, 4611686018427387904] := by
    refine List.map_injective_iff.mpr (fun _ _ => Int64.toInt_inj.mp) (hmultiples.trans ?_)
    rw [htwo]
    decide
  exact ⟨hstep, hitems, by decide, ⟨_, hends⟩, hexact⟩

/-- A step of zero repeats a number that is below the bound, and so has no last turn. -/
theorem not_ends_zero (hlt : c.next < stop) : ¬ Ends stop 0 c c' := by
  -- adding zero changes nothing, and never leaves the range
  have hsame (k : Int64) : checkedAdd k 0 = some k :=
    checkedAdd_eq_some_iff.mpr (add_zero _).symm
  intro h
  induction h with
  | last hturn =>
    rw [turn, if_pos hlt, hsame] at hturn
    exact nomatch hturn
  | next hgoes _ ih =>
    rw [Goes, turn, if_pos hlt, hsame] at hgoes
    exact ih (ForInStep.yield.inj hgoes ▸ hlt)

end Counting

/-! ### The function -/

/-- The arguments stand for a bound and a step, which is one if it is left out. -/
inductive RangeArgs : List Value → Int64 → Int64 → Prop
  | bound {a : Value} {stop : Int64} : a.asInt? = some stop → RangeArgs [a] stop 1
  | both {a b : Value} {stop step : Int64} :
      a.asInt? = some stop → b.asInt? = some step → RangeArgs [a, b] stop step

variable {E : Engine} {site : CallSite} {args : List Value} {stop step : Int64}

/-- The bound and the step are read first. -/
theorem range_eq (hstop : site.eitherIntArg args 0 = pure stop)
    (hstep : stepArg site args = pure step) : range site args = multiplesBelow site stop step := by
  rw [range, hstop, hstep]
  rfl

/-- So the function goes by the bound and the step. -/
theorem RangeArgs.run_eq (h : RangeArgs args stop step) :
    run E site args .range = multiplesBelow site stop step := by
  cases h with
  | bound ha => exact range_eq (CallSite.eitherIntArg_eq_pure rfl ha) rfl
  | both ha hb =>
    exact range_eq (CallSite.eitherIntArg_eq_pure rfl ha) (CallSite.eitherIntArg_eq_pure rfl hb)

/-- **What `range` answers to integers.** With a positive step it makes an array of the multiples
below the bound, also if the bound is not positive. Other steps are refused. -/
theorem run_range (h : RangeArgs args stop step) :
    run E site args .range =
      if 0 < step then
        newArrayOf ((Counting.multiples step (Counting.size stop step)).map .int)
      else site.general "second parameter of 'range' should be >0" := by
  rw [h.run_eq, multiplesBelow]
  by_cases hstep : 0 < step
  -- the step is positive, so the function counts
  · rw [dif_neg (Int64.not_le.mpr hstep), if_pos hstep]
    split
    · next hstop =>
      rw [Counting.size_eq_zero hstep hstop]
      rfl
    · rw [Counting.upTo_eq hstep]
      rfl
  · rw [dif_pos (Int64.not_lt.mp hstep), if_neg hstep]

end ScriptEngine.Builtin
