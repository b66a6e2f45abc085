import ScriptEngine.Proofs.Equality.Contents

/-!
# What equals itself

Equality of values is not reflexive, for a float that is not a number differs from itself. It matters
where such a float is an item of a tuple: an array, a list or a hash is compared by identity first, so
each of them equals itself whatever it holds, but a tuple is compared by its items alone.
`State.equal_self_iff` says which values equal themselves. The comparison goes down through tuples only,
so the number of tuples bounds how deep it can go.
-/

namespace ScriptEngine.State

variable {s : State}

/-- The values that equal themselves: all but floats that are not numbers, and tuples down in which
there is one. -/
inductive EqualsItself (s : State) : Value → Prop
  | float {x : Float} : (x == x) = true → EqualsItself s (.float x)
  | tuple {r : Ref .tuple} :
      (∀ v ∈ s.contents (.tuple r), EqualsItself s v) → EqualsItself s (.tuple r)
  | other {v : Value} : (∀ x, v ≠ .float x) → (∀ r, v ≠ .tuple r) → EqualsItself s v

/-- `w` is an item of the tuple `v`. -/
def ItemOfTuple (s : State) (w v : Value) : Prop := ∃ r, v = .tuple r ∧ w ∈ s.contents v

theorem index_lt_of_mem_tuple {r : Ref .tuple} {v : Value} (h : v ∈ s.contents (.tuple r)) :
    r.index < s.heap.tuples.size := by
  by_contra hlt
  have hnone : s.heap.tuples.get? r = none := Array.getElem?_eq_none (Nat.not_lt.mp hlt)
  rw [contents, hnone] at h
  exact absurd h List.not_mem_nil

/-- Nothing goes down for ever in tuples that equal themselves. -/
theorem EqualsItself.acc {v : Value} (h : s.EqualsItself v) : Acc s.ItemOfTuple v := by
  induction h with
  | float _ => exact Acc.intro _ fun _ ⟨_, hr, _⟩ => nomatch hr
  | tuple _ ih => exact Acc.intro _ fun w ⟨_, _, hw⟩ => ih w hw
  | other _ htuple => exact Acc.intro _ fun _ ⟨r, hr, _⟩ => absurd hr (htuple r)

theorem allEqual_self_iff {eq : Value → Value → Bool} {xs : List Value} :
    allEqual eq xs xs = true ↔ ∀ x ∈ xs, eq x x = true := by
  refine ⟨fun h => ?_, allEqual_self⟩
  induction xs with
  | nil => exact List.forall_mem_nil _
  | cons x xs ih =>
    obtain ⟨hx, hxs⟩ := (Bool.and_eq_true _ _).mp h
    exact List.forall_mem_cons.mpr ⟨hx, ih hxs⟩

/-- Whatever is neither a float nor a tuple equals itself: it is compared as a plain value or by
identity first. -/
theorem equalWithin_self_of_other {v : Value} (hfloat : ∀ x, v ≠ .float x)
    (htuple : ∀ r, v ≠ .tuple r) (fuel : ℕ) : s.equalWithin (fuel + 1) v v = true := by
  cases v with
  | float x => exact absurd rfl (hfloat x)
  | tuple r => exact absurd rfl (htuple r)
  | decimal d => exact (Decimal.beq_iff_toRat_eq d d).mpr rfl
  | time t =>
    have hsame : t.same t = true := by simp [Calendar.Moment.same, Calendar.Moment.cmp]
    exact hsame
  | _ => simp [equalWithin, Value.isCallable, Value.tag]

theorem EqualsItself.of_equalWithin {fuel : ℕ} {v : Value}
    (h : s.equalWithin fuel v v = true) : s.EqualsItself v := by
  induction fuel generalizing v with
  | zero =>
    cases v with
    | float x => exact .float h
    | tuple r => exact nomatch h
    | _ => exact .other nofun nofun
  | succ fuel ih =>
    cases v with
    | float x => exact .float h
    | tuple r =>
      rw [equalWithin_tuple, allEqual_self_iff] at h
      exact .tuple fun w hw => ih (h w hw)
    | _ => exact .other nofun nofun

/-- One level for each tuple is enough, and one for what is in the last of them. -/
theorem equalWithin_self_iff {n : ℕ} (hn : s.heap.tuples.size ≤ n) {v : Value} :
    s.equalWithin (n + 1) v v = true ↔ s.EqualsItself v := by
  refine ⟨.of_equalWithin, fun h => ?_⟩
  have hdown : s.EqualsItself v → s.equalWithin
      (((List.range n).map fun i => Value.tuple ⟨i⟩).length + 1) v v = true := by
    refine of_inside (P := fun fuel v => s.EqualsItself v → s.equalWithin fuel v v = true)
      ?_ h.acc ?_
    · intro fuel v hitems hv
      cases hv with
      | float hx => exact hx
      | @tuple r hws =>
        rw [equalWithin_tuple]
        exact allEqual_self fun w hw => hitems w ⟨r, rfl, hw⟩ (hws w hw)
      | other hfloat htuple => exact equalWithin_self_of_other hfloat htuple fuel
    · rintro _ w - ⟨r, rfl, hw⟩
      have hlt := index_lt_of_mem_tuple hw
      exact List.mem_map.mpr ⟨r.index, List.mem_range.mpr (hlt.trans_le hn), rfl⟩
  rw [List.length_map, List.length_range] at hdown
  exact hdown h

/-- A value equals itself unless it is a float that is not a number, or a tuple down in which there is
one. -/
theorem equal_self_iff {v : Value} : s.equal v v = true ↔ s.EqualsItself v := by
  have hn : s.heap.tuples.size ≤ s.heap.arrays.size + s.heap.tuples.size + s.heap.hashes.size +
      s.heap.lists.size + s.heap.objects.size := by omega
  exact equalWithin_self_iff hn

/-- Two arrays with the same items are equal just if each item equals itself. -/
theorem equal_copy_of_array {r q : Ref .array} {items : Array Value} (hne : r ≠ q)
    (hr : s.heap.arrays.get? r = some items) (hq : s.heap.arrays.get? q = some items) :
    s.equal (.array r) (.array q) = true ↔ ∀ v ∈ items.toList, s.EqualsItself v := by
  -- one level goes to the arrays, which are two things that are not tuples
  have hlt : r.index < s.heap.arrays.size := (Array.getElem?_eq_some_iff.mp hr).1
  obtain ⟨fuel, hfuel⟩ : ∃ fuel, s.heap.depth = fuel + 1 + 1 ∧ s.heap.tuples.size ≤ fuel := by
    refine ⟨s.heap.depth - 2, ?_⟩
    unfold Heap.depth
    omega
  have hr' : s.contents (.array r) = items.toList := by rw [contents, hr, Option.getD_some]
  have hq' : s.contents (.array q) = items.toList := by rw [contents, hq, Option.getD_some]
  rw [equal, hfuel.1, equalWithin_array, hr', hq', beq_false_of_ne hne, Bool.false_or,
    allEqual_self_iff]
  exact forall₂_congr fun v _ => equalWithin_self_iff hfuel.2

/-- Two tuples with the same items are equal just if each item equals itself. -/
theorem equal_copy_of_tuple {r q : Ref .tuple} {items : Array Value}
    (hr : s.heap.tuples.get? r = some items) (hq : s.heap.tuples.get? q = some items) :
    s.equal (.tuple r) (.tuple q) = true ↔ ∀ v ∈ items.toList, s.EqualsItself v := by
  have hr' : s.contents (.tuple r) = items.toList := by rw [contents, hr, Option.getD_some]
  have hq' : s.contents (.tuple q) = items.toList := by rw [contents, hq, Option.getD_some]
  -- the other tuple might as well be the same one
  have hsame : s.equal (.tuple r) (.tuple q) = s.equal (.tuple r) (.tuple r) := by
    obtain ⟨fuel, hfuel⟩ : ∃ fuel, s.heap.depth = fuel + 1 := ⟨_, rfl⟩
    rw [equal, equal, hfuel, equalWithin_tuple, equalWithin_tuple, hr', hq']
  rw [hsame, equal_self_iff]
  constructor
  · rintro (_ | h | ⟨-, h⟩)
    · rwa [hr'] at h
    · exact absurd rfl (h r)
  · exact fun h => .tuple (by rwa [hr'])

end ScriptEngine.State
