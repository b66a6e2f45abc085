import ScriptEngine.Machine.Inspect
import ScriptEngine.Proofs.Decimal.Value
import ScriptEngine.Proofs.Equality.Nesting

/-!
# Equality of what is in containers

`State.equal` goes through containers to a depth that the size of the heap bounds. For a value that
is not nested more deeply than that one step more makes no difference
(`State.equalWithin_succ_of_nested`). A value that is built from nil, booleans, integers, decimals,
texts and containers (`State.Plain`) is nowhere inside itself, so it is such a value. Equality of
containers is then that of what is in them, without a depth (`State.equal_array`,
`State.equal_tuple`, `State.equal_hash`).
-/

namespace ScriptEngine.State

variable {s : State}

/-! ### Plain values -/

/-- The container `v` holds just the values `ws`. -/
inductive Holds (s : State) : Value → List Value → Prop
  | array {r : Ref .array} {items : Array Value} :
      s.heap.arrays.get? r = some items → Holds s (.array r) items.toList
  | tuple {r : Ref .tuple} {items : Array Value} :
      s.heap.tuples.get? r = some items → Holds s (.tuple r) items.toList
  | hash {r : Ref .hash} {m : Assoc Key Value} :
      s.heap.hashes.get? r = some m → Holds s (.hash r) m.values

/-- Values that are built from nil, booleans, integers, decimals and texts by arrays, tuples and
hashes. -/
inductive Plain (s : State) : Value → Prop
  | nil : Plain s .nil
  | bool (b : Bool) : Plain s (.bool b)
  | int (n : Int64) : Plain s (.int n)
  | uint (n : UInt64) : Plain s (.uint n)
  | decimal (d : Decimal) : Plain s (.decimal d)
  | text (t : String) : Plain s (.text t)
  | container {v : Value} {ws : List Value} :
      s.Holds v ws → (∀ w ∈ ws, Plain s w) → Plain s v

theorem Holds.contents_eq {v : Value} {ws : List Value} (h : s.Holds v ws) : s.contents v = ws := by
  cases h with
  | array h => rw [contents, h, Option.getD_some]
  | tuple h => rw [contents, h, Option.getD_some]
  | hash h => rw [contents, h, Option.getD_some]

theorem Nested.of_holds {n : ℕ} {v : Value} {ws : List Value} (h : s.Nested (n + 1) v)
    (hv : s.Holds v ws) : ∀ w ∈ ws, s.Nested n w := by
  rw [← hv.contents_eq]
  exact h

/-- Nothing goes down for ever in a plain value. -/
theorem Plain.acc {v : Value} (h : s.Plain v) : Acc s.HeldBy v := by
  -- by induction on how the value is built, with containers as the one case that goes down
  induction h with
  | container hv _ ih =>
    refine Acc.intro _ fun w hw => ?_
    rw [HeldBy, hv.contents_eq] at hw
    exact ih w hw
  | _ => exact Acc.intro _ fun _ hw => absurd hw List.not_mem_nil

/-! ### The depth is enough -/

section

variable {eq eq' : Value → Value → Bool}

theorem allEqual_congr {xs : List Value} (h : ∀ x ∈ xs, ∀ y, eq x y = eq' x y) (ys : List Value) :
    allEqual eq xs ys = allEqual eq' xs ys := by
  induction xs generalizing ys with
  | nil => cases ys <;> rfl
  | cons x xs ih =>
    cases ys with
    | nil => rfl
    | cons y ys =>
      obtain ⟨hx, hxs⟩ := List.forall_mem_cons.mp h
      -- the first items are compared in the same way, and so are the rest
      rw [allEqual, allEqual, hx, ih hxs]

/-- Whether there is something equal under every key of `m`. -/
def allFound (eq : Value → Value → Bool) (m n : Assoc Key Value) : Bool :=
  m.entries.all fun e =>
    match n.get? e.1 with
    | some w => eq e.2 w
    | none => false

theorem allFound_congr {m : Assoc Key Value} (h : ∀ x ∈ m.values, ∀ y, eq x y = eq' x y)
    (n : Assoc Key Value) : allFound eq m n = allFound eq' m n := by
  unfold allFound
  rw [Bool.eq_iff_iff, List.all_eq_true, List.all_eq_true]
  refine forall₂_congr fun e he => ?_
  cases n.get? e.1 with
  | none => rfl
  | some w =>
    dsimp only
    rw [h e.2 (List.mem_map_of_mem he)]

end

/-! One step down into a container. -/

theorem equalWithin_array {r q : Ref .array} (fuel : ℕ) :
    s.equalWithin (fuel + 1) (.array r) (.array q) =
      (r == q || allEqual (s.equalWithin fuel) (s.contents (.array r)) (s.contents (.array q))) :=
  rfl

theorem equalWithin_tuple {r q : Ref .tuple} (fuel : ℕ) :
    s.equalWithin (fuel + 1) (.tuple r) (.tuple q) =
      allEqual (s.equalWithin fuel) (s.contents (.tuple r)) (s.contents (.tuple q)) :=
  rfl

theorem equalWithin_list {r q : Ref .list} (fuel : ℕ) :
    s.equalWithin (fuel + 1) (.list r) (.list q) =
      (r == q || allEqual (s.equalWithin fuel) (s.contents (.list r)) (s.contents (.list q))) :=
  rfl

theorem equalWithin_hash {r q : Ref .hash} (fuel : ℕ) :
    s.equalWithin (fuel + 1) (.hash r) (.hash q) =
      (r == q || (((s.heap.hashes.get? r).getD .empty).size ==
          ((s.heap.hashes.get? q).getD .empty).size &&
        allFound (s.equalWithin fuel) ((s.heap.hashes.get? r).getD .empty)
          ((s.heap.hashes.get? q).getD .empty))) :=
  rfl

/-- Equality of containers depends on that of what they hold. -/
theorem equalWithin_congr {v : Value} {f g : ℕ}
    (h : ∀ w ∈ s.contents v, ∀ x, s.equalWithin f w x = s.equalWithin g w x) (x : Value) :
    s.equalWithin (f + 1) v x = s.equalWithin (g + 1) v x := by
  cases v with
  | array r =>
    cases x with
    | array q => rw [equalWithin_array, equalWithin_array, allEqual_congr h]
    | _ => rfl
  | tuple r =>
    cases x with
    | tuple q => rw [equalWithin_tuple, equalWithin_tuple, allEqual_congr h]
    | _ => rfl
  | list r =>
    cases x with
    | list q => rw [equalWithin_list, equalWithin_list, allEqual_congr h]
    | _ => rfl
  | hash r =>
    cases x with
    | hash q => rw [equalWithin_hash, equalWithin_hash,
        allFound_congr (m := (s.heap.hashes.get? r).getD .empty) h]
    | _ => rfl
  -- the others are compared without going down
  | _ => cases x <;> rfl

/-- One step more than there are levels in a value makes no difference to what it is equal to. -/
theorem equalWithin_succ_of_nested {v : Value} {n : ℕ} (hv : s.Nested n v) (x : Value) :
    s.equalWithin (n + 1) v x = s.equalWithin n v x := by
  -- by induction on the depth, one container at a time
  induction n generalizing v x with
  | zero => exact hv.elim
  | succ n ih => exact equalWithin_congr (fun w hw x => ih (hv w hw) x) x

/-- What is in a container of plain values is compared as if it was not in there. -/
theorem equalWithin_eq_equal {v : Value} {ws : List Value} (hv : s.Holds v ws)
    (hws : ∀ w ∈ ws, s.Plain w) {fuel : ℕ} (hfuel : fuel + 1 = s.heap.depth) :
    ∀ w ∈ ws, ∀ x, s.equalWithin fuel w x = s.equal w x := by
  intro w hw x
  -- a container of plain values is not nested more deeply than the heap allows
  have hnested := nested_depth (Plain.container hv hws).acc
  rw [← hfuel] at hnested
  rw [equal, ← hfuel]
  exact (equalWithin_succ_of_nested (hnested w (hv.contents_eq ▸ hw)) x).symm

/-! ### Equality without a depth -/

/-- Arrays are equal if they are one or their items are equal. -/
theorem equal_array {r q : Ref .array} {items items' : Array Value}
    (hr : s.heap.arrays.get? r = some items) (hq : s.heap.arrays.get? q = some items')
    (hitems : ∀ v ∈ items.toList, s.Plain v) :
    s.equal (.array r) (.array q) =
      (r == q || allEqual s.equal items.toList items'.toList) := by
  obtain ⟨fuel, hfuel⟩ : ∃ fuel, fuel + 1 = s.heap.depth := ⟨_, rfl⟩
  rw [equal, ← hfuel, equalWithin_array, (Holds.array hr).contents_eq, (Holds.array hq).contents_eq,
    allEqual_congr (equalWithin_eq_equal (.array hr) hitems hfuel)]

/-- Tuples are equal if their items are. -/
theorem equal_tuple {r q : Ref .tuple} {items items' : Array Value}
    (hr : s.heap.tuples.get? r = some items) (hq : s.heap.tuples.get? q = some items')
    (hitems : ∀ v ∈ items.toList, s.Plain v) :
    s.equal (.tuple r) (.tuple q) = allEqual s.equal items.toList items'.toList := by
  obtain ⟨fuel, hfuel⟩ : ∃ fuel, fuel + 1 = s.heap.depth := ⟨_, rfl⟩
  rw [equal, ← hfuel, equalWithin_tuple, (Holds.tuple hr).contents_eq, (Holds.tuple hq).contents_eq,
    allEqual_congr (equalWithin_eq_equal (.tuple hr) hitems hfuel)]

/-- Hashes are equal if they are one, or have as many entries and equal ones under each key. -/
theorem equal_hash {r q : Ref .hash} {m n : Assoc Key Value}
    (hr : s.heap.hashes.get? r = some m) (hq : s.heap.hashes.get? q = some n)
    (hvalues : ∀ v ∈ m.values, s.Plain v) :
    s.equal (.hash r) (.hash q) = (r == q || (m.size == n.size && allFound s.equal m n)) := by
  obtain ⟨fuel, hfuel⟩ : ∃ fuel, fuel + 1 = s.heap.depth := ⟨_, rfl⟩
  rw [equal, ← hfuel, equalWithin_hash, hr, hq, Option.getD_some, Option.getD_some,
    allFound_congr (equalWithin_eq_equal (.hash hr) hvalues hfuel)]

theorem allEqual_self {eq : Value → Value → Bool} {xs : List Value}
    (h : ∀ x ∈ xs, eq x x = true) : allEqual eq xs xs = true := by
  induction xs with
  | nil => rfl
  | cons x xs ih =>
    obtain ⟨hx, hxs⟩ := List.forall_mem_cons.mp h
    rw [allEqual, hx, ih hxs]
    rfl

/-- A plain value is equal to itself. -/
theorem Plain.equal_self {v : Value} (h : s.Plain v) : s.equal v v = true := by
  induction h with
  | nil => rfl
  | bool b => exact beq_self_eq_true b
  | int n => exact beq_self_eq_true n
  | uint n => exact beq_self_eq_true n
  | decimal d => exact (Decimal.beq_iff_toRat_eq d d).mpr rfl
  | text t => exact beq_self_eq_true t
  -- a container is equal to itself as its items are, by induction
  | container hv hws ih =>
    cases hv with
    | array hr =>
      rw [equal_array hr hr hws, BEq.rfl]
      rfl
    | tuple hr => rw [equal_tuple hr hr hws, allEqual_self ih]
    | hash hr =>
      rw [equal_hash hr hr hws, BEq.rfl]
      rfl

end ScriptEngine.State
