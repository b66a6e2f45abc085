import ScriptEngine.Proofs.Equality.Itself
import ScriptEngine.Proofs.Equality.Operator

/-!
# Indices and slices of sequences

Arrays, tuples and texts are sequences (`State.Sequence`); a text is one of its characters. An index
means a place in a sequence, and so does each bound of a slice: a number from zero on counts from the
front, a negative one from the end (`Access.place`). An item is found where the place is among those of
the items, and a slice where its bounds are in order and not beyond the ends; anything else is refused.

So a sequence that is cut in two and joined again has the same items. Whether the operator `==` finds
it equal to the one it was made of is another matter, since not every item equals itself
(`State.EqualsItself`).
-/

namespace ScriptEngine

open Eval

/-! ### Sequences -/

/-- A sequence and its items: those of an array or a tuple, and the characters of a text. -/
inductive State.Sequence (s : State) : Value → List Value → Prop
  | array {r : Ref .array} {xs : List Value} :
      s.heap.arrays.get? r = some xs.toArray → Sequence s (.array r) xs
  | tuple {r : Ref .tuple} {xs : List Value} :
      s.heap.tuples.get? r = some xs.toArray → Sequence s (.tuple r) xs
  | text (t : String) : Sequence s (.text t) (Method.singles t)

/-- Nothing has changed but that arrays and tuples may have been added. -/
structure State.Adds (s t : State) : Prop where
  same : ∃ arrays tuples, t = { s with heap := { s.heap with arrays, tuples } }
  arrays : ∀ {r items}, s.heap.arrays.get? r = some items → t.heap.arrays.get? r = some items
  tuples : ∀ {r items}, s.heap.tuples.get? r = some items → t.heap.tuples.get? r = some items

/-- `w` is a new sequence of the kind of `v` with the items `xs`. -/
structure State.Made (s : State) (v : Value) (xs : List Value) (w : Value) (t : State) :
    Prop where
  adds : s.Adds t
  sequence : t.Sequence w xs
  tag_eq : w.tag = v.tag
  fresh : ∀ r, w = .array r → s.heap.arrays.get? r = none

section

variable {s t u : State} {v w : Value} {xs ys : List Value}

/-- Nothing has been added. -/
theorem State.Adds.refl (s : State) : s.Adds s := ⟨⟨s.heap.arrays, s.heap.tuples, rfl⟩, id, id⟩

/-- What is added twice is added. -/
theorem State.Adds.trans (h : s.Adds t) (h' : t.Adds u) : s.Adds u := by
  obtain ⟨_, _, rfl⟩ := h.same
  obtain ⟨arrays, tuples, rfl⟩ := h'.same
  exact ⟨⟨arrays, tuples, rfl⟩, fun hr => h'.arrays (h.arrays hr), fun hr => h'.tuples (h.tuples hr)⟩

/-- Names mean what they meant. -/
theorem State.Adds.scopes_eq (h : s.Adds t) : t.scopes = s.scopes := by
  obtain ⟨_, _, rfl⟩ := h.same
  rfl

/-- A sequence has its items still when others have been added. -/
theorem State.Sequence.of_adds (h : s.Sequence v xs) (hst : s.Adds t) : t.Sequence v xs := by
  cases h with
  | array hr => exact .array (hst.arrays hr)
  | tuple hr => exact .tuple (hst.tuples hr)
  | text t => exact .text t

/-- What is made after something was added is new to what was there before. -/
theorem State.Made.of_adds (hst : s.Adds t) (h : t.Made v xs w u) : s.Made v xs w u := by
  refine ⟨hst.trans h.adds, h.sequence, h.tag_eq, fun r hw => ?_⟩
  -- had the new array been there before, it would be there when it was made
  cases hr : s.heap.arrays.get? r with
  | none => rfl
  | some items => exact absurd (hst.arrays hr) (h.fresh r hw ▸ nofun)

/-- Sequences are no faults, so each of them is an operand. -/
theorem State.Sequence.operand_eq (h : u.Sequence v xs) {E : Engine} {scope : Ref .scope}
    {e : Expr} (he : E.expr scope e s = .done v t) : E.operand scope e s = .done v t := by
  refine (bind_of_done he _).trans ?_
  cases h <;> rfl

/-- Sequences are no numbers. -/
theorem State.Sequence.promote_eq (h : s.Sequence v xs) (w : Value) :
    Arithmetic.promote v w = .ok none := by
  refine Arithmetic.promote_eq_none (.inl ?_)
  cases h <;> rfl

/-! A sequence of the kind of an array is an array, and so on. -/

/-- An array. -/
theorem State.Sequence.of_tag_array (h : s.Sequence v xs) (htag : v.tag = "ARRAY") :
    ∃ r, v = .array r ∧ s.heap.arrays.get? r = some xs.toArray := by
  cases h with
  | array hr => exact ⟨_, rfl, hr⟩
  | tuple _ | text _ => exact absurd htag (by simp [Value.tag])

/-- A tuple. -/
theorem State.Sequence.of_tag_tuple (h : s.Sequence v xs) (htag : v.tag = "TUPLE") :
    ∃ r, v = .tuple r ∧ s.heap.tuples.get? r = some xs.toArray := by
  cases h with
  | tuple hr => exact ⟨_, rfl, hr⟩
  | array _ | text _ => exact absurd htag (by simp [Value.tag])

/-- A text. -/
theorem State.Sequence.of_tag_text (h : s.Sequence v xs) (htag : v.tag = "STRING") :
    ∃ t, v = .text t ∧ xs = Method.singles t := by
  cases h with
  | text t => exact ⟨t, rfl, rfl⟩
  | array _ | tuple _ => exact absurd htag (by simp [Value.tag])

/-! ### Making sequences -/

/-- A new array is behind those that were there. -/
theorem newArray_made (xs : List Value) (s : State) (r : Ref .array) :
    ∃ w t, newArray xs.toArray s = .done w t ∧ s.Made (.array r) xs w t := by
  refine ⟨_, _, rfl, ⟨⟨_, _, rfl⟩, fun hr => Table.get?_add_of_some _ _ hr, id⟩,
    .array (Table.get?_add_self _ _), rfl, ?_⟩
  rintro _ ⟨⟩
  exact Array.getElem?_eq_none le_rfl

/-- A new tuple is behind those that were there. -/
theorem newTuple_made (xs : List Value) (s : State) (r : Ref .tuple) :
    ∃ w t, newTuple xs.toArray s = .done w t ∧ s.Made (.tuple r) xs w t :=
  ⟨_, _, rfl, ⟨⟨_, _, rfl⟩, id, fun hr => Table.get?_add_of_some _ _ hr⟩,
    .tuple (Table.get?_add_self _ _), rfl, nofun⟩

/-- A text is made without a place in the heap. -/
theorem text_made (t : String) (s : State) (old : String) :
    s.Made (.text old) (Method.singles t) (.text t) s :=
  ⟨.refl s, .text t, rfl, nofun⟩

/-- Characters that are joined are a text again. -/
theorem Access.joinedText_singles (cs : List Char) :
    joinedText (cs.map fun c => Value.text c.toString).toArray = String.ofList cs := by
  -- the texts are appended to what has been joined so far, so the induction is over any such prefix
  have hfold : ∀ acc : String,
      cs.foldl (fun acc c => acc ++ c.toString) acc = acc ++ String.ofList cs := by
    induction cs with
    | nil => simp
    | cons c cs ih =>
      intro acc
      rw [List.foldl_cons, ih, String.append_assoc]
      congr 1
      apply String.ext
      simp
  rw [joinedText, List.foldl_toArray, List.foldl_map]
  exact (hfold "").trans String.empty_append

end

/-! ### Places -/

namespace Access

/-- The place among `n` items that a number stands for. -/
def place (n : ℕ) (k : ℤ) : ℤ := if k < 0 then n + k else k

/-- A number from zero on counts from the front. -/
theorem place_of_nonneg {n : ℕ} {k : ℤ} (h : 0 ≤ k) : place n k = k := if_neg (not_lt.mpr h)

/-- The place where a slice starts. -/
def first (n : ℕ) (start : Option Int64) : ℤ := place n ((start.map Int64.toInt).getD 0)

/-- The place up to which a slice goes. -/
def last (n : ℕ) (stop : Option Int64) : ℤ := place n ((stop.map Int64.toInt).getD n)

/-- The position of an item is its place, if there is an item. -/
theorem position?_eq (i : Int64) (n : ℕ) :
    position? i n =
      if 0 ≤ place n i.toInt ∧ place n i.toInt < n then some (place n i.toInt).toNat else none := by
  have hneg : i < 0 ↔ i.toInt < 0 := Int64.lt_iff_toInt_lt
  unfold position? place
  simp only [hneg]

/-- The bounds of a slice are in order and within the ends. -/
def Sliceable (n : ℕ) (start stop : Option Int64) : Prop :=
  0 ≤ first n start ∧ first n start ≤ last n stop ∧ last n stop ≤ n

/-- Bounds that are in order are places. -/
theorem sliceBounds?_of_sliceable {n : ℕ} {start stop : Option Int64}
    (h : Sliceable n start stop) :
    sliceBounds? start stop n = some ((first n start).toNat, (last n stop).toNat) := if_pos h

/-- Bounds that are not in order are refused. -/
theorem sliceBounds?_of_not_sliceable {n : ℕ} {start stop : Option Int64}
    (h : ¬ Sliceable n start stop) : sliceBounds? start stop n = none := if_neg h

/-! ### Reading an item -/

section

variable {E : Engine} {scope : Ref .scope} {s : State} {v index : Value} {xs : List Value}
  {i : Int64}

/-- An item of an array is looked up at its position. -/
theorem itemAt_eq (hi : index.asInt? = some i) (items : Array Value) (span : Span) :
    itemAt items index span =
      ofOption ((position? i items.size).bind (items[·]?)) (.indexRange i.toInt) span := by
  unfold itemAt integerIndex
  rw [hi]
  rfl

/-- An index is looked up among the items. -/
theorem getAt_eq (h : s.Sequence v xs) (hi : index.asInt? = some i) (span : Span) :
    getAt E scope v index span s =
      ofOption ((position? i xs.length).bind (xs[·]?)) (.indexRange i.toInt) span s := by
  have hitems : itemAt xs.toArray index span s =
      ofOption ((position? i xs.length).bind (xs[·]?)) (.indexRange i.toInt) span s := by
    rw [itemAt_eq hi, List.size_toArray]
    simp only [List.getElem?_toArray]
  cases h with
  | array hr =>
    rw [getAt, arrayItems, gets_bind_apply, hr]
    exact hitems
  | tuple hr =>
    rw [getAt, tupleItems, gets_bind_apply, hr]
    exact hitems
  | text t => exact hitems

/-- An index that means the place of an item gives the item. -/
theorem getAt_of_inside (h : s.Sequence v xs) (hi : index.asInt? = some i)
    (hplace : 0 ≤ place xs.length i.toInt ∧ place xs.length i.toInt < xs.length) (span : Span) :
    ∃ x, xs[(place xs.length i.toInt).toNat]? = some x ∧
      getAt E scope v index span s = .done x s := by
  have hlt : (place xs.length i.toInt).toNat < xs.length := by omega
  refine ⟨_, List.getElem?_eq_getElem hlt, ?_⟩
  rw [getAt_eq h hi, position?_eq, if_pos hplace, Option.bind_some, List.getElem?_eq_getElem hlt]
  rfl

/-- Every other index is refused. -/
theorem getAt_of_outside (h : s.Sequence v xs) (hi : index.asInt? = some i)
    (hplace : ¬ (0 ≤ place xs.length i.toInt ∧ place xs.length i.toInt < xs.length))
    (span : Span) : (getAt E scope v index span s).Refused "INDEX_ERROR" span s := by
  rw [getAt_eq h hi, position?_eq, if_neg hplace]
  exact ⟨_, rfl, rfl⟩

end

/-! ### Reading a slice -/

section

variable {E : Engine} {scope : Ref .scope} {s : State} {v : Value} {xs : List Value}
  {start stop : Option Int64}

/-- The slice of a value between bounds that have been evaluated. -/
def sliceAt (v : Value) (start stop : Option Int64) (span : Span) : Eval Value :=
  match v with
  | .array r => do newArray (← sliceOf (← arrayItems r) start stop span)
  | .tuple r => do newTuple (← sliceOf (← tupleItems r) start stop span)
  | .text s => do
    return .text (joinedText (← sliceOf (Method.singles s).toArray start stop span))
  | other => notIndexable other span

/-- A slice is evaluated from its operand to its bounds, and cut then. -/
theorem slice_eq (object : Expr) (start stop : Option Expr) (span : Span) :
    slice E scope object start stop span =
      E.operand scope object >>= fun v => sliceBound E scope start >>= fun a =>
        sliceBound E scope stop >>= fun b => sliceAt v a b span := rfl

/-- What the items between two bounds are made into. -/
def sliceLike (v : Value) (items : Array Value) : Eval Value :=
  match v with
  | .array _ => newArray items
  | .tuple _ => newTuple items
  | _ => return .text (joinedText items)

/-- A slice is made of the items between its bounds. -/
theorem sliceAt_eq (h : s.Sequence v xs) (start stop : Option Int64) (span : Span) :
    sliceAt v start stop span s =
      (sliceOf xs.toArray start stop span >>= sliceLike v) s := by
  cases h with
  | array hr =>
    rw [sliceAt, arrayItems, gets_bind_apply, hr]
    rfl
  | tuple hr =>
    rw [sliceAt, tupleItems, gets_bind_apply, hr]
    rfl
  | text t => rfl

/-- What is cut out of a sequence is a new one of its kind. -/
theorem sliceLike_made (h : s.Sequence v xs) (p q : ℕ) :
    ∃ w t, sliceLike v (xs.toArray.extract p q) s = .done w t ∧
      s.Made v (xs.extract p q) w t := by
  rw [List.extract_toArray]
  cases h with
  | array hr => exact newArray_made _ s _
  | tuple hr => exact newTuple_made _ s _
  -- a text is made of the characters between the bounds, which are joined
  | text t =>
    have hsingles : (Method.singles t).extract p q =
        (t.toList.extract p q).map fun c => Value.text c.toString := by
      simp [Method.singles]
    have hback : Method.singles (String.ofList (t.toList.extract p q)) =
        (Method.singles t).extract p q := by
      rw [hsingles, Method.singles, String.toList_ofList]
    refine ⟨_, s, rfl, ?_⟩
    rw [hsingles, joinedText_singles, ← hsingles, ← hback]
    exact text_made _ s t

/-- A slice with bounds in order has the items between them. -/
theorem sliceAt_of_inside (h : s.Sequence v xs) (hbounds : Sliceable xs.length start stop)
    (span : Span) :
    ∃ w t, sliceAt v start stop span s = .done w t ∧
      s.Made v (xs.extract (first xs.length start).toNat (last xs.length stop).toNat) w t := by
  obtain ⟨w, t, hmake, hmade⟩ := sliceLike_made h (first xs.length start).toNat
    (last xs.length stop).toNat
  refine ⟨w, t, ?_, hmade⟩
  rw [sliceAt_eq h, sliceOf, List.size_toArray, sliceBounds?_of_sliceable hbounds]
  exact hmake

/-- Every other slice is refused. -/
theorem sliceAt_of_outside (h : s.Sequence v xs) (hbounds : ¬ Sliceable xs.length start stop)
    (span : Span) : (sliceAt v start stop span s).Refused "SLICE_ERROR" span s := by
  rw [sliceAt_eq h, sliceOf, List.size_toArray, sliceBounds?_of_not_sliceable hbounds]
  exact ⟨_, rfl, rfl⟩

end

end Access

/-! ### Joining and comparing -/

namespace Operators

variable {s : State} {v w : Value} {xs ys : List Value}

/-- Two sequences of one kind are joined to one with the items of both. -/
theorem binary_add_made (hv : s.Sequence v xs) (hw : s.Sequence w ys) (htag : w.tag = v.tag)
    (span : Span) :
    ∃ u t, binary .add v w span s = .done u t ∧ s.Made v (xs ++ ys) u t := by
  -- no sequence is a number, so the operator is looked up by the kinds
  have hothers : binary .add v w span s = onOthers .add v w span s := by
    rw [binary, hv.promote_eq w]
    rfl
  rw [hothers]
  cases hv with
  | array hr =>
    obtain ⟨q, rfl, hq⟩ := hw.of_tag_array htag
    rw [onOthers, arrayItems, arrayItems, gets_bind_apply, gets_bind_apply, hr, hq,
      Option.getD_some, Option.getD_some, List.append_toArray]
    exact newArray_made _ s _
  | tuple hr =>
    obtain ⟨q, rfl, hq⟩ := hw.of_tag_tuple htag
    rw [onOthers, tupleItems, tupleItems, gets_bind_apply, gets_bind_apply, hr, hq,
      Option.getD_some, Option.getD_some, List.append_toArray]
    exact newTuple_made _ s _
  | text a =>
    obtain ⟨b, rfl, rfl⟩ := hw.of_tag_text htag
    have hsingles : Method.singles (a ++ b) = Method.singles a ++ Method.singles b := by
      rw [Method.singles, String.toList_append, List.map_append]
      rfl
    exact ⟨_, s, rfl, hsingles ▸ text_made (a ++ b) s a⟩

/-- A text is its characters. -/
theorem singles_inj {a b : String} (h : Method.singles a = Method.singles b) : a = b := by
  have hinj : Function.Injective fun c : Char => Value.text c.toString := by
    intro c d hcd
    have hlist := congrArg String.toList (Value.text.inj hcd)
    simpa using hlist
  exact String.toList_inj.mp (List.map_injective_iff.mpr hinj h)

/-- Two sequences with the same items are equal just if each item equals itself. -/
theorem binary_equal_copy (hv : s.Sequence v xs) (hw : s.Sequence w xs) (htag : w.tag = v.tag)
    (hnew : ∀ r, w = .array r → w ≠ v) (span : Span) :
    ∃ answer, binary .equal w v span s = .done (.bool answer) s ∧
      (answer = true ↔ ∀ x ∈ xs, s.EqualsItself x) := by
  refine ⟨_, (binary_equal_of_none (hw.promote_eq v) span s).1, ?_⟩
  cases hv with
  | @array r _ hr =>
    obtain ⟨q, rfl, hq⟩ := hw.of_tag_array htag
    have hne : q ≠ r := fun h => hnew q rfl (congrArg Value.array h)
    exact State.equal_copy_of_array hne hq hr
  | tuple hr =>
    obtain ⟨q, rfl, hq⟩ := hw.of_tag_tuple htag
    exact State.equal_copy_of_tuple hq hr
  | text t =>
    obtain ⟨u, rfl, hsingles⟩ := hw.of_tag_text htag
    obtain rfl := singles_inj hsingles
    -- texts with the same characters are the same, and a character equals itself
    refine iff_of_true (State.equal_self_iff.mpr (.other nofun nofun)) fun x hx => ?_
    obtain ⟨c, -, rfl⟩ := List.mem_map.mp hx
    exact .other nofun nofun

end Operators

/-! ### Expressions -/

namespace Expr

/-- The expression has the value `v` at whatever level it is evaluated, and as long as sequences are
added only. -/
def Steady (scope : Ref .scope) (e : Expr) (s : State) (v : Value) : Prop :=
  ∀ n t, s.Adds t → (Engine.level (n + 1)).operand scope e t = .done v t

/-- The bound of a slice is left out, or a steady integer. -/
inductive SteadyBound (scope : Ref .scope) (s : State) : Option Expr → Option Int64 → Prop
  | omitted : SteadyBound scope s none none
  | given {e : Expr} {v : Value} {k : Int64} :
      e.Steady scope s v → v.asInt? = some k → SteadyBound scope s (some e) (some k)

section

variable {scope : Ref .scope} {s t : State} {e : Expr} {v : Value} {xs : List Value}

theorem Steady.of_adds (h : e.Steady scope s v) (hst : s.Adds t) : e.Steady scope t v :=
  fun n _ htu => h n _ (hst.trans htu)

/-- A name that is bound to a sequence is steady. -/
theorem steady_name {x : String} (hname : s.scopes.get? scope x = some v) (h : s.Sequence v xs)
    (span : Span) : (Expr.mk (.name x) span).Steady scope s v := by
  intro n t hst
  refine (h.of_adds hst).operand_eq (?_ : Access.lookup scope x span t = .done v t)
  rw [Access.lookup, gets_bind_apply, hst.scopes_eq, hname]
  rfl

/-- A number in a program is steady. -/
theorem steady_int (k : Int64) (span : Span) :
    (Expr.mk (.int k) span).Steady scope s (.int k) := fun _ _ _ => rfl

/-- A steady bound has its number, whatever has been added. -/
theorem sliceBound_of_steady {bound : Option Expr} {k : Option Int64}
    (h : SteadyBound scope s bound k) (hst : s.Adds t) (n : ℕ) :
    Access.sliceBound (.level (n + 1)) scope bound t = .done k t := by
  cases h with
  | omitted => rfl
  | given he hk =>
    rw [Access.sliceBound, bind_of_done (he n t hst)]
    unfold Access.integerIndex
    rw [hk]
    rfl

/-- An index is evaluated from its operands. -/
theorem eval_index {index : Expr} {k : Value} (he : e.Steady scope s v)
    (hindex : index.Steady scope s k) (span : Span) (n : ℕ) :
    eval (.level (n + 1)) scope (.mk (.index e index) span) s =
      Access.getAt (.level (n + 1)) scope v k span s := by
  have heval : eval (.level (n + 1)) scope (.mk (.index e index) span) =
      (Engine.level (n + 1)).operand scope e >>= fun c =>
        (Engine.level (n + 1)).operand scope index >>= fun i =>
          Access.getAt (.level (n + 1)) scope c i span := rfl
  rw [heval, bind_of_done (he n s (.refl s)), bind_of_done (hindex n s (.refl s))]

/-- A slice is evaluated from its operand and its bounds. -/
theorem eval_slice {start stop : Option Expr} {a b : Option Int64} (he : e.Steady scope s v)
    (hstart : SteadyBound scope s start a) (hstop : SteadyBound scope s stop b) (hst : s.Adds t)
    (span : Span) (n : ℕ) :
    eval (.level (n + 1)) scope (.mk (.slice e start stop) span) t =
      Access.sliceAt v a b span t := by
  have heval : eval (.level (n + 1)) scope (.mk (.slice e start stop) span) =
      Access.slice (.level (n + 1)) scope e start stop span := rfl
  rw [heval, Access.slice_eq, bind_of_done (he n t hst),
    bind_of_done (sliceBound_of_steady hstart hst n),
    bind_of_done (sliceBound_of_steady hstop hst n)]

/-- The expression `e[:k] + e[k:]`. -/
def split (e k : Expr) (front back span : Span) : Expr :=
  .mk (.binary .add (.mk (.slice e none (some k)) front) (.mk (.slice e (some k) none) back)) span

/-- Part of a sequence up to a place, and the rest of it, make a sequence with the same items. -/
theorem eval_split {k : Expr} {c : Value} {i : Int64} (he : e.Steady scope s v)
    (h : s.Sequence v xs) (hk : k.Steady scope s c) (hi : c.asInt? = some i)
    (hplace : 0 ≤ i.toInt ∧ i.toInt ≤ xs.length) (front back span : Span) (n : ℕ) :
    ∃ w t, eval (.level (n + 2)) scope (split e k front back span) s = .done w t ∧
      s.Made v xs w t := by
  have hplace' : Access.place xs.length i.toInt = i.toInt := Access.place_of_nonneg hplace.1
  have hfirst : Access.first xs.length (some i) = i.toInt := hplace'
  have hlast : Access.last xs.length (some i) = i.toInt := hplace'
  have hzero : Access.first xs.length none = 0 := Access.place_of_nonneg le_rfl
  have hlength : Access.last xs.length none = xs.length :=
    Access.place_of_nonneg (Int.natCast_nonneg _)
  -- the two slices, one after the other
  have hfront : Access.Sliceable xs.length none (some i) := by
    rw [Access.Sliceable, hzero, hlast]
    exact ⟨le_rfl, hplace⟩
  have hback : Access.Sliceable xs.length (some i) none := by
    rw [Access.Sliceable, hlength, hfirst]
    exact ⟨hplace.1, hplace.2, le_rfl⟩
  obtain ⟨a, t, ha, hamade⟩ := Access.sliceAt_of_inside h hfront front
  -- the second slice is cut when the first one is there already, which has only added to the heap
  have hst := hamade.adds
  obtain ⟨b, u, hb, hbmade⟩ := Access.sliceAt_of_inside (h.of_adds hst) hback back
  have htu := hbmade.adds
  have hleft : (Engine.level (n + 2)).operand scope (.mk (.slice e none (some k)) front) s =
      .done a t := by
    refine hamade.sequence.operand_eq ?_
    exact (eval_slice he .omitted (.given hk hi) (.refl s) front n).trans ha
  have hright : (Engine.level (n + 2)).operand scope (.mk (.slice e (some k) none) back) t =
      .done b u := by
    refine hbmade.sequence.operand_eq ?_
    exact (eval_slice he (.given hk hi) .omitted hst back n).trans hb
  -- joined they are the items of the sequence
  obtain ⟨w, z, hw, hwmade⟩ := Operators.binary_add_made (hamade.sequence.of_adds htu)
    hbmade.sequence (hbmade.tag_eq.trans hamade.tag_eq.symm) span
  have hitems : xs.extract (Access.first xs.length none).toNat
        (Access.last xs.length (some i)).toNat ++
      xs.extract (Access.first xs.length (some i)).toNat
        (Access.last xs.length none).toNat = xs := by
    -- the first slice begins at zero, the second one ends at the length
    rw [hzero, hlast, hfirst, hlength]
    simp [List.take_of_length_le]
  rw [hitems] at hwmade
  have heval : eval (.level (n + 2)) scope (split e k front back span) =
      (Engine.level (n + 2)).operand scope (.mk (.slice e none (some k)) front) >>= fun a =>
        (Engine.level (n + 2)).operand scope (.mk (.slice e (some k) none) back) >>= fun b =>
          Operators.binary .add a b span := rfl
  refine ⟨w, z, ?_, ?_⟩
  · rw [heval, bind_of_done hleft, bind_of_done hright, hw]
  · have hmade := State.Made.of_adds (hst.trans htu) hwmade
    exact ⟨hmade.adds, hmade.sequence, hmade.tag_eq.trans hamade.tag_eq, hmade.fresh⟩

/-- The slice from the place of an item to the next has that item alone. -/
theorem eval_slice_next {start stop : Option Expr} {a b : Int64} {x : Value} {place : ℤ}
    (he : e.Steady scope s v) (h : s.Sequence v xs) (hplace : 0 ≤ place ∧ place < xs.length)
    (hx : xs[place.toNat]? = some x) (hstart : SteadyBound scope s start (some a))
    (hstop : SteadyBound scope s stop (some b)) (ha : a.toInt = place) (hb : b.toInt = place + 1)
    (span : Span) (n : ℕ) :
    ∃ w t, eval (.level (n + 1)) scope (.mk (.slice e start stop) span) s = .done w t ∧
      s.Made v [x] w t := by
  have hfirst : Access.first xs.length (some a) = place :=
    (Access.place_of_nonneg (by rw [Option.map_some, Option.getD_some]; omega)).trans ha
  have hlast : Access.last xs.length (some b) = place + 1 :=
    (Access.place_of_nonneg (by rw [Option.map_some, Option.getD_some]; omega)).trans hb
  have hbounds : Access.Sliceable xs.length (some a) (some b) := by
    rw [Access.Sliceable, hfirst, hlast]
    omega
  obtain ⟨w, t, hslice, hmade⟩ := Access.sliceAt_of_inside h hbounds span
  have hone : xs.extract place.toNat (place + 1).toNat = [x] := by
    have hnext := Int.toNat_add_nat hplace.1 1
    rw [Nat.cast_one] at hnext
    rw [hnext, List.extract_eq_take_drop, Nat.add_sub_cancel_left, List.take_one,
      List.head?_drop, hx, Option.toList_some]
  rw [hfirst, hlast, hone] at hmade
  exact ⟨w, t, (eval_slice he hstart hstop (.refl s) span n).trans hslice, hmade⟩

/-- What a sequence is cut into and joined from compares equal to it just if its items do. -/
theorem eval_split_equal {k : Expr} {c : Value} {i : Int64} (he : e.Steady scope s v)
    (h : s.Sequence v xs) (hk : k.Steady scope s c) (hi : c.asInt? = some i)
    (hplace : 0 ≤ i.toInt ∧ i.toInt ≤ xs.length) (front back join span : Span) (n : ℕ) :
    ∃ w t answer, eval (.level (n + 2)) scope (split e k front back join) s = .done w t ∧
      s.Made v xs w t ∧
      eval (.level (n + 3)) scope (.mk (.binary .equal (split e k front back join) e) span) s =
        .done (.bool answer) t ∧
      (answer = true ↔ ∀ x ∈ xs, t.EqualsItself x) := by
  obtain ⟨w, t, hsplit, hmade⟩ := eval_split he h hk hi hplace front back join n
  -- the joined array is new, so it is not the one that was cut
  have hnew : ∀ r, w = .array r → w ≠ v := by
    rintro r rfl rfl
    obtain ⟨q, hq, hsome⟩ := h.of_tag_array rfl
    rw [← Value.array.inj hq, hmade.fresh r rfl] at hsome
    exact nomatch hsome
  obtain ⟨answer, hequal, hiff⟩ := Operators.binary_equal_copy (h.of_adds hmade.adds)
    hmade.sequence hmade.tag_eq hnew span
  refine ⟨w, t, answer, hsplit, hmade, ?_, hiff⟩
  exact eval_binary_equal (.inl rfl) (hmade.sequence.operand_eq hsplit)
    (he (n + 2) t hmade.adds) hequal

/-- **Indices and slices agree.** Let `e` have a sequence `v` of `n` items for its value. An index `i`
gives the item at the place it means if there is one, which is then all there is in the slice from that
place to the next, and is refused with `INDEX_ERROR` otherwise. A slice gives a new sequence of the
same kind with the items between the places of its bounds if these are in order and within the ends,
and is refused with `SLICE_ERROR` otherwise. For a place `k` among the items or at their end,
`e[:k] + e[k:]` gives a new sequence with the items of `v`; it compares equal to `e` just if each of
the items equals itself. -/
theorem eval_sequence (he : e.Steady scope s v) (h : s.Sequence v xs) (span : Span) (n : ℕ) :
    (∀ {index : Expr} {c : Value} {i : Int64}, index.Steady scope s c → c.asInt? = some i →
      let place := Access.place xs.length i.toInt
      (0 ≤ place ∧ place < xs.length → ∃ x, xs[place.toNat]? = some x ∧
        eval (.level (n + 1)) scope (.mk (.index e index) span) s = .done x s ∧
        ∀ {start stop : Option Expr} {a b : Int64}, SteadyBound scope s start (some a) →
          SteadyBound scope s stop (some b) → a.toInt = place → b.toInt = place + 1 →
          ∃ w t, eval (.level (n + 1)) scope (.mk (.slice e start stop) span) s = .done w t ∧
            s.Made v [x] w t) ∧
      (¬ (0 ≤ place ∧ place < xs.length) →
        (eval (.level (n + 1)) scope (.mk (.index e index) span) s).Refused
          "INDEX_ERROR" span s)) ∧
    (∀ {start stop : Option Expr} {a b : Option Int64}, SteadyBound scope s start a →
      SteadyBound scope s stop b →
      let first := Access.place xs.length ((a.map Int64.toInt).getD 0)
      let last := Access.place xs.length ((b.map Int64.toInt).getD xs.length)
      (0 ≤ first ∧ first ≤ last ∧ last ≤ xs.length → ∃ w t,
        eval (.level (n + 1)) scope (.mk (.slice e start stop) span) s = .done w t ∧
          s.Made v (xs.extract first.toNat last.toNat) w t) ∧
      (¬ (0 ≤ first ∧ first ≤ last ∧ last ≤ xs.length) →
        (eval (.level (n + 1)) scope (.mk (.slice e start stop) span) s).Refused
          "SLICE_ERROR" span s)) ∧
    ∀ {k : Expr} {c : Value} {i : Int64} (front back join : Span), k.Steady scope s c →
      c.asInt? = some i → 0 ≤ i.toInt ∧ i.toInt ≤ xs.length →
      ∃ w t answer, eval (.level (n + 2)) scope (split e k front back join) s = .done w t ∧
        s.Made v xs w t ∧
        eval (.level (n + 3)) scope (.mk (.binary .equal (split e k front back join) e) span) s =
          .done (.bool answer) t ∧
        (answer = true ↔ ∀ x ∈ xs, t.EqualsItself x) := by
  refine ⟨fun {index c i} hindex hi => ⟨fun hplace => ?_, fun hplace => ?_⟩,
    fun {start stop a b} hstart hstop => ⟨fun hbounds => ?_, fun hbounds => ?_⟩,
    fun {k c i} front back join hk hi hplace => ?_⟩
  -- the five parts: an item, no item, a slice, no slice, and the two halves joined
  · obtain ⟨x, hx, hget⟩ := Access.getAt_of_inside h hi hplace span
    exact ⟨x, hx, (eval_index he hindex span n).trans hget, fun hstart hstop ha hb =>
      eval_slice_next he h hplace hx hstart hstop ha hb span n⟩
  · rw [eval_index he hindex]
    exact Access.getAt_of_outside h hi hplace span
  · obtain ⟨w, t, hslice, hmade⟩ := Access.sliceAt_of_inside h hbounds span
    exact ⟨w, t, (eval_slice he hstart hstop (.refl s) span n).trans hslice, hmade⟩
  · rw [eval_slice he hstart hstop (.refl s)]
    exact Access.sliceAt_of_outside h hbounds span
  · exact eval_split_equal he h hk hi hplace front back join span n

/-- A state in which the name stands for an array of these items. -/
def binding (x : String) (items : List Value) : State :=
  { State.blank with
    heap := { Heap.empty with arrays := ⟨#[items.toArray]⟩ }
    scopes := ⟨#[(Scope.fresh none 0 none).bind x (.array ⟨0⟩)]⟩ }

/-- The last item of `[1, 2]`, and the two cut in the middle and joined again. -/
theorem eval_sequence_pair :
    ∃ s : State, s.Sequence (.array ⟨0⟩) [.int 1, .int 2] ∧
      (Expr.mk (.name "x") .unknown).Steady State.root s (.array ⟨0⟩) ∧
      eval (.level 1) State.root
        (.mk (.index (.mk (.name "x") .unknown) (.mk (.int (-1)) .unknown)) .unknown) s =
        .done (.int 2) s ∧
      ∃ w t, eval (.level 2) State.root
        (split (.mk (.name "x") .unknown) (.mk (.int 1) .unknown) .unknown .unknown .unknown) s =
          .done w t ∧ t.Sequence w [.int 1, .int 2] := by
  have h : (binding "x" [.int 1, .int 2]).Sequence (.array ⟨0⟩) [.int 1, .int 2] := .array rfl
  have he : (Expr.mk (.name "x") .unknown).Steady State.root _ (.array ⟨0⟩) :=
    steady_name rfl h .unknown
  obtain ⟨hindex, -, hsplit⟩ := eval_sequence he h .unknown 0
  obtain ⟨x, hx, heval, -⟩ := (hindex (steady_int (-1) .unknown) rfl).1 (by decide)
  obtain ⟨w, t, -, hjoin, hmade, -⟩ := hsplit .unknown .unknown .unknown
    (steady_int 1 .unknown) rfl (by decide)
  obtain rfl : x = .int 2 := Option.some.inj hx.symm
  exact ⟨_, h, he, heval, w, t, hjoin, hmade.sequence⟩

/-- A float that is not a number. -/
def notANumber : Float := Float.ofBits 0x7ff8000000000000

/-- Cut at the front and joined again, an array of a float that is not a number does not compare equal
to itself. -/
theorem eval_split_notANumber :
    ∃ (s t : State) (w : Value), s.Sequence (.array ⟨0⟩) [.float notANumber] ∧
      (Expr.mk (.name "x") .unknown).Steady State.root s (.array ⟨0⟩) ∧
      eval (.level 2) State.root
        (split (.mk (.name "x") .unknown) (.mk (.int 0) .unknown) .unknown .unknown .unknown) s =
          .done w t ∧
      eval (.level 3) State.root (.mk (.binary .equal
        (split (.mk (.name "x") .unknown) (.mk (.int 0) .unknown) .unknown .unknown .unknown)
        (.mk (.name "x") .unknown)) .unknown) s = .done (.bool false) t := by
  have h : (binding "x" [.float notANumber]).Sequence (.array ⟨0⟩) [.float notANumber] := .array rfl
  exact ⟨_, _, _, h, steady_name rfl h .unknown, rfl, rfl⟩

end

end Expr

end ScriptEngine
