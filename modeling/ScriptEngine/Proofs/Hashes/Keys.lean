import ScriptEngine.Proofs.Equality.Operator
import ScriptEngine.Proofs.Hashes.Operations

/-!
# Keys and equality

Integers of both kinds, booleans and texts can be keys of hashes. Two of them address one entry just
if they are *alike*: of one kind, and equal (`Alike`, `alike_iff`). Equality alone is less, since `==`
crosses the kinds of integers: `5 == 5u` holds, but `5` and `5u` are different keys.

What is under a key is said without a look at the map (`Under`): every way to look there gives the
same answer. What is stored or deleted under one value is then found under another just if they are
alike, and what is not alike keeps its entry (`store_addresses_alike`).
-/

namespace ScriptEngine

/-- The value can be a key of hashes. -/
def Value.Hashable (v : Value) : Prop := (Key.ofValue? v).isSome

/-- The values are of one kind, and the program finds them equal. -/
structure Alike (s : State) (a b : Value) : Prop where
  kind : a.tag = b.tag
  equal : ∀ span, Operators.binary .equal a b span s = .done (.bool true) s

/-- However the program looks under a key of a hash, it finds `o`: by index, by member if the key is
a text, and by the methods `get`, `has` and `delete`. -/
structure Under (s : State) (r : Ref .hash) (key : Value) (o : Option Value) : Prop where
  index : ∀ E scope span, Access.getAt E scope (.hash r) key span s = .done (o.getD .nil) s
  member : ∀ E scope span name, key = .text name →
    Access.getMember E scope (.hash r) name span s = .done (o.getD .nil) s
  get : ∀ E scope span, Dispatch.invoke E scope (.hash r) "get" [key] span s = .done (o.getD .nil) s
  getOr : ∀ E scope span v,
    Dispatch.invoke E scope (.hash r) "get" [key, v] span s = .done (o.getD v) s
  has : ∀ E scope span,
    Dispatch.invoke E scope (.hash r) "has" [key] span s = .done (.bool o.isSome) s
  delete : ∀ E scope span, ∃ t,
    Dispatch.invoke E scope (.hash r) "delete" [key] span s = .done (o.getD .nil) t

/-- A value is stored under a key of a hash, by index, by member or by the method `set`. -/
inductive Stored (s : State) (r : Ref .hash) : Value → Value → State → Prop
  | index {E : Engine} {scope : Ref .scope} {span : Span} {key v : Value} {t : State} :
      Place.write E scope span v (.index (.hash r) key) s = .done () t → Stored s r key v t
  | member {E : Engine} {scope : Ref .scope} {span : Span} {name : String} {v : Value} {t : State} :
      Place.write E scope span v (.member (.hash r) name) s = .done () t →
      Stored s r (.text name) v t
  | set {E : Engine} {scope : Ref .scope} {span : Span} {key v w : Value} {t : State} :
      Dispatch.invoke E scope (.hash r) "set" [key, v] span s = .done w t → Stored s r key v t

section

variable {s t : State} {r : Ref .hash} {a b key v : Value} {j k : Key} {o o' : Option Value}

/-- A value that can be a key is the value of that key. -/
theorem Key.eq_toValue_of_ofValue? (h : ofValue? v = some k) : v = k.toValue := by
  unfold ofValue? at h
  -- four kinds of values can be keys, and each is its own key
  split at h
  · exact Option.some.inj h ▸ rfl
  · exact Option.some.inj h ▸ rfl
  · exact Option.some.inj h ▸ rfl
  · exact Option.some.inj h ▸ rfl
  · exact nomatch h

/-- Keys are plain values, which equality looks at alone. -/
theorem State.Plain.ofKey (s : State) (k : Key) : s.Plain k.toValue := by
  cases k with
  | int n => exact .int n
  | uint n => exact .uint n
  | bool b => exact .bool b
  | text x => exact .text x

/-- Within a kind there is nothing to promote, so that keys are equal only if they are one. -/
theorem equal_keys_iff (hkind : j.toValue.tag = k.toValue.tag) :
    s.equal j.toValue k.toValue = true ∨ SameBits j.toValue k.toValue ∨
      SameNumber j.toValue k.toValue ↔ j = k := by
  -- within a kind the two other ways to be equal are void
  have alone : ∀ p : Prop, p ∨ False ∨ False ↔ p := fun p => by rw [or_false, or_false]
  cases j with
  | int n =>
    cases k with
    | int m =>
      refine (alone _).trans ?_
      rw [Key.int.injEq]
      exact beq_iff_eq
    | _ => simp [Key.toValue, Value.tag] at hkind
  | uint n =>
    cases k with
    | uint m =>
      refine (alone _).trans ?_
      rw [Key.uint.injEq]
      exact beq_iff_eq
    | _ => simp [Key.toValue, Value.tag] at hkind
  | bool x =>
    cases k with
    | bool y =>
      refine (alone _).trans ?_
      rw [Key.bool.injEq]
      exact beq_iff_eq
    | _ => simp [Key.toValue, Value.tag] at hkind
  | text x =>
    cases k with
    | text y =>
      refine (alone _).trans ?_
      rw [Key.text.injEq]
      exact beq_iff_eq
    | _ => simp [Key.toValue, Value.tag] at hkind

/-- **Values that are alike stand for one key,** and others do not. -/
theorem alike_iff (ha : Key.ofValue? a = some j) (hb : Key.ofValue? b = some k) :
    Alike s a b ↔ j = k := by
  -- the values are their keys again
  obtain rfl := Key.eq_toValue_of_ofValue? ha
  obtain rfl := Key.eq_toValue_of_ofValue? hb
  constructor
  · intro h
    obtain ⟨answer, hanswer, -, htrue⟩ :=
      Operators.binary_equal (.ofKey s j) (.ofKey s k) .unknown
    -- the operator answers true, so the keys are one
    rw [h.equal] at hanswer
    cases hanswer
    exact (equal_keys_iff h.kind).mp (htrue.mp rfl)
  · rintro rfl
    refine ⟨rfl, fun span => ?_⟩
    obtain ⟨answer, hanswer, -, htrue⟩ := Operators.binary_equal (.ofKey s j) (.ofKey s j) span
    rw [hanswer, htrue.mpr ((equal_keys_iff rfl).mpr rfl)]

/-! ### Looking and storing -/

/-- **What is under a key is what the map has there,** in whatever way the program looks. -/
theorem under_of_key (h : Key.ofValue? key = some k) : Under s r key ((s.hash r).get? k) where
  index _ _ _ := Access.getAt_hash h
  member _ _ _ name hname := by
    -- a member of a hash is the entry under its name as a text
    rw [hname] at h
    rw [← Option.some.inj h]
    exact Access.getMember_hash
  get _ _ _ := Dispatch.invoke_get h
  getOr _ _ _ _ := Dispatch.invoke_get_default h
  has _ _ _ := Dispatch.invoke_has h
  delete _ _ _ := ⟨_, Dispatch.invoke_delete h⟩

/-- There is only one thing that is under a key. -/
theorem Under.unique (h : Under s r key o) (h' : Under s r key o') : o = o' := by
  -- `has` tells whether there is something, and `get` what it is
  have hhas : o.isSome = o'.isSome := by
    have heq := (h.has .idle State.root .unknown).symm.trans (h'.has .idle State.root .unknown)
    exact Value.bool.inj (Run.done.inj heq).1
  have hget : o.getD .nil = o'.getD .nil := by
    have heq := (h.get .idle State.root .unknown).symm.trans (h'.get .idle State.root .unknown)
    exact (Run.done.inj heq).1
  cases o with
  | none =>
    cases o' with
    | none => rfl
    | some w => exact nomatch hhas
  | some v =>
    cases o' with
    | none => exact nomatch hhas
    | some w => exact congrArg some hget

/-- So there is one answer, which is that of the map. -/
theorem under_iff (h : Key.ofValue? key = some k) : Under s r key o ↔ o = (s.hash r).get? k := by
  constructor
  · intro ho
    exact ho.unique (under_of_key h)
  · rintro rfl
    exact under_of_key h

/-- To store is to edit the map. -/
theorem Stored.eq_editHash (h : Stored s r key v t) (hkey : Key.ofValue? key = some k) :
    t = s.editHash r (·.insert k v) := by
  -- all three ways store by one edit of the map
  cases h with
  | index h => exact (Run.done.inj (h.symm.trans (Place.write_index_hash hkey))).2
  | member h =>
    obtain rfl := Option.some.inj hkey
    exact (Run.done.inj (h.symm.trans Place.write_member_hash)).2
  | set h => exact (Run.done.inj (h.symm.trans (Dispatch.invoke_set hkey))).2

/-! ### Keys that address one entry -/

/-- What is under a key after an edit. -/
theorem under_editHash (hr : (s.heap.hashes.get? r).isSome) (hb : Key.ofValue? b = some k)
    (f : Assoc Key Value → Assoc Key Value) :
    Under (s.editHash r f) r b o ↔ o = (f (s.hash r)).get? k := by
  rw [under_iff hb, State.hash_editHash_self hr]

/-- **Hashable values address one entry just if they are alike.** What is under one of two values that
are alike is under the other. What is stored under the one, in any way, is then found under the other,
in every way; after a deletion under the one there is nothing under the other. Under a value that is
not alike is what was there before. And no two of the keys of a hash are alike. -/
theorem store_addresses_alike (hr : (s.heap.hashes.get? r).isSome) (ha : a.Hashable)
    (hb : b.Hashable) :
    (∃ o, Under s r b o) ∧
    (Alike s a b → ∀ o, Under s r a o ↔ Under s r b o) ∧
    (∀ E scope span v, ∃ t w,
      Place.write E scope span v (.index (.hash r) a) s = .done () t ∧
      Dispatch.invoke E scope (.hash r) "set" [a, v] span s = .done w t) ∧
    (∀ v t, Stored s r a v t →
      (Alike s a b → Under t r b (some v)) ∧
      (¬ Alike s a b → ∀ o, Under s r b o → Under t r b o)) ∧
    (∀ E scope span w t, Dispatch.invoke E scope (.hash r) "delete" [a] span s = .done w t →
      (Alike s a b → Under t r b none) ∧
      (¬ Alike s a b → ∀ o, Under s r b o → Under t r b o)) ∧
    ∃ keys : List Value, keys.Pairwise (fun j k => ¬ Alike s j k) ∧
      ∀ E scope span, Dispatch.invoke E scope (.hash r) "keys" [] span s =
        Eval.newArrayOf keys s := by
  obtain ⟨j, hj⟩ := Option.isSome_iff_exists.mp ha
  obtain ⟨k, hk⟩ := Option.isSome_iff_exists.mp hb
  have hkeys : ((s.hash r).keys.map Key.toValue).Pairwise fun j k => ¬ Alike s j k := by
    rw [List.pairwise_map]
    -- the keys of a map are distinct
    refine (s.hash r).distinct.nodup.imp fun hne halike => hne ?_
    exact (alike_iff (Key.ofValue?_toValue _) (Key.ofValue?_toValue _)).mp halike
  refine ⟨⟨_, under_of_key hk⟩, ?_, ?_, ?_, ?_, _, hkeys, fun _ _ _ => Dispatch.invoke_keys⟩
  -- values that are alike stand for one key
  · intro halike o
    rw [under_iff hj, under_iff hk, (alike_iff hj hk).mp halike]
  · intro E scope span v
    exact ⟨_, _, Place.write_index_hash hj, Dispatch.invoke_set hj⟩
  · intro v t hstored
    rw [hstored.eq_editHash hj]
    refine ⟨fun halike => ?_, fun hnot o ho => ?_⟩
    -- the value is found where it has just been stored
    · rw [under_editHash hr hk, (alike_iff hj hk).mp halike, Assoc.get?_insert_self]
    · have hne : k ≠ j := fun h => hnot ((alike_iff hj hk).mpr h.symm)
      -- under another key nothing has changed
      rw [under_editHash hr hk, Assoc.get?_insert_of_ne _ hne]
      exact (under_iff hk).mp ho
  · intro E scope span w t hdelete
    obtain rfl := (Run.done.inj (hdelete.symm.trans (Dispatch.invoke_delete hj))).2
    refine ⟨fun halike => ?_, fun hnot o ho => ?_⟩
    · rw [under_editHash hr hk, (alike_iff hj hk).mp halike, Assoc.get?_erase,
        if_pos rfl]
    · have hne : k ≠ j := fun h => hnot ((alike_iff hj hk).mpr h.symm)
      rw [under_editHash hr hk, Assoc.get?_erase, if_neg hne]
      exact (under_iff hk).mp ho

end

/-- The state of a program that has made one hash. -/
def State.withHash (m : Assoc Key Value) : State :=
  { State.blank with heap := { Heap.empty with hashes := ⟨#[m]⟩ } }

/-- The hash `{"x": 1}`, in which `"x"` is looked for. -/
theorem store_addresses_alike_text :
    let s := State.withHash ⟨[(.text "x", .int 1)]⟩
    let r : Ref .hash := ⟨0⟩
    (s.heap.hashes.get? r).isSome ∧ (Value.text "x").Hashable ∧ Alike s (.text "x") (.text "x") ∧
    ∀ v t, Stored s r (.text "x") v t → Under t r (.text "x") (some v) := by
  intro s r
  have hr : (s.heap.hashes.get? r).isSome := rfl
  have halike : Alike s (.text "x") (.text "x") := ⟨rfl, fun _ => rfl⟩
  obtain ⟨-, -, -, hstore, -⟩ :=
    store_addresses_alike (s := s) (r := r) (a := .text "x") (b := .text "x") hr rfl rfl
  exact ⟨hr, rfl, halike, fun v t h => (hstore v t h).1 halike⟩

/-- `5 == 5u` holds, by the operator and as equality of values. Yet what is stored under `5` is not
found under `5u`, and a hash can have both of them for keys. -/
theorem equal_values_apart :
    let s := State.withHash .empty
    let t := State.withHash ⟨[(.int 5, .text "a")]⟩
    let r : Ref .hash := ⟨0⟩
    (∀ span, Operators.binary .equal (.int 5) (.uint 5) span t = .done (.bool true) t) ∧
    t.equal (.int 5) (.uint 5) = true ∧
    Stored s r (.int 5) (.text "a") t ∧
    Under t r (.int 5) (some (.text "a")) ∧ Under t r (.uint 5) none ∧
    ∃ u, Stored t r (.uint 5) (.text "b") u ∧
      (u.hash r).keys.map Key.toValue = [.int 5, .uint 5] := by
  intro s t r
  have hstore : Stored s r (.int 5) (.text "a") t :=
    @Stored.index s r .idle State.root .unknown _ _ _ rfl
  have hint : Under t r (.int 5) (some (.text "a")) := (under_iff rfl).mpr rfl
  have huint : Under t r (.uint 5) none := (under_iff rfl).mpr rfl
  exact ⟨fun _ => rfl, rfl, hstore, hint, huint, _,
    @Stored.index t r .idle State.root .unknown _ _ _ rfl, rfl⟩

end ScriptEngine
