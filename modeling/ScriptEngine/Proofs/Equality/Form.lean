import Mathlib.Data.List.Forall2
import Mathlib.Data.List.Perm.Basic
import Mathlib.Data.List.Nodup
import ScriptEngine.Proofs.Equality.Operator

/-!
# Equality is an equivalence

Equality looks into hashes from one side: there are as many entries on the other, and each entry is
found there. It is symmetric and transitive since it is equality of something else, the form of a
value (`State.form`): integers become numbers, decimals rationals, and a hash the function from its
keys to the forms of its values. As no key is in a hash twice, a hash whose entries are all found in
another of its size is the same function (`allFound_iff`).

Floats have no part in this: a double need not be equal to itself, and many integers are equal to
one double.
-/

namespace ScriptEngine.State

variable {s : State}

/-- Nowhere in the value is a float, and nothing goes down in it for ever. -/
inductive FloatFree (s : State) : Value → Prop
  | intro {v : Value} : (∀ x, v ≠ .float x) → (∀ w ∈ s.contents v, FloatFree s w) → FloatFree s v

/-- A value without floats is none. -/
theorem FloatFree.ne_float {v : Value} (h : s.FloatFree v) (x : Float) : v ≠ .float x := by
  cases h with
  | intro hv _ => exact hv x

/-- Nor are there floats in what is in it. -/
theorem FloatFree.contents {v : Value} (h : s.FloatFree v) : ∀ w ∈ s.contents v, s.FloatFree w := by
  cases h with
  | intro _ hcontents => exact hcontents

/-- A value without floats does not go down for ever. -/
theorem FloatFree.acc {v : Value} (h : s.FloatFree v) : Acc s.HeldBy v := by
  induction h with
  | intro _ _ ih => exact Acc.intro _ ih

/-- A value that nothing is in, and that is no float. -/
theorem FloatFree.of_contents_nil {v : Value} (hcontents : s.contents v = [])
    (hv : ∀ x, v ≠ .float x) : s.FloatFree v := by
  refine .intro hv ?_
  rw [hcontents]
  exact fun _ hw => absurd hw List.not_mem_nil

/-- A container of values without floats. -/
theorem FloatFree.of_holds {v : Value} {ws : List Value} (hv : s.Holds v ws)
    (hws : ∀ w ∈ ws, s.FloatFree w) : s.FloatFree v := by
  refine .intro (fun x => ?_) (hv.contents_eq ▸ hws)
  cases hv <;> nofun

/-! ### The form of a value -/

/-- What a value is, up to equality. -/
inductive Form where
  | itself (v : Value)
  | number (n : ℤ)
  | decimal (q : ℚ)
  | instant (seconds : ℤ) (nanos : ℕ)
  | builtin (name : String)
  | array (items : List Form)
  | tuple (items : List Form)
  | list (items : List Form)
  | hash (entries : Key → Option Form)

/-- Forms of different kinds differ. -/
def Form.kind : Form → ℕ
  | number _ => 0
  | decimal _ => 1
  | instant _ _ => 2
  | builtin _ => 3
  | array _ => 4
  | tuple _ => 5
  | list _ => 6
  | hash _ => 7
  | itself v => 8 + v.ctorIdx

/-- The form of a value, at most `n` levels down. -/
def formWithin (s : State) : ℕ → Value → Form
  | _ + 1, .int n => .number n.toInt
  | _ + 1, .uint n => .number n.toNat
  | _ + 1, .decimal d => .decimal d.toRat
  | _ + 1, .time t => .instant t.seconds t.nanos
  | _ + 1, .native f => .builtin (s.callableName (.native f))
  | _ + 1, .bound r => .builtin (s.callableName (.bound r))
  | n + 1, .array r => .array ((s.contents (.array r)).map (s.formWithin n))
  | n + 1, .tuple r => .tuple ((s.contents (.tuple r)).map (s.formWithin n))
  | n + 1, .list r => .list ((s.contents (.list r)).map (s.formWithin n))
  | n + 1, .hash r =>
    .hash fun k => (((s.heap.hashes.get? r).getD .empty).get? k).map (s.formWithin n)
  | _, v => .itself v

/-- The form of a value. -/
def form (s : State) (v : Value) : Form := s.formWithin s.heap.depth v

section

variable {eq : Value → Value → Bool} {f : Value → Form}

/-- Items are equal one by one just if they have the same forms, where equality of each two is that
of their forms. -/
theorem allEqual_iff {xs ys : List Value} (h : ∀ x ∈ xs, ∀ y ∈ ys, eq x y = true ↔ f x = f y) :
    allEqual eq xs ys = true ↔ xs.map f = ys.map f := by
  induction xs generalizing ys with
  | nil => cases ys <;> simp [allEqual]
  | cons x xs ih =>
    cases ys with
    | nil => simp [allEqual]
    | cons y ys =>
      have hxy := h x List.mem_cons_self y List.mem_cons_self
      have hrest := ih fun x hx y hy => h x (List.mem_cons_of_mem _ hx) y (List.mem_cons_of_mem _ hy)
      rw [allEqual, Bool.and_eq_true, hxy, hrest, List.map_cons, List.map_cons, List.cons.injEq]

/-- Two hashes of one size, of which the one is all found in the other, have the same keys. -/
theorem isSome_get?_eq {m n : Assoc Key Value} (hsize : m.size = n.size)
    (hfound : ∀ k ∈ m.keys, k ∈ n.keys) (k : Key) : (m.get? k).isSome = (n.get? k).isSome := by
  have hlength : n.keys.length ≤ m.keys.length := by
    calc n.keys.length = n.size := List.length_map _
      _ = m.size := hsize.symm
      _ ≤ m.keys.length := (List.length_map _).ge
  -- no key is in a hash twice, so keys that are all found in as few are the same keys
  have hperm : m.keys.Perm n.keys :=
    (m.distinct.nodup.subperm hfound).perm_of_length_le hlength
  rw [Bool.eq_iff_iff, Assoc.isSome_get?_iff, Assoc.isSome_get?_iff, hperm.mem_iff]

/-- All entries of a hash are found in another of its size if both are one function. -/
theorem allFound_iff {m n : Assoc Key Value}
    (h : ∀ v ∈ m.values, ∀ w ∈ n.values, eq v w = true ↔ f v = f w) :
    (m.size = n.size ∧ allFound eq m n = true) ↔
      (fun k => (m.get? k).map f) = fun k => (n.get? k).map f := by
  -- what is found under a key is one of the values, which `h` speaks of
  have value : ∀ {m : Assoc Key Value} {k : Key} {v : Value}, m.get? k = some v → v ∈ m.values :=
    fun hv => List.mem_map_of_mem (f := (·.2)) ((Assoc.get?_eq_some_iff _).mp hv)
  constructor
  · rintro ⟨hsize, hall⟩
    have hfound : ∀ k v, m.get? k = some v → ∃ w, n.get? k = some w ∧ eq v w = true := by
      intro k v hv
      have hentry := List.all_eq_true.mp hall (k, v) ((Assoc.get?_eq_some_iff m).mp hv)
      dsimp only at hentry
      split at hentry
      · next w hw => exact ⟨w, hw, hentry⟩
      · exact absurd hentry Bool.false_ne_true
    have hkeys : ∀ k ∈ m.keys, k ∈ n.keys := by
      intro k hk
      obtain ⟨v, hv⟩ := Option.isSome_iff_exists.mp ((Assoc.isSome_get?_iff m).mpr hk)
      obtain ⟨w, hw, -⟩ := hfound k v hv
      exact (Assoc.isSome_get?_iff n).mp (Option.isSome_of_eq_some hw)
    -- a key of neither hash has no form in either; a key of the one has one in the other
    funext k
    cases hm : m.get? k with
    | none =>
      have hnone := isSome_get?_eq hsize hkeys k
      rw [hm, Option.isSome_none, eq_comm, Option.isSome_eq_false_iff, Option.isNone_iff_eq_none]
        at hnone
      rw [hnone]
    | some v =>
      obtain ⟨w, hw, hvw⟩ := hfound k v hm
      rw [hw, Option.map_some, Option.map_some, (h v (value hm) w (value hw)).mp hvw]
  · intro hforms
    have hforms : ∀ k, (m.get? k).map f = (n.get? k).map f := congrFun hforms
    have hsome : ∀ k, k ∈ m.keys ↔ k ∈ n.keys := by
      intro k
      rw [← Assoc.isSome_get?_iff, ← Assoc.isSome_get?_iff, ← Option.isSome_map (f := f), hforms k,
        Option.isSome_map]
    have hperm : m.keys.Perm n.keys :=
      (List.perm_ext_iff_of_nodup m.distinct.nodup n.distinct.nodup).mpr hsome
    -- the two hashes have the same keys, and as many, and what is found under a key has the same
    -- form
    refine ⟨?_, List.all_eq_true.mpr fun e he => ?_⟩
    · calc m.size = m.keys.length := (List.length_map _).symm
        _ = n.keys.length := hperm.length_eq
        _ = n.size := List.length_map _
    · have hv : m.get? e.1 = some e.2 := (Assoc.get?_eq_some_iff m).mpr he
      have hform := hforms e.1
      rw [hv, Option.map_some, eq_comm, Option.map_eq_some_iff] at hform
      obtain ⟨w, hw, hvw⟩ := hform
      rw [hw]
      exact (h e.2 (value hv) w (value hw)).mpr hvw.symm

end

/-- Moments are compared as instants. -/
theorem same_iff {t u : Calendar.Moment} :
    t.same u = true ↔ t.seconds = u.seconds ∧ t.nanos = u.nanos := by
  rw [Calendar.Moment.same, beq_iff_eq, Calendar.Moment.cmp]
  split
  · next hlt => exact iff_of_false nofun fun h => hlt.ne h.1
  · split
    · next hlt => exact iff_of_false nofun fun h => hlt.ne' h.1
    · next hle hge =>
      rw [Std.compare_eq_iff_eq]
      exact (and_iff_right (le_antisymm (not_lt.mp hge) (not_lt.mp hle))).symm

/-- Values of different kinds are not equal. -/
theorem iff_of_kind {p : Bool} {x y : Form} (hp : p = false) (h : x.kind.beq y.kind = false) :
    p = true ↔ x = y := by
  refine iff_of_false (Bool.eq_false_iff.mp hp) ?_
  exact ne_of_apply_ne Form.kind (Nat.ne_of_beq_eq_false h)

/-- Values of a kind whose equality is that of what they are made of. -/
theorem beq_iff_itself {α : Type} [BEq α] [LawfulBEq α] {mk : α → Value} {a b : α}
    (h : mk a = mk b → a = b) : (a == b) = true ↔ Form.itself (mk a) = Form.itself (mk b) := by
  rw [beq_iff_eq, Form.itself.injEq]
  exact ⟨congrArg mk, h⟩

/-- Values that do not go further down than they are compared are equal if they have one form. -/
theorem equalWithin_iff_formWithin {n : ℕ} {a b : Value} (ha : s.FloatFree a) (hb : s.FloatFree b)
    (hna : s.Nested n a) (hnb : s.Nested n b) :
    s.equalWithin n a b = true ↔ s.formWithin n a = s.formWithin n b := by
  induction n generalizing a b with
  | zero => exact hna.elim
  -- at no levels nothing is compared; below, what is in the two values is one level further up
  | succ n ih =>
    have items : ∀ x ∈ s.contents a, ∀ y ∈ s.contents b,
        s.equalWithin n x y = true ↔ s.formWithin n x = s.formWithin n y := fun x hx y hy =>
      ih (ha.contents x hx) (hb.contents y hy) (hna x hx) (hnb y hy)
    cases a with
    | int k =>
      -- an integer may be equal to one of the other kind, as both are numbers
      cases b with
      | int l =>
        change (k == l) = true ↔ Form.number _ = .number _
        rw [beq_iff_eq, Form.number.injEq, Int64.toInt_inj]
      | uint l =>
        change (k.toInt == (l.toNat : ℤ)) = true ↔ Form.number _ = .number _
        rw [beq_iff_eq, Form.number.injEq]
      -- a double may be, but there are no doubles
      | float x => exact absurd rfl (hb.ne_float x)
      | _ => exact iff_of_kind rfl rfl
    | uint k =>
      cases b with
      | int l =>
        change ((k.toNat : ℤ) == l.toInt) = true ↔ Form.number _ = .number _
        rw [beq_iff_eq, Form.number.injEq]
      | uint l =>
        change (k == l) = true ↔ Form.number _ = .number _
        rw [beq_iff_eq, Form.number.injEq, Nat.cast_inj, UInt64.toNat_inj]
      | _ => exact iff_of_kind rfl rfl
    | float x => exact absurd rfl (ha.ne_float x)
    | decimal d =>
      cases b with
      | decimal e =>
        change (d == e) = true ↔ Form.decimal _ = .decimal _
        rw [Decimal.beq_iff_toRat_eq, Form.decimal.injEq]
      | _ => exact iff_of_kind rfl rfl
    | time t =>
      cases b with
      | time u =>
        change t.same u = true ↔ Form.instant _ _ = .instant _ _
        rw [same_iff, Form.instant.injEq]
      | _ => exact iff_of_kind rfl rfl
    | array r =>
      cases b with
      | array q =>
        change _ ↔ Form.array _ = .array _
        rw [equalWithin_array, Bool.or_eq_true, beq_iff_eq, allEqual_iff items, Form.array.injEq]
        -- containers of references are equal to themselves at once, and so are their forms
        exact or_iff_right_of_imp fun h => h ▸ rfl
      | _ => exact iff_of_kind rfl rfl
    | tuple r =>
      cases b with
      | tuple q =>
        change _ ↔ Form.tuple _ = .tuple _
        rw [equalWithin_tuple, allEqual_iff items, Form.tuple.injEq]
      | _ => exact iff_of_kind rfl rfl
    | list r =>
      cases b with
      | list q =>
        change _ ↔ Form.list _ = .list _
        rw [equalWithin_list, Bool.or_eq_true, beq_iff_eq, allEqual_iff items, Form.list.injEq]
        exact or_iff_right_of_imp fun h => h ▸ rfl
      | _ => exact iff_of_kind rfl rfl
    | hash r =>
      cases b with
      | hash q =>
        change _ ↔ Form.hash _ = .hash _
        rw [equalWithin_hash, Bool.or_eq_true, Bool.and_eq_true, beq_iff_eq, beq_iff_eq,
          allFound_iff items, Form.hash.injEq]
        exact or_iff_right_of_imp fun h => h ▸ rfl
      | _ => exact iff_of_kind rfl rfl
    | nil =>
      cases b with
      | nil => exact iff_of_true rfl rfl
      | _ => exact iff_of_kind rfl rfl
    | native f =>
      cases b with
      -- built-in functions and packaged methods are compared by their names
      | native g | bound q =>
        change (s.callableName _ == s.callableName _) = true ↔ Form.builtin _ = .builtin _
        rw [beq_iff_eq, Form.builtin.injEq]
      | _ => exact iff_of_kind rfl rfl
    | bound r =>
      cases b with
      | native g | bound q =>
        change (s.callableName _ == s.callableName _) = true ↔ Form.builtin _ = .builtin _
        rw [beq_iff_eq, Form.builtin.injEq]
      | _ => exact iff_of_kind rfl rfl
    | error f =>
      cases b with
      | error g =>
        change decide (f = g) = true ↔ Form.itself _ = .itself _
        rw [decide_eq_true_iff, Form.itself.injEq, Value.error.injEq]
      | _ => exact iff_of_kind rfl rfl
    | _ =>
      -- the others are what they are, and differ from those of other kinds
      cases b <;> first
        | exact iff_of_kind rfl rfl
        | exact beq_iff_itself fun h => by injection h

/-- **Values are equal if they have one form.** -/
theorem equal_iff_form_eq {a b : Value} (ha : s.FloatFree a) (hb : s.FloatFree b) :
    s.equal a b = true ↔ s.form a = s.form b :=
  equalWithin_iff_formWithin ha hb (nested_depth ha.acc) (nested_depth hb.acc)

/-! ### Containers of the same things -/

/-- Entries with the same keys, in the same order, and values that are the same under `f`. -/
theorem map_lookup_eq {α : Type} {f : Value → α} {es es' : List (Key × Value)}
    (hkeys : es.map (·.1) = es'.map (·.1))
    (hvalues : (es.map (·.2)).map f = (es'.map (·.2)).map f) (k : Key) :
    (Assoc.lookup k es).map f = (Assoc.lookup k es').map f := by
  induction es generalizing es' with
  | nil => rw [List.map_eq_nil_iff.mp hkeys.symm]
  | cons e es ih =>
    cases es' with
    | nil => exact nomatch hkeys
    | cons e' es' =>
      obtain ⟨hkey, hkeys⟩ := List.cons.inj hkeys
      obtain ⟨hvalue, hvalues⟩ := List.cons.inj hvalues
      change e.1 = e'.1 at hkey
      rw [Assoc.lookup, Assoc.lookup, hkey]
      split
      · exact congrArg some hvalue
      · exact ih hkeys hvalues

/-- Values that stand for the same things are the same under `f`, if each two of them are. -/
theorem map_eq_of_forall₂ {α β : Type} {f : Value → β} {R R' : α → Value → Prop} {as : List α}
    {vs ws : List Value} (hvs : List.Forall₂ R as vs) (hws : List.Forall₂ R' as ws)
    (h : ∀ v ∈ vs, ∀ w ∈ ws, ∀ a, R a v → R' a w → f v = f w) : vs.map f = ws.map f := by
  induction hvs generalizing ws with
  | nil =>
    cases hws
    rfl
  | cons hv _ ih =>
    cases hws with
    | cons hw hws =>
      have hrest := ih hws fun v hv w hw =>
        h v (List.mem_cons_of_mem _ hv) w (List.mem_cons_of_mem _ hw)
      rw [List.map_cons, List.map_cons, hrest,
        h _ List.mem_cons_self _ List.mem_cons_self _ hv hw]

section

variable {α : Type} {R R' : α → Value → Prop} {n : ℕ}

/-- Arrays have one form if their items stand for the same things. -/
theorem formWithin_array_eq {things : List α} {r q : Ref .array} {items items' : Array Value}
    (hr : s.heap.arrays.get? r = some items) (hq : s.heap.arrays.get? q = some items')
    (hitems : List.Forall₂ R things items.toList) (hitems' : List.Forall₂ R' things items'.toList)
    (hnr : s.Nested n (.array r)) (hnq : s.Nested n (.array q))
    (h : ∀ {n a v w}, R a v → R' a w → s.Nested n v → s.Nested n w →
      s.formWithin n v = s.formWithin n w) :
    s.formWithin n (.array r) = s.formWithin n (.array q) := by
  obtain ⟨n, rfl⟩ := hnr.exists_succ
  rw [formWithin, formWithin, (Holds.array hr).contents_eq, (Holds.array hq).contents_eq]
  congr 1
  refine map_eq_of_forall₂ hitems hitems' fun v hv w hw a hav haw => ?_
  -- what is in the two is one level further up, as what they are in is
  exact h hav haw (hnr.of_holds (.array hr) v hv) (hnq.of_holds (.array hq) w hw)

/-- Hashes have one form if their values stand for the same things under the same names. -/
theorem formWithin_hash_eq {things : List (String × α)} {r q : Ref .hash} {m m' : Assoc Key Value}
    (hr : s.heap.hashes.get? r = some m) (hq : s.heap.hashes.get? q = some m')
    (hkeys : m.keys = things.map (.text ·.1)) (hkeys' : m'.keys = things.map (.text ·.1))
    (hvalues : List.Forall₂ R (things.map (·.2)) m.values)
    (hvalues' : List.Forall₂ R' (things.map (·.2)) m'.values)
    (hnr : s.Nested n (.hash r)) (hnq : s.Nested n (.hash q))
    (h : ∀ {n a v w}, R a v → R' a w → s.Nested n v → s.Nested n w →
      s.formWithin n v = s.formWithin n w) :
    s.formWithin n (.hash r) = s.formWithin n (.hash q) := by
  obtain ⟨n, rfl⟩ := hnr.exists_succ
  rw [formWithin, formWithin, hr, hq]
  congr 1
  funext k
  refine map_lookup_eq (hkeys.trans hkeys'.symm) ?_ k
  refine map_eq_of_forall₂ hvalues hvalues' fun v hv w hw a hav haw => ?_
  exact h hav haw (hnr.of_holds (.hash hr) v hv) (hnq.of_holds (.hash hq) w hw)

end

/-! ### The order of the entries -/

/-- Both tables have the same hashes, but the entries of each may be in another order. -/
structure Reordered (hashes hashes' : Table .hash (Assoc Key Value)) : Prop where
  size_eq : hashes.size = hashes'.size
  perm : ∀ r, ((hashes.get? r).getD .empty).entries.Perm ((hashes'.get? r).getD .empty).entries

/-- The state with these hashes. -/
def withHashes (s : State) (hashes : Table .hash (Assoc Key Value)) : State :=
  { s with heap := { s.heap with hashes } }

/-- Whether all entries are found does not depend on their order. -/
theorem allFound_eq_of_perm {eq : Value → Value → Bool} {m m' n n' : Assoc Key Value}
    (hm : m.entries.Perm m'.entries) (hn : n.entries.Perm n'.entries) :
    allFound eq m n = allFound eq m' n' := by
  unfold allFound
  rw [hm.all_eq]
  simp only [Assoc.get?_eq_of_perm hn]

/-- No comparison looks at the order of entries. -/
theorem equalWithin_withHashes {hashes : Table .hash (Assoc Key Value)}
    (h : Reordered s.heap.hashes hashes) (n : ℕ) (a b : Value) :
    (s.withHashes hashes).equalWithin n a b = s.equalWithin n a b := by
  induction n generalizing a b with
  -- nothing is compared at no levels; hashes are the only case in which the entries are looked at
  | zero => cases a <;> cases b <;> rfl
  | succ n ih =>
    have heq : (s.withHashes hashes).equalWithin n = s.equalWithin n := by
      funext a b
      exact ih a b
    cases a with
    | array r =>
      cases b with
      | array q =>
        rw [equalWithin_array, equalWithin_array, heq]
        rfl
      | _ => rfl
    | tuple r =>
      cases b with
      | tuple q =>
        rw [equalWithin_tuple, equalWithin_tuple, heq]
        rfl
      | _ => rfl
    | list r =>
      cases b with
      | list q =>
        rw [equalWithin_list, equalWithin_list, heq]
        rfl
      | _ => rfl
    | hash r =>
      cases b with
      | hash q =>
        have hsize : ∀ r, ((hashes.get? r).getD .empty).size =
            ((s.heap.hashes.get? r).getD .empty).size := fun r => (h.perm r).length_eq.symm
        rw [equalWithin_hash, equalWithin_hash, heq, allFound_eq_of_perm (h.perm r) (h.perm q),
          ← hsize r, ← hsize q]
        rfl
      | _ => rfl
    | _ => cases b <;> rfl

/-- The order of entries makes no difference. -/
theorem equal_withHashes {hashes : Table .hash (Assoc Key Value)}
    (h : Reordered s.heap.hashes hashes) (a b : Value) :
    (s.withHashes hashes).equal a b = s.equal a b := by
  -- the tables have the same size, so values are compared as far down
  have hdepth : (s.withHashes hashes).heap.depth = s.heap.depth := by
    unfold Heap.depth
    rw [h.size_eq]
    rfl
  rw [equal, hdepth]
  exact equalWithin_withHashes h _ a b

/-- Hashes with the same entries are equal. -/
theorem equal_of_perm {r q : Ref .hash} {m n : Assoc Key Value}
    (hr : s.heap.hashes.get? r = some m) (hq : s.heap.hashes.get? q = some n)
    (hperm : m.entries.Perm n.entries) (hfree : s.FloatFree (.hash r)) :
    s.equal (.hash r) (.hash q) = true := by
  -- the second hash has the values of the first
  have hfree' : s.FloatFree (.hash q) := by
    refine .of_holds (.hash hq) fun w hw => hfree.contents w ?_
    rw [(Holds.hash hr).contents_eq]
    exact (hperm.map (·.2)).mem_iff.mpr hw
  rw [equal_iff_form_eq hfree hfree']
  obtain ⟨fuel, hfuel⟩ : ∃ fuel, fuel + 1 = s.heap.depth := ⟨_, rfl⟩
  rw [form, form, ← hfuel, formWithin, formWithin, hr, hq]
  simp only [Option.getD_some, Assoc.get?_eq_of_perm hperm]

/-- **Equality is an equivalence.** Among values without a float, which do not go down for ever,
equality is reflexive, symmetric and transitive: it does not matter what kinds the integers are of,
how a decimal is scaled, or how arrays, tuples, lists and hashes are nested. It does not depend on
the order of the entries of hashes: two hashes with the same entries are equal, and with the entries
of any hashes in another order every comparison has the same answer. It is what `deepEqual`
answers. -/
theorem equal_equivalence (s : State) :
    Equivalence (fun a b : { v : Value // s.FloatFree v } => s.equal a b = true) ∧
    (∀ {r q m n}, s.heap.hashes.get? r = some m → s.heap.hashes.get? q = some n →
      m.entries.Perm n.entries → s.FloatFree (.hash r) →
      s.equal (.hash r) (.hash q) = true) ∧
    (∀ {hashes}, Reordered s.heap.hashes hashes →
      ∀ a b, (s.withHashes hashes).equal a b = s.equal a b) ∧
    ∀ E site a b, Builtin.run E site [a, b] .deepEqual s = .done (.bool (s.equal a b)) s := by
  refine ⟨?equivalence, equal_of_perm, equal_withHashes, fun _ _ _ _ => rfl⟩
  case equivalence =>
    -- equality of forms is one
    constructor
    case refl =>
      intro a
      exact (equal_iff_form_eq a.2 a.2).mpr rfl
    case symm =>
      intro a b hab
      have hform := (equal_iff_form_eq a.2 b.2).mp hab
      exact (equal_iff_form_eq b.2 a.2).mpr hform.symm
    case trans =>
      intro a b c hab hbc
      have hform : s.form a = s.form c := by
        calc s.form a = s.form b := (equal_iff_form_eq a.2 b.2).mp hab
          _ = s.form c := (equal_iff_form_eq b.2 c.2).mp hbc
      exact (equal_iff_form_eq a.2 c.2).mpr hform

/-- Two arrays that are equal, and hashes that have the same or equal entries in two orders. -/
def ofPairs : State :=
  { blank with
    heap := { blank.heap with
      arrays := ⟨#[#[.int 1, .text "x"], #[.uint 1, .text "x"]]⟩
      hashes := ⟨#[.ofList [(.text "a", .array ⟨0⟩), (.text "b", .nil)],
        .ofList [(.text "b", .nil), (.text "a", .array ⟨0⟩)],
        .ofList [(.text "b", .nil), (.text "a", .array ⟨1⟩)]]⟩ } }

/-- The first hash is equal to the second, which has the same entries. The second is equal to the
third, so the first one is, too, and all this holds both ways. It still does once the entries of the
first hash have changed places. -/
theorem equal_equivalence_pairs :
    ∃ hashes, Reordered ofPairs.heap.hashes hashes ∧
      (ofPairs.withHashes hashes).equal (.hash ⟨0⟩) (.hash ⟨2⟩) = true ∧
      ofPairs.equal (.hash ⟨2⟩) (.hash ⟨0⟩) = true ∧
      Builtin.run (.level 1) ⟨root, .unknown, "deepEqual"⟩ [.hash ⟨0⟩, .hash ⟨1⟩] .deepEqual
        ofPairs = .done (.bool true) ofPairs := by
  have pair : ∀ {v u w}, ofPairs.contents v = [u, w] → (∀ x, v ≠ .float x) →
      ofPairs.FloatFree u → ofPairs.FloatFree w → ofPairs.FloatFree v := by
    intro v u w hpair hv hu hw
    refine .intro hv ?_
    rw [hpair]
    exact List.forall_mem_cons.mpr ⟨hu, List.forall_mem_singleton.mpr hw⟩
  have signed : ofPairs.FloatFree (.array ⟨0⟩) :=
    pair rfl nofun (.of_contents_nil rfl nofun) (.of_contents_nil rfl nofun)
  have unsigned : ofPairs.FloatFree (.array ⟨1⟩) :=
    pair rfl nofun (.of_contents_nil rfl nofun) (.of_contents_nil rfl nofun)
  have first : ofPairs.FloatFree (.hash ⟨0⟩) := pair rfl nofun signed (.of_contents_nil rfl nofun)
  -- the second and the third hash are compared by evaluation; the rest follows
  have second : ofPairs.FloatFree (.hash ⟨1⟩) := pair rfl nofun (.of_contents_nil rfl nofun) signed
  have third : ofPairs.FloatFree (.hash ⟨2⟩) := pair rfl nofun (.of_contents_nil rfl nofun) unsigned
  obtain ⟨hequivalence, hsame, hreordered, hdeep⟩ := equal_equivalence ofPairs
  have hfirst : ofPairs.equal (.hash ⟨0⟩) (.hash ⟨1⟩) = true :=
    hsame rfl rfl (.swap _ _ _) first
  have hthird : ofPairs.equal (.hash ⟨0⟩) (.hash ⟨2⟩) = true :=
    hequivalence.trans (x := ⟨_, first⟩) (y := ⟨_, second⟩) (z := ⟨_, third⟩) hfirst rfl
  have hswapped : Reordered ofPairs.heap.hashes
      (ofPairs.heap.hashes.set ⟨0⟩ (.ofList [(.text "b", .nil), (.text "a", .array ⟨0⟩)])) := by
    refine ⟨rfl, fun r => ?_⟩
    obtain ⟨_ | i⟩ := r
    · exact .swap _ _ _
    · exact .refl _
  exact ⟨_, hswapped, (hreordered hswapped _ _).trans hthird,
    hequivalence.symm (x := ⟨_, first⟩) (y := ⟨_, third⟩) hthird,
    (hdeep _ _ _ _).trans (by rw [hfirst])⟩

end ScriptEngine.State
