import ScriptEngine.Proofs.Containers
import ScriptEngine.Proofs.Equality.Form
import ScriptEngine.Proofs.Json.Reading

/-!
# Values survive a JSON document

A document is a tree, and `j.Describes s v` holds if the value `v` is that tree in the state `s`. An
integer of a document describes a value of either kind, signed or unsigned, so what is read back can
be of another kind than what was written. Values without floats that are nowhere inside themselves
(`IsData`) are each described by a document, which is the one that is written for it
(`Describes.ofValue_eq`), and a document describes what is made of it (`Exact.makes`). All values that
one document describes are equal, and have their entries in the same order, since they have one form
(`Describes.equal`).
-/

namespace ScriptEngine.Json

/-! ### Documents and values -/

/-- Values that are built from nil, booleans, integers and texts by arrays, and by hashes with texts
for keys. -/
inductive IsData (s : State) : Value → Prop
  | nil : IsData s .nil
  | bool (b : Bool) : IsData s (.bool b)
  | int (n : Int64) : IsData s (.int n)
  | uint (n : UInt64) : IsData s (.uint n)
  | text (t : String) : IsData s (.text t)
  | array {r : Ref .array} {items : Array Value} : s.heap.arrays.get? r = some items →
      (∀ v ∈ items.toList, IsData s v) → IsData s (.array r)
  | hash {r : Ref .hash} {m : Assoc Key Value} : s.heap.hashes.get? r = some m →
      (∀ k ∈ m.keys, ∃ t, k = .text t) → (∀ v ∈ m.values, IsData s v) → IsData s (.hash r)

/-- The value is nil, the boolean, the integer of either kind, the text, an array of the items, or a
hash with the members as its entries in their order. -/
inductive Describes (s : State) : Json → Value → Prop
  | null : Describes s null .nil
  | bool (b : Bool) : Describes s (bool b) (.bool b)
  | int (n : Int64) : Describes s (int n.toInt) (.int n)
  | uint (n : UInt64) : Describes s (int n.toNat) (.uint n)
  | text (t : String) : Describes s (text t) (.text t)
  | array {items : List Json} {r : Ref .array} {vs : Array Value} :
      s.heap.arrays.get? r = some vs → List.Forall₂ (Describes s) items vs.toList →
      Describes s (array items) (.array r)
  | object {members : List (String × Json)} {r : Ref .hash} {m : Assoc Key Value} :
      s.heap.hashes.get? r = some m → m.keys = members.map (.text ·.1) →
      List.Forall₂ (Describes s) (members.map (·.2)) m.values →
      Describes s (object members) (.hash r)

/-- Induction over what a document describes. -/
theorem Describes.induct {s : State} {P : Json → Value → Prop} (null : P .null .nil)
    (bool : ∀ b, P (.bool b) (.bool b)) (int : ∀ n : Int64, P (.int n.toInt) (.int n))
    (uint : ∀ n : UInt64, P (.int n.toNat) (.uint n)) (text : ∀ t, P (.text t) (.text t))
    (array : ∀ {items r vs}, s.heap.arrays.get? r = some vs →
      List.Forall₂ (fun j v => Describes s j v ∧ P j v) items vs.toList →
      P (.array items) (.array r))
    (object : ∀ {members r m}, s.heap.hashes.get? r = some m → m.keys = members.map (.text ·.1) →
      List.Forall₂ (fun j v => Describes s j v ∧ P j v) (members.map (·.2)) m.values →
      P (.object members) (.hash r))
    {j : Json} {v : Value} (h : j.Describes s v) : P j v :=
  @Describes.rec s (fun j v _ => P j v)
    (fun js vs _ => List.Forall₂ (fun j v => Describes s j v ∧ P j v) js vs)
    null bool int uint text (fun hr _ ih => array hr ih) (fun hr hkeys _ ih => object hr hkeys ih)
    .nil (fun hj _ ihj ih => .cons ⟨hj, ihj⟩ ih) j v h

section

variable {s : State}

/-- What can be found for each can be found for all. -/
theorem exists_forall₂ {α β : Type} {R : α → β → Prop} {bs : List β} (h : ∀ b ∈ bs, ∃ a, R a b) :
    ∃ as, List.Forall₂ R as bs := by
  induction bs with
  | nil => exact ⟨[], .nil⟩
  | cons b bs ih =>
    obtain ⟨⟨a, ha⟩, hbs⟩ := List.forall_mem_cons.mp h
    obtain ⟨as, has⟩ := ih hbs
    exact ⟨a :: as, .cons ha has⟩

/-- There is a document for all data. -/
theorem IsData.exists_describes {v : Value} (h : IsData s v) : ∃ j : Json, j.Describes s v := by
  induction h with
  | nil => exact ⟨_, .null⟩
  | bool b => exact ⟨_, .bool b⟩
  | int n => exact ⟨_, .int n⟩
  | uint n => exact ⟨_, .uint n⟩
  | text t => exact ⟨_, .text t⟩
  | array hr _ ih =>
    obtain ⟨items, hitems⟩ := exists_forall₂ ih
    exact ⟨_, .array hr hitems⟩
  | @hash r m hr hkeys _ ih =>
    -- a key that is a text and a value that is described make a member
    have hentries : ∀ e ∈ m.entries, ∃ member : String × Json,
        e.1 = .text member.1 ∧ member.2.Describes s e.2 := fun e he => by
      obtain ⟨t, ht⟩ := hkeys e.1 (List.mem_map_of_mem he)
      obtain ⟨j, hj⟩ := ih e.2 (List.mem_map_of_mem he)
      exact ⟨(t, j), ht, hj⟩
    obtain ⟨members, hmembers⟩ := exists_forall₂ hentries
    obtain ⟨hnames, hvalues⟩ := forall₂_entries_iff.mp hmembers
    exact ⟨_, .object hr hnames hvalues⟩

/-- The names in a document of a hash are different, as the keys are. -/
theorem nodup_names {m : Assoc Key Value} {members : List (String × Json)}
    (hkeys : m.keys = members.map (.text ·.1)) : (members.map (·.1)).Nodup := by
  -- different texts are different keys
  have htexts : members.map (fun m => Key.text m.1) = (members.map (·.1)).map .text :=
    List.map_map.symm
  have hnodup : m.keys.Nodup := m.distinct.nodup
  rw [hkeys, htexts] at hnodup
  exact hnodup.of_map

/-- What describes a value is read from its text. -/
theorem Describes.exact {j : Json} {v : Value} (h : j.Describes s v) : j.Exact := by
  refine Describes.induct (P := fun j _ => j.Exact) .null .bool ?int ?uint .text ?array ?object h
  -- integers of either kind are within the range that is read exactly
  case int => exact fun n => .int n.le_toInt (by have := n.toInt_lt; omega)
  case uint => exact fun n => .int (by omega) (by have := n.toNat_lt; omega)
  case array =>
    intro items r vs _ hitems
    exact .array (forall_mem_of_forall₂ hitems.flip)
  case object =>
    intro members r m _ hkeys hvalues
    -- the names are different, and the members are exact by induction
    refine .object (nodup_names hkeys) fun member hmember => ?_
    exact forall_mem_of_forall₂ hvalues.flip _ (List.mem_map_of_mem hmember)

/-! ### Writing -/

/-- What succeeds for each succeeds for all. -/
theorem eachOf_eq_ok {α β : Type} {f : α → Except String β} {as : List α} {bs : List β}
    (h : List.Forall₂ (fun b a => f a = .ok b) bs as) : eachOf f as = .ok bs := by
  induction h with
  | nil => rfl
  | cons hb _ ih =>
    rw [eachOf, hb, ih]
    rfl

/-- A depth at which the value is nested is enough to write it. -/
theorem Describes.ofValueWithin_eq {j : Json} {v : Value} (h : j.Describes s v) {n : ℕ}
    (hn : s.Nested n v) : ofValueWithin s n v = .ok j := by
  revert n
  refine Describes.induct (P := fun j v => ∀ {n}, s.Nested n v → ofValueWithin s n v = .ok j)
    ?null ?bool ?int ?uint ?text ?array ?object h
  case array =>
    intro items r vs hr hitems n hn
    obtain ⟨n, rfl⟩ := hn.exists_succ
    -- the items are nested in each other one level less deep
    have hall : List.Forall₂ (fun j v => ofValueWithin s n v = .ok j) items vs.toList :=
      (forall₂_mem hitems).imp fun j v ⟨_, hv, _, hwrites⟩ =>
        hwrites (hn.of_holds (.array hr) v hv)
    rw [ofValueWithin, hr, Option.getD_some, eachOf_eq_ok hall]
    rfl
  case object =>
    intro members r m hr hkeys hvalues n hn
    obtain ⟨n, rfl⟩ := hn.exists_succ
    have hall : List.Forall₂ (fun member (e : Key × Value) =>
        ((ofValueWithin s n e.2).map fun j => (e.1.toText, j)) = .ok member) members m.entries := by
      refine (forall₂_mem (forall₂_entries_iff.mpr ⟨hkeys, hvalues⟩)).imp ?_
      rintro ⟨name, j⟩ ⟨k, v⟩ ⟨_, he, rfl, _, hwrites⟩
      -- the key is a text, which is its own name
      dsimp only at hwrites ⊢
      rw [hwrites (hn.of_holds (.hash hr) v (List.mem_map_of_mem (f := (·.2)) he))]
      rfl
    rw [ofValueWithin, hr, Option.getD_some, eachOf_eq_ok hall]
    -- as the names are different, no member replaces another
    exact congrArg (fun ms => Except.ok (Json.object ms)) (Assoc.entries_ofList (nodup_names hkeys))
  all_goals
    intros
    -- what has no contents is written as it is, at any depth but zero
    rename_i hn
    obtain ⟨n, rfl⟩ := hn.exists_succ
    rfl

/-- No document describes a float. -/
theorem Describes.floatFree {j : Json} {v : Value} (h : j.Describes s v) : s.FloatFree v := by
  have single : ∀ {v}, s.contents v = [] → (∀ x, v ≠ .float x) → s.FloatFree v :=
    State.FloatFree.of_contents_nil
  refine Describes.induct (P := fun _ v => s.FloatFree v) (single rfl nofun)
    (fun _ => single rfl nofun) (fun _ => single rfl nofun) (fun _ => single rfl nofun)
    (fun _ => single rfl nofun) ?array ?object h
  case array =>
    intro items r vs hr hitems
    exact .of_holds (.array hr) (forall_mem_of_forall₂ hitems)
  case object =>
    intro members r m hr _ hvalues
    exact .of_holds (.hash hr) (forall_mem_of_forall₂ hvalues)

/-- The document that describes a value is written for it. -/
theorem Describes.ofValue_eq {j : Json} {v : Value} (h : j.Describes s v) : ofValue s v = .ok j :=
  h.ofValueWithin_eq (State.nested_depth h.floatFree.acc)

end

/-! ### Making values -/

/-- A description lasts as long as arrays and hashes stay what they were. -/
theorem Describes.keeps {s t : State} {j : Json} {v : Value} (h : j.Describes s v)
    (hkeeps : Keeps s t) : j.Describes t v := by
  refine Describes.induct (P := Describes t) .null .bool .int .uint .text ?array ?object h
  case array =>
    intro items r vs hr hitems
    -- the array is there as it was, and its items are described still
    exact .array (hkeeps.arrays hr) (hitems.imp fun _ _ h => h.2)
  case object =>
    intro members r m hr hkeys hvalues
    exact .object (hkeeps.hashes hr) hkeys (hvalues.imp fun _ _ h => h.2)

/-- An integer in range becomes a value of the kind that holds it. -/
theorem describes_intValue {n : ℤ} (hmin : -9223372036854775808 ≤ n)
    (hmax : n < 18446744073709551616) (s : State) : (int n).Describes s (intValue n) := by
  unfold intValue
  split
  -- below 2 ^ 63 the signed kind is taken
  · next hlt =>
    have hn : (Int64.ofInt n).toInt = n := Int64.toInt_ofInt_of_le hmin hlt
    conv => lhs; rw [← hn]
    exact .int _
  -- from there on the unsigned one
  · next hge =>
    have hn : ((UInt64.ofNat n.toNat).toNat : ℤ) = n := by
      rw [UInt64.toNat_ofNat', Nat.mod_eq_of_lt (by omega)]
      omega
    conv => lhs; rw [← hn]
    exact .uint _

/-- Of an exact document a value is made that it describes. -/
theorem Exact.makes {j : Json} (h : j.Exact) : Makes (toValue j) (Describes · j) := by
  induction h with
  | null => exact .pure fun _ => .null
  | bool b => exact .pure fun _ => .bool b
  | int hmin hmax => exact .pure (describes_intValue hmin hmax)
  | text t => exact .pure fun _ => .text t
  | array _ ih =>
    intro s
    -- by induction the items can be made, and the array holds what they describe
    obtain ⟨v, t, hmake, ⟨r, vs, rfl, hr, hitems⟩, hst⟩ :=
      makes_array (D := Describes) itemValues rfl (fun _ _ => rfl) (fun _ => Describes.keeps) ih s
    exact ⟨_, t, hmake, .array hr hitems, hst⟩
  | object hnodup _ ih =>
    intro s
    obtain ⟨v, t, hmake, ⟨r, es, rfl, hr, hkeys, hvalues⟩, hst⟩ :=
      makes_hash (D := Describes) memberValues rfl (fun _ _ => rfl) (fun _ => Describes.keeps)
        hnodup ih s
    exact ⟨_, t, hmake, .object hr hkeys hvalues, hst⟩

/-! ### Values of one document -/

section

variable {s : State}

/-- Integers of both kinds have the form of their number. -/
theorem Describes.formWithin_int {k : ℤ} {v : Value} (h : (Json.int k).Describes s v) (n : ℕ) :
    s.formWithin (n + 1) v = .number k := by
  cases h <;> rfl

/-- Values that one document describes have one form. -/
theorem Describes.formWithin_eq {j : Json} {v : Value} (hv : j.Describes s v) :
    ∀ n w, j.Describes s w → s.Nested n v → s.Nested n w →
      s.formWithin n v = s.formWithin n w := by
  -- the kinds of integers are the one case in which the values differ
  have number : ∀ {k v}, (Json.int k).Describes s v → ∀ n w, (Json.int k).Describes s w →
      s.Nested n v → s.Nested n w → s.formWithin n v = s.formWithin n w := fun hv n w hw hnv _ => by
    obtain ⟨n, rfl⟩ := hnv.exists_succ
    rw [hv.formWithin_int, hw.formWithin_int]
  refine Describes.induct (P := fun j v => ∀ n w, Describes s j w → s.Nested n v →
    s.Nested n w → s.formWithin n v = s.formWithin n w) ?null ?bool (fun n => number (.int n))
    (fun n => number (.uint n)) ?text ?array ?object hv
  case null =>
    rintro n w ⟨⟩ _ _
    rfl
  case bool =>
    rintro b n w ⟨⟩ _ _
    rfl
  case text =>
    rintro t n w ⟨⟩ _ _
    rfl
  case array =>
    intro items r vs hr hitems n w hw hnv hnw
    cases hw with
    -- two arrays that the document describes have as many items, of one form each
    | @array _ q ws hq hitems' =>
      exact State.formWithin_array_eq hr hq hitems hitems' hnv hnw fun hv hw => hv.2 _ _ hw
  case object =>
    intro members r m hr hkeys hvalues n w hw hnv hnw
    cases hw with
    -- and two hashes have the same keys, in the same order
    | @object _ q m' hq hkeys' hvalues' =>
      exact State.formWithin_hash_eq hr hq hkeys hkeys' hvalues hvalues' hnv hnw
        fun hv hw => hv.2 _ _ hw

/-- Values that one document describes are equal. -/
theorem Describes.equal {j : Json} {v w : Value} (hv : j.Describes s v) (hw : j.Describes s w) :
    s.equal v w = true :=
  (State.equal_iff_form_eq hv.floatFree hw.floatFree).mpr
    (hv.formWithin_eq _ w hw (State.nested_depth hv.floatFree.acc)
      (State.nested_depth hw.floatFree.acc))

end

/-! ### There and back -/

/-- **JSON loses nothing.** Let `v` be built from nil, booleans, integers and texts by arrays, and by
hashes with texts for keys, so that it is not inside itself. Then a document describes it, which is
the one that it is converted to and `json.marshal` writes. In any state the document is converted to
a value that it describes too: its hashes have their keys in the same order, at every depth, and it is
equal to `v` as long as `v` is what it was. That is what `json.unmarshal` gives for the text if the
text is read as the document, as it is up to the depth at which the reader stops. -/
theorem marshal_loses_nothing {s : State} {v : Value} (hv : IsData s v) (E : Engine)
    (site site' : CallSite) :
    ∃ j : Json, j.Describes s v ∧ ofValue s v = .ok j ∧
      Builtin.run E site [v] .jsonMarshal s = .done (.text j.toText) s ∧
      (Within maxDepth j → ofText j.toText = .ok j) ∧
      ∀ s', ∃ w t, toValue j s' = .done w t ∧ j.Describes t w ∧
        (j.Describes s' v → t.equal w v = true) ∧
        (ofText j.toText = .ok j →
          Builtin.run E site' [.text j.toText] .jsonUnmarshal s' = .done w t) := by
  obtain ⟨j, hj⟩ := hv.exists_describes
  refine ⟨j, hj, hj.ofValue_eq, ?marshal, hj.exact.ofText_toText, fun s' => ?unmarshal⟩
  case marshal =>
    have harity : site.exactly 1 [v] s = .done () s := rfl
    -- the call takes one argument, and converts it first
    have hdocument : Eval.gets (fun s => ofValue s v) s = .done (.ok j) s :=
      congrArg (Run.done · s) hj.ofValue_eq
    exact (Eval.bind_of_done harity _).trans ((Eval.bind_of_done hdocument _).trans rfl)
  case unmarshal =>
    -- making a value leaves the old one as it is, so that one document describes both
    obtain ⟨w, t, hmake, hw, hkeeps⟩ := hj.exact.makes s'
    refine ⟨w, t, hmake, hw, fun hv' => hw.equal (hv'.keeps hkeeps), fun hread => ?_⟩
    have harity : site'.exactly 1 [.text j.toText] s' = .done () s' := rfl
    have htext : site'.textArg [.text j.toText] 0 s' = .done j.toText s' := rfl
    refine (Eval.bind_of_done harity _).trans ((Eval.bind_of_done htext _).trans ?_)
    rw [hread]
    exact hmake

/-- A state with a hash of an unsigned integer and an array. -/
def withMixed : State :=
  { State.blank with
    heap := { State.blank.heap with
      arrays := ⟨#[#[.bool true, .nil, .int (-1)]]⟩
      hashes := ⟨#[.ofList [(.text "n", .uint 7), (.text "a", .array ⟨0⟩)]]⟩ } }

/-- The unsigned integer comes back signed, in a hash that is equal. -/
theorem marshal_loses_nothing_mixed :
    IsData withMixed (.hash ⟨0⟩) ∧
      ∃ text w t, Builtin.run (.level 1) ⟨State.root, .unknown, "marshal"⟩ [.hash ⟨0⟩] .jsonMarshal
          withMixed = .done (.text text) withMixed ∧
        Builtin.run (.level 1) ⟨State.root, .unknown, "unmarshal"⟩ [.text text] .jsonUnmarshal
          withMixed = .done w t ∧
        (object [("n", int 7), ("a", array [bool true, null, int (-1)])]).Describes t w ∧
        t.equal w (.hash ⟨0⟩) = true := by
  have hdata : IsData withMixed (.hash ⟨0⟩) := by
    refine .hash rfl ?keys (List.forall_mem_cons.mpr ⟨.uint 7, List.forall_mem_singleton.mpr ?array⟩)
    case keys =>
      exact List.forall_mem_cons.mpr ⟨⟨_, rfl⟩, List.forall_mem_singleton.mpr ⟨_, rfl⟩⟩
    case array =>
      refine .array rfl (List.forall_mem_cons.mpr ⟨.bool true, List.forall_mem_cons.mpr ⟨.nil, ?_⟩⟩)
      exact List.forall_mem_singleton.mpr (.int (-1))
  obtain ⟨j, hj, hof, hmarshal, hread, hback⟩ := marshal_loses_nothing hdata (.level 1)
    ⟨State.root, .unknown, "marshal"⟩ ⟨State.root, .unknown, "unmarshal"⟩
  have hdocument : ofValue withMixed (.hash ⟨0⟩) =
      .ok (object [("n", int 7), ("a", array [bool true, null, int (-1)])]) := rfl
  obtain rfl := Except.ok.inj (hof.symm.trans hdocument)
  have hwithin : Within maxDepth
      (object [("n", int 7), ("a", array [bool true, null, int (-1)])]) := by
    simp [Within, maxDepth]
  obtain ⟨w, t, _, hw, hequal, hunmarshal⟩ := hback withMixed
  exact ⟨hdata, _, w, t, hmarshal, hunmarshal (hread hwithin), hw, hequal hj⟩

end ScriptEngine.Json
