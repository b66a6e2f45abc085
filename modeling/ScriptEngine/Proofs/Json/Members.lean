import ScriptEngine.Proofs.Hashes.Histories
import ScriptEngine.Proofs.Hashes.Keys
import ScriptEngine.Proofs.Json.RoundTrip

/-!
# The members that are written for a hash

A hash is written as an object, with the texts of its keys for names. Keys of one kind have different
texts, and keys of two kinds have one text only in a clash: integers of both kinds for one number, or
a text that is what is written for another key (`Key.toText_eq_iff`).

The document of a container is put together from those of its parts (`Written`), and of members with
one name the last one stays. A document is complete (`Complete`) if each hash in it has one member for
each entry. It is so just if in no hash inside of the value two keys clash (`Written.complete_iff`).
-/

namespace ScriptEngine

/-! ### Keys with one text -/

namespace Text

/-- The text of an integer is read as the integer. -/
theorem readInt_toString {n : ℤ} {b : ℕ} (h : n.natAbs ≤ b) :
    readInt (-b - 1) b (toString n).toList = .ok n := by
  refine (readInt_eq_ok_iff (by omega) (by omega)).mpr
    ⟨_, _, toList_toString n, Nat.toDigits_ne_nil, allDigits_toDigits _, ?_, by omega, by omega⟩
  rw [Nat.ofDigitChars_toDigits (by decide) (by decide)]
  split
  · change n = -1 * _
    omega
  · change n = 1 * _
    omega

/-- Integers with one text are the same. -/
theorem toString_injective : Function.Injective (toString : ℤ → String) := by
  intro n m h
  -- a bound that is great enough for both, so that both texts are read
  have hn := readInt_toString (le_max_left n.natAbs m.natAbs)
  have hm := readInt_toString (le_max_right n.natAbs m.natAbs)
  rw [h, hm] at hn
  exact (Except.ok.inj hn).symm

/-- The text of an integer is not that of a boolean. -/
theorem toString_ne_boolText (n : ℤ) (b : Bool) : toString n ≠ Key.boolText b := by
  intro h
  have hn := readInt_toString (le_refl n.natAbs)
  rw [h] at hn
  cases b with
  | true => exact nomatch hn
  | false => exact nomatch hn

end Text

namespace Key

/-- Keys of two kinds that have one text: integers of both kinds for one number, or a key and the text
that is written for it. -/
inductive Clash : Key → Key → Prop
  | numbers {n : Int64} {m : UInt64} : n.toInt = m.toNat → Clash (.int n) (.uint m)
  | text {k : Key} : (∀ t, k ≠ .text t) → Clash k (.text k.toText)

/-- Keys that clash are two. -/
theorem Clash.ne {j k : Key} (h : Clash j k) : j ≠ k := by
  cases h with
  | numbers _ => exact nofun
  | text hk => exact hk _

/-- Keys that clash have one text. -/
theorem Clash.toText_eq {j k : Key} (h : Clash j k) : j.toText = k.toText := by
  cases h with
  | numbers h => exact congrArg toString h
  | text _ => rfl

/-- The booleans have two texts. -/
theorem boolText_injective : Function.Injective boolText := by
  decide

/-- **Keys have one text only if they clash.** -/
theorem toText_eq_iff {j k : Key} : j.toText = k.toText ↔ j = k ∨ Clash j k ∨ Clash k j := by
  constructor
  · intro h
    -- a text clashes with any key of another kind for which it is written; integers clash as
    -- numbers
    cases j with
    | text t =>
      cases k with
      | text t' => exact .inl (congrArg text h)
      | _ =>
        obtain rfl : t = toText _ := h
        exact .inr (.inr (.text nofun))
    | int n =>
      cases k with
      | text t' =>
        obtain rfl : toText _ = t' := h
        exact .inr (.inl (.text nofun))
      | int m => exact .inl (congrArg int (Int64.toInt_inj.mp (Text.toString_injective h)))
      | uint m => exact .inr (.inl (.numbers (Text.toString_injective h)))
      | bool b => exact absurd h (Text.toString_ne_boolText _ b)
    | uint n =>
      cases k with
      | text t' =>
        obtain rfl : toText _ = t' := h
        exact .inr (.inl (.text nofun))
      | int m => exact .inr (.inr (.numbers (Text.toString_injective h.symm)))
      | uint m =>
        have hnat : n.toNat = m.toNat := Int.ofNat.inj (Text.toString_injective h)
        exact .inl (congrArg uint (UInt64.toNat_inj.mp hnat))
      | bool b => exact absurd h (Text.toString_ne_boolText n.toNat b)
    | bool b =>
      cases k with
      | text t' =>
        obtain rfl : toText _ = t' := h
        exact .inr (.inl (.text nofun))
      | int m => exact absurd h.symm (Text.toString_ne_boolText _ b)
      | uint m => exact absurd h.symm (Text.toString_ne_boolText m.toNat b)
      | bool b' => exact .inl (congrArg bool (boolText_injective h))
  · rintro (rfl | h | h)
    · rfl
    · exact h.toText_eq
    · exact h.toText_eq.symm

/-- The texts of some keys are different just if no two of the keys clash. -/
theorem nodup_texts_iff {keys : List Key} (hnodup : keys.Nodup) :
    (keys.map toText).Nodup ↔ ∀ j ∈ keys, ∀ k ∈ keys, ¬ Clash j k := by
  rw [List.nodup_map_iff_inj_on hnodup]
  constructor
  · intro h j hj k hk hclash
    exact hclash.ne (h j hj k hk hclash.toText_eq)
  · intro h j hj k hk htext
    obtain heq | hclash | hclash := toText_eq_iff.mp htext
    · exact heq
    · exact absurd hclash (h j hj k hk)
    · exact absurd hclash (h k hk j hj)

end Key

namespace Json

variable {s : State} {v w : Value} {j : Json} {js : List Json} {n : ℕ}

/-! ### Parts -/

/-- The fields of an object in the order of their names. -/
def fields (s : State) (r : Ref .object) : List (String × Value) :=
  sortedByName (((s.heap.objects.get? r).map (·.fields.entries)).getD [])

/-- What is written inside of a value: items, the values of a hash, and the values of fields. -/
def parts (s : State) : Value → List Value
  | .array r => ((s.heap.arrays.get? r).getD #[]).toList
  | .tuple r => ((s.heap.tuples.get? r).getD #[]).toList
  | .hash r => (s.hash r).values
  | .object r => (fields s r).map (·.2)
  | _ => []

/-- `w` is a part of `v` itself. -/
def PartOf (s : State) (w v : Value) : Prop := w ∈ parts s v

/-- A value is another one, or a part of it, and so on. -/
abbrev Inside (s : State) : Value → Value → Prop := Relation.ReflTransGen (PartOf s)

/-- The texts of the keys of a hash. -/
def names (s : State) (r : Ref .hash) : List String := (s.hash r).entries.map fun e => e.1.toText

/-- No two keys of the hash clash. -/
def NoClash (s : State) (r : Ref .hash) : Prop :=
  ∀ j ∈ (s.hash r).keys, ∀ k ∈ (s.hash r).keys, ¬ Key.Clash j k

/-- The names of a hash are different just if no two of its keys clash. -/
theorem nodup_names_iff {r : Ref .hash} : (names s r).Nodup ↔ NoClash s r := by
  have hkeys : names s r = (s.hash r).keys.map Key.toText := by
    rw [Assoc.keys, List.map_map]
    rfl
  rw [hkeys]
  exact Key.nodup_texts_iff (s.hash r).distinct.nodup

/-! ### The document of a value -/

/-- The document of a value without parts. -/
inductive Single (s : State) : Json → Value → Prop
  | null : Single s null .nil
  | bool (b : Bool) : Single s (bool b) (.bool b)
  | int (n : Int64) : Single s (int n.toInt) (.int n)
  | uint (n : UInt64) : Single s (int n.toNat) (.uint n)
  | real {x : Float} : x.isFinite = true → Single s (real x) (.float x)
  | decimal {d : Decimal} {j : Json} : ofText (d.jsonText s.settings.bareDecimals) = .ok j →
      Single s j (.decimal d)
  | text (t : String) : Single s (text t) (.text t)

/-- The document of a container, of those of its parts. The members of a hash are what is left when
they are stored one by one under their names, so that a later one replaces an earlier one. -/
inductive Assembled (s : State) : Value → List Json → Json → Prop
  | array (r : Ref .array) (js : List Json) : Assembled s (.array r) js (.array js)
  | tuple (r : Ref .tuple) (js : List Json) : Assembled s (.tuple r) js (.array js)
  | hash {r : Ref .hash} {js : List Json} {members : List (String × Json)} :
      (Change.stores ((names s r).zip js)).Leaves members →
      Assembled s (.hash r) js (.object members)
  | object (r : Ref .object) (js : List Json) :
      Assembled s (.object r) js (.object (((fields s r).map (·.1)).zip js))

/-- A document that is put together from the documents of parts, and so on, as `B` says. -/
inductive Composed (s : State) (B : Value → List Json → Json → Prop) : Json → Value → Prop
  | single {j : Json} {v : Value} : Single s j v → Composed s B j v
  | built {js : List Json} {j : Json} {v : Value} : B v js j →
      List.Forall₂ (Composed s B) js (parts s v) → Composed s B j v

/-- Induction over how a document is put together. -/
theorem Composed.induct {B : Value → List Json → Json → Prop} {P : Json → Value → Prop}
    (single : ∀ {j v}, Single s j v → P j v)
    (built : ∀ {js j v}, B v js j →
      List.Forall₂ (fun j w => Composed s B j w ∧ P j w) js (parts s v) → P j v)
    {j : Json} {v : Value} (h : Composed s B j v) : P j v :=
  -- a document is inside of a list of documents, so the predicate goes along with that list
  @Composed.rec s B (fun j v _ => P j v)
    (fun js vs _ => List.Forall₂ (fun j w => Composed s B j w ∧ P j w) js vs)
    single (fun hbuilt _ ih => built hbuilt ih) .nil (fun hj _ ihj ih => .cons ⟨hj, ihj⟩ ih) j v h

/-- The document of a value. -/
abbrev Written (s : State) : Json → Value → Prop := Composed s (Assembled s)

/-- The document of a value in which each hash has one member for each of its entries, in their order,
with the text of the key for a name and the document of the value. -/
abbrev Complete (s : State) : Json → Value → Prop :=
  Composed s fun v js j => Assembled s v js j ∧ ∀ r, v = .hash r → j = .object ((names s r).zip js)

/-! ### What the writer does -/

/-- A result of what a result is made into. -/
theorem map_eq_ok_iff {α β : Type} {x : Except String α} {f : α → β} {b : β} :
    x.map f = .ok b ↔ ∃ a, x = .ok a ∧ f a = b := by
  cases x with
  | error e => exact ⟨nofun, nofun⟩
  | ok a =>
    constructor
    · intro h
      exact ⟨a, rfl, Except.ok.inj h⟩
    · rintro ⟨_, ⟨⟩, rfl⟩
      rfl

/-- What is made of each of a list, one after the other, up to the first error. -/
theorem eachOf_eq_ok_iff {α β : Type} {f : α → Except String β} {as : List α} {bs : List β} :
    eachOf f as = .ok bs ↔ List.Forall₂ (fun b a => f a = .ok b) bs as := by
  refine ⟨fun h => ?_, eachOf_eq_ok⟩
  induction as generalizing bs with
  | nil =>
    obtain rfl := Except.ok.inj h
    exact .nil
  | cons a as ih =>
    rw [eachOf] at h
    split at h
    · cases h
    · next b hb =>
      obtain ⟨bs, hbs, rfl⟩ := map_eq_ok_iff.mp h
      exact .cons hb (ih hbs)

/-- Named things are written one by one under their names. -/
theorem eachOf_named_eq_ok_iff {α : Type} {f : Value → Except String Json} (name : α → String)
    {entries : List (α × Value)} {members : List (String × Json)} :
    eachOf (fun e : α × Value => (f e.2).map fun j => (name e.1, j)) entries = .ok members ↔
      ∃ js, List.Forall₂ (fun j w => f w = .ok j) js (entries.map (·.2)) ∧
        members = (entries.map fun e => name e.1).zip js := by
  rw [eachOf_eq_ok_iff]
  -- the name goes along with its document, so both lists grow together
  induction entries generalizing members with
  | nil =>
    constructor
    · rintro ⟨⟩
      exact ⟨[], .nil, rfl⟩
    · rintro ⟨_, -, rfl⟩
      exact .nil
  | cons e entries ih =>
    constructor
    · rintro (_ | ⟨hmember, hrest⟩)
      obtain ⟨j, hj, rfl⟩ := map_eq_ok_iff.mp hmember
      obtain ⟨js, hjs, rfl⟩ := ih.mp hrest
      exact ⟨j :: js, .cons hj hjs, rfl⟩
    · rintro ⟨_, _ | ⟨hj, hjs⟩, rfl⟩
      exact .cons (map_eq_ok_iff.mpr ⟨_, hj, rfl⟩) (ih.mpr ⟨_, hjs, rfl⟩)

/-- Without a level left only what has no parts is written. -/
theorem ofValueWithin_zero_iff : ofValueWithin s 0 v = .ok j ↔ Single s j v := by
  constructor
  · intro h
    cases v with
    | nil =>
      obtain rfl := Except.ok.inj h
      exact .null
    | bool b =>
      obtain rfl := Except.ok.inj h
      exact .bool b
    | int n =>
      obtain rfl := Except.ok.inj h
      exact .int n
    | uint n =>
      obtain rfl := Except.ok.inj h
      exact .uint n
    | float x =>
      rw [ofValueWithin] at h
      split at h
      · next hx =>
        obtain rfl := Except.ok.inj h
        exact .real hx
      · cases h
    | decimal d => exact .decimal h
    | text t =>
      obtain rfl := Except.ok.inj h
      exact .text t
    | _ => cases h
  · intro h
    cases h with
    | real hx => exact if_pos hx
    | decimal h => exact h
    | _ => rfl

/-- **What is written for a value:** its own document, or one that is put together from those of its
parts, which are written one level less deep. -/
theorem ofValueWithin_succ_iff : ofValueWithin s (n + 1) v = .ok j ↔
    Single s j v ∨ ∃ js, Assembled s v js j ∧
      List.Forall₂ (fun j w => ofValueWithin s n w = .ok j) js (parts s v) := by
  cases v with
  | array r =>
    refine map_eq_ok_iff.trans ⟨?_, ?_⟩
    -- the items are written one level less deep, and an array is made of their documents
    · rintro ⟨js, hjs, rfl⟩
      exact .inr ⟨js, .array r js, eachOf_eq_ok_iff.mp hjs⟩
    · rintro (hsingle | ⟨js, hbuilt, hjs⟩)
      · exact nomatch hsingle
      · cases hbuilt with
        | array => exact ⟨js, eachOf_eq_ok_iff.mpr hjs, rfl⟩
  | tuple r =>
    refine map_eq_ok_iff.trans ⟨?_, ?_⟩
    · rintro ⟨js, hjs, rfl⟩
      exact .inr ⟨js, .tuple r js, eachOf_eq_ok_iff.mp hjs⟩
    · rintro (hsingle | ⟨js, hbuilt, hjs⟩)
      · exact nomatch hsingle
      · cases hbuilt with
        | tuple => exact ⟨js, eachOf_eq_ok_iff.mpr hjs, rfl⟩
  | hash r =>
    refine map_eq_ok_iff.trans ⟨?_, ?_⟩
    · rintro ⟨members, hmembers, rfl⟩
      -- the members are stored under their names, and the last one with a name stays
      obtain ⟨js, hjs, rfl⟩ := (eachOf_named_eq_ok_iff Key.toText).mp hmembers
      exact .inr ⟨js, .hash (History.leaves_ofList _), hjs⟩
    · rintro (hsingle | ⟨js, hbuilt, hjs⟩)
      · exact nomatch hsingle
      · cases hbuilt with
        | hash hmembers =>
          refine ⟨_, (eachOf_named_eq_ok_iff _).mpr ⟨js, hjs, rfl⟩, congrArg object ?_⟩
          exact (History.leaves_ofList _).unique hmembers
  | object r =>
    refine map_eq_ok_iff.trans ⟨?_, ?_⟩
    · rintro ⟨members, hmembers, rfl⟩
      obtain ⟨js, hjs, rfl⟩ := (eachOf_named_eq_ok_iff fun name => name).mp hmembers
      exact .inr ⟨js, .object r js, hjs⟩
    · rintro (hsingle | ⟨js, hbuilt, hjs⟩)
      · exact nomatch hsingle
      · cases hbuilt with
        | object => exact ⟨_, (eachOf_named_eq_ok_iff fun name => name).mpr ⟨js, hjs, rfl⟩, rfl⟩
  | _ =>
    constructor
    · intro h
      exact .inl (ofValueWithin_zero_iff.mp h)
    · rintro (h | ⟨js, hbuilt, -⟩)
      · exact ofValueWithin_zero_iff.mpr h
      · exact nomatch hbuilt

/-! ### What is written in the end -/

/-- What is written within some depth is the document. -/
theorem written_of_ofValueWithin (h : ofValueWithin s n v = .ok j) : Written s j v := by
  induction n generalizing v j with
  | zero => exact .single (ofValueWithin_zero_iff.mp h)
  | succ n ih =>
    obtain hsingle | ⟨js, hbuilt, hjs⟩ := ofValueWithin_succ_iff.mp h
    · exact .single hsingle
    · exact .built hbuilt (hjs.imp fun _ _ => ih)

/-- What has no parts has none. -/
theorem Single.parts_eq (h : Single s j v) : parts s v = [] := by
  cases h <;> rfl

/-- What has a document is not inside itself. -/
theorem Written.acc (h : Written s j v) : Acc (PartOf s) v := by
  refine Composed.induct (P := fun _ v => Acc (PartOf s) v) (fun hsingle => ?_) (fun _ hjs => ?_) h
  · refine .intro _ fun w hw => ?_
    -- a value without parts; otherwise each of the parts has been dealt with
    rw [PartOf, hsingle.parts_eq] at hw
    exact nomatch hw
  · exact .intro _ (forall_mem_of_forall₂ hjs)

/-- All that can have parts. -/
def composites (s : State) : List Value :=
  s.containers ++ (List.range s.heap.objects.size).map (.object ⟨·⟩)

/-- What has parts is in the heap, at one of the places that are listed. -/
theorem mem_composites (h : PartOf s w v) : v ∈ composites s := by
  rw [composites, List.mem_append]
  cases v with
  | array r => exact .inl (State.mem_containers h)
  | tuple r => exact .inl (State.mem_containers h)
  | hash r => exact .inl (State.mem_containers h)
  | object r =>
    refine .inr (List.mem_map.mpr ⟨r.index, List.mem_range.mpr ?_, rfl⟩)
    -- beyond the last object nothing has fields
    by_contra hlt
    have hnone : s.heap.objects.get? r = none := Array.getElem?_eq_none (Nat.not_lt.mp hlt)
    have hnil : parts s (.object r) = [] := by
      rw [parts, fields, hnone]
      exact congrArg (List.map _) List.mergeSort_nil
    rw [PartOf, hnil] at h
    exact nomatch h
  | _ => exact absurd h List.not_mem_nil

/-- **A document is written for a value if it is the document of the value,** in the sense of
`Written`: the depth that is allowed is enough. -/
theorem ofValue_eq_ok_iff : ofValue s v = .ok j ↔ Written s j v := by
  refine ⟨written_of_ofValueWithin, fun h => ?_⟩
  -- the heap's depth is one more than there are containers and objects
  have hdepth : (composites s).length + 1 = s.heap.depth := by
    rw [composites, List.length_append, List.length_map, List.length_range, s.length_containers]
  rw [ofValue, ← hdepth]
  -- nothing can be inside of more values than there are, so the depth is enough
  refine of_inside (P := fun n v => ∀ j, Written s j v → ofValueWithin s n v = .ok j) ?_ h.acc
    (fun _ _ _ => mem_composites) j h
  intro n v ih j h
  cases h with
  | single hsingle => exact ofValueWithin_succ_iff.mpr (.inl hsingle)
  | built hbuilt hjs =>
    refine ofValueWithin_succ_iff.mpr (.inr ⟨_, hbuilt, ?_⟩)
    exact (forall₂_mem hjs).imp fun j w ⟨_, hw, hwritten⟩ => ih w hw j hwritten

/-! ### Hashes with all of their entries -/

/-- There are as many documents as names. -/
theorem length_names {R : Json → Value → Prop} {r : Ref .hash}
    (h : List.Forall₂ R js (parts s (.hash r))) : js.length = (names s r).length := by
  rw [h.length_eq, names, List.length_map]
  exact List.length_map _

/-- Each entry has its member just if the members' names are different. -/
theorem Assembled.eq_zip_iff {r : Ref .hash} (h : Assembled s (.hash r) js j)
    (hlength : js.length = (names s r).length) :
    j = .object ((names s r).zip js) ↔ (names s r).Nodup := by
  have hzip : ((names s r).zip js).map (·.1) = names s r := List.map_fst_zip hlength.ge
  cases h with
  | hash hmembers =>
    constructor
    · intro heach
      -- what is stored and not replaced is under different names
      obtain rfl := Json.object.inj heach
      rw [← hzip]
      exact hmembers.nodup
    · intro hnodup
      rw [← hzip] at hnodup
      rw [← Assoc.entries_ofList hnodup]
      exact congrArg Json.object (hmembers.unique (History.leaves_ofList _))

/-- A hash is no value without parts. -/
theorem Single.not_hash {r : Ref .hash} : ¬ Single s j (.hash r) := nofun

/-- What is inside of a value is the value, or inside of one of its parts. -/
theorem inside_iff : Inside s w v ↔ w = v ∨ ∃ u, PartOf s u v ∧ Inside s w u := by
  rw [Inside, Relation.ReflTransGen.cases_tail_iff]
  simp only [and_comm, eq_comm]

/-- In a complete document no two keys clash, however far inside the hash is. -/
theorem Complete.noClash (h : Complete s j v) (r : Ref .hash) (hr : Inside s (.hash r) v) :
    NoClash s r := by
  refine Composed.induct (P := fun _ v => Inside s (.hash r) v → NoClash s r) ?single ?built h hr
  case single =>
    intro j v hsingle hr
    obtain rfl | ⟨u, hu, -⟩ := inside_iff.mp hr
    · exact absurd hsingle Single.not_hash
    · rw [PartOf, hsingle.parts_eq] at hu
      exact nomatch hu
  case built =>
    rintro js j v ⟨hbuilt, heach⟩ hjs hr
    obtain rfl | ⟨u, hu, hru⟩ := inside_iff.mp hr
    -- the hash itself: its members are one for each entry
    · exact nodup_names_iff.mp ((hbuilt.eq_zip_iff (length_names hjs)).mp (heach r rfl))
    · exact forall_mem_of_forall₂ hjs u hu hru

/-- **A document has everything of a value just if in no hash inside of the value two keys clash.** -/
theorem Written.complete_iff (h : Written s j v) :
    Complete s j v ↔ ∀ r, Inside s (.hash r) v → NoClash s r := by
  refine ⟨Complete.noClash, ?_⟩
  refine Composed.induct
    (P := fun j v => (∀ r, Inside s (.hash r) v → NoClash s r) → Complete s j v) ?single ?built h
  case single =>
    intro j v hsingle _
    exact .single hsingle
  case built =>
    intro js j v hbuilt hjs hclash
    refine .built ⟨hbuilt, ?_⟩ ((forall₂_mem hjs).imp ?_)
    · rintro r rfl
      exact (hbuilt.eq_zip_iff (length_names hjs)).mpr (nodup_names_iff.mpr (hclash r .refl))
    · rintro j w ⟨-, hw, -, ih⟩
      exact ih fun r hr => hclash r (hr.tail hw)

/-! ### Marshalling -/

/-- A document that is written is the text that is answered. -/
theorem marshal_of_ok (h : ofValue s v = .ok j) (E : Engine) (site : CallSite) :
    Builtin.run E site [v] .jsonMarshal s = .done (.text j.toText) s := by
  have harity : site.exactly 1 [v] s = .done () s := rfl
  have hdocument : Eval.gets (fun s => ofValue s v) s = .done (.ok j) s := congrArg (Run.done · s) h
  exact (Eval.bind_of_done harity _).trans ((Eval.bind_of_done hdocument _).trans rfl)

/-- Where no document is written, the call fails with what is wrong. -/
theorem marshal_of_error {message : String} (h : ofValue s v = .error message) (E : Engine)
    (site : CallSite) :
    Builtin.run E site [v] .jsonMarshal s = .stop (.fault ⟨.json message, site.span⟩) s := by
  have harity : site.exactly 1 [v] s = .done () s := rfl
  have hdocument : Eval.gets (fun s => ofValue s v) s = .done (.error message) s :=
    congrArg (Run.done · s) h
  exact (Eval.bind_of_done harity _).trans ((Eval.bind_of_done hdocument _).trans rfl)

/-- **The document that is written for a value has all entries of its hashes, or two keys clash.** For
every value, `json.marshal` fails with a JSON error if the value has no document, and gives the text
of its document otherwise. In that document each hash, at any depth, has exactly one member for each
entry, with the document of the entry's value, just if in no hash inside of the value two keys
clash.

A value that contains itself has no document. For it the failure is that of the bounded recursion
(`ofValueWithin`); a host that writes without a bound comes to no end. -/
theorem marshal_complete_iff (s : State) (v : Value) (E : Engine) (site : CallSite) :
    (∃ message, (∀ j, ¬ Written s j v) ∧
      Builtin.run E site [v] .jsonMarshal s = .stop (.fault ⟨.json message, site.span⟩) s) ∨
    ∃ j, Written s j v ∧ Builtin.run E site [v] .jsonMarshal s = .done (.text j.toText) s ∧
      (Complete s j v ↔ ∀ r, Inside s (.hash r) v → NoClash s r) := by
  cases hdocument : ofValue s v with
  | error message =>
    refine .inl ⟨message, fun j hj => ?_, marshal_of_error hdocument E site⟩
    rw [ofValue_eq_ok_iff.mpr hj] at hdocument
    exact nomatch hdocument
  | ok j =>
    have hj := ofValue_eq_ok_iff.mp hdocument
    exact .inr ⟨j, hj, marshal_of_ok hdocument E site, hj.complete_iff⟩

/-- Of an entry under `1` and one under `"1"` only the second one is written. -/
theorem marshal_drops_entry :
    let s := State.withHash (.ofList [(.int 1, .text "a"), (.text "1", .text "b")])
    let r : Ref .hash := ⟨0⟩
    (s.hash r).entries.length = 2 ∧
      Builtin.run (.level 1) ⟨State.root, .unknown, "marshal"⟩ [.hash r] .jsonMarshal s =
        .done (.text "\x7b\"1\":\"b\"\x7d") s ∧
      ∀ j, Written s j (.hash r) → j = .object [("1", .text "b")] ∧ ¬ Complete s j (.hash r) := by
  intro s r
  -- both entries have the name "1", so the second one replaces the first
  have hdocument : ofValue s (.hash r) = .ok (.object [("1", .text "b")]) := rfl
  refine ⟨rfl, marshal_of_ok hdocument _ _, fun j hj => ⟨?_, fun hcomplete => ?_⟩⟩
  · exact Except.ok.inj ((ofValue_eq_ok_iff.mpr hj).symm.trans hdocument)
  · have hclash : Key.Clash (.int 1) (.text "1") := @Key.Clash.text (.int 1) nofun
    exact hcomplete.noClash r .refl _ List.mem_cons_self _
      (List.mem_cons_of_mem _ List.mem_cons_self) hclash

end Json

end ScriptEngine
