import Mathlib.Data.List.Forall2
import Mathlib.Data.List.Nodup
import ScriptEngine.Proofs.Run.Ends

/-!
# Arrays and hashes that are made

A value is made of a tree by making its parts and then an array or a hash of them. That leaves the
arrays and hashes there are as they are (`Keeps`), so what holds of a part lasts while others are made
(`Lasts`). `Makes m R` says that `m` gives a result of which `R` holds, and leaves what there is; the
lemmas about it go up a tree, from the parts to the array or the hash. Parts are compared with what
they are made of one by one, which keeps their order.
-/

namespace ScriptEngine

/-- What arrays and hashes there are stays as it is. -/
structure Keeps (s t : State) : Prop where
  arrays : ∀ {r items}, s.heap.arrays.get? r = some items → t.heap.arrays.get? r = some items
  hashes : ∀ {r entries}, s.heap.hashes.get? r = some entries →
    t.heap.hashes.get? r = some entries

theorem Keeps.refl (s : State) : Keeps s s := ⟨id, id⟩

theorem Keeps.trans {s t u : State} (h : Keeps s t) (h' : Keeps t u) : Keeps s u :=
  ⟨fun hr => h'.arrays (h.arrays hr), fun hr => h'.hashes (h.hashes hr)⟩

theorem newArrayOf_keeps (items : List Value) (s : State) :
    ∃ r t, Eval.newArrayOf items s = .done (.array r) t ∧
      t.heap.arrays.get? r = some items.toArray ∧ Keeps s t :=
  ⟨_, _, rfl, Table.get?_add_self _ _, fun hr => Table.get?_add_of_some _ _ hr, id⟩

theorem newHash_keeps (entries : Assoc Key Value) (s : State) :
    ∃ r t, Eval.newHash entries s = .done (.hash r) t ∧
      t.heap.hashes.get? r = some entries ∧ Keeps s t :=
  ⟨_, _, rfl, Table.get?_add_self _ _, id, fun hr => Table.get?_add_of_some _ _ hr⟩

/-! ### Items and entries -/

/-- What is true of all on either side can be used for each pair. -/
theorem forall₂_mem {α β : Type} {R : α → β → Prop} {as : List α} {bs : List β}
    (h : List.Forall₂ R as bs) :
    List.Forall₂ (fun a b => a ∈ as ∧ b ∈ bs ∧ R a b) as bs := by
  induction h with
  | nil => exact .nil
  | cons hab _ ih =>
    refine .cons ⟨List.mem_cons_self, List.mem_cons_self, hab⟩ (ih.imp fun a b h => ?_)
    exact ⟨List.mem_cons_of_mem _ h.1, List.mem_cons_of_mem _ h.2.1, h.2.2⟩

theorem forall_mem_of_forall₂ {α β : Type} {R : α → β → Prop} {P : β → Prop} {as : List α}
    {bs : List β} (h : List.Forall₂ (fun a b => R a b ∧ P b) as bs) : ∀ b ∈ bs, P b := by
  induction h with
  | nil => exact nofun
  | cons hab _ ih => exact List.forall_mem_cons.mpr ⟨hab.2, ih⟩

/-- Named things and the entries of a hash that stand for them, one by one: the keys are the names in
their order, and the values stand for what is named. -/
theorem forall₂_entries_iff {α : Type} {R : α → Value → Prop} {members : List (String × α)}
    {entries : List (Key × Value)} :
    List.Forall₂ (fun m e => e.1 = .text m.1 ∧ R m.2 e.2) members entries ↔
      entries.map (·.1) = members.map (.text ·.1) ∧
        List.Forall₂ R (members.map (·.2)) (entries.map (·.2)) := by
  -- by induction on the members, each of which has one entry
  induction members generalizing entries with
  | nil =>
    constructor
    · rintro ⟨⟩
      exact ⟨rfl, .nil⟩
    · rintro ⟨hkeys, -⟩
      rw [List.map_eq_nil_iff.mp hkeys]
      exact .nil
  | cons m members ih =>
    cases entries with
    | nil => exact ⟨nofun, nofun⟩
    | cons e entries =>
      rw [List.forall₂_cons, ih]
      simp only [List.map_cons, List.cons.injEq, List.forall₂_cons]
      tauto

/-! ### Making values -/

section

variable {α β γ : Type}

/-- The computation gives a result of which `R` holds, and leaves the arrays and hashes there are. -/
def Makes (m : Eval α) (R : State → α → Prop) : Prop :=
  ∀ s, ∃ a t, m s = .done a t ∧ R t a ∧ Keeps s t

/-- What holds of a result as long as the arrays and hashes there are stay. -/
def Lasts (R : State → α → Prop) : Prop := ∀ {s t a}, R s a → Keeps s t → R t a

theorem Makes.pure {a : α} {R : State → α → Prop} (h : ∀ s, R s a) : Makes (Pure.pure a) R :=
  fun s => ⟨a, s, rfl, h s, .refl s⟩

theorem Makes.bind {m : Eval α} {f : α → Eval β} {R : State → α → Prop} {Q : State → β → Prop}
    (hm : Makes m R) (hf : ∀ a, Makes (f a) Q) : Makes (m >>= f) Q := by
  intro s
  -- each of the two leaves what there is
  obtain ⟨a, t, hmake, -, hst⟩ := hm s
  obtain ⟨b, u, hmakes, hb, htu⟩ := hf a t
  exact ⟨b, u, (Eval.bind_of_done hmake _).trans hmakes, hb, hst.trans htu⟩

/-- Parts are made one by one. `all` is the loop that makes them, and `g` what it takes each for. -/
theorem makes_each {R : α → State → γ → Prop} {f : α → Eval β} {g : α → β → γ}
    (all : List α → Eval (List γ)) (hnil : all [] = Pure.pure [])
    (hcons : ∀ a as, all (a :: as) =
      f a >>= fun b => all as >>= fun cs => Pure.pure (g a b :: cs))
    (hlasts : ∀ a, Lasts (R a)) {as : List α}
    (h : ∀ a ∈ as, Makes (f a) fun t b => R a t (g a b)) :
    Makes (all as) fun t cs => List.Forall₂ (R · t) as cs := by
  -- by induction on the parts
  induction as with
  | nil =>
    rw [hnil]
    exact .pure fun _ => .nil
  | cons a as ih =>
    obtain ⟨ha, has⟩ := List.forall_mem_cons.mp h
    intro s
    obtain ⟨b, t, hmake, hb, hst⟩ := ha s
    -- what the first is made into lasts while the others are made
    obtain ⟨cs, u, hmakes, hcs, htu⟩ := ih has t
    refine ⟨g a b :: cs, u, ?_, .cons (hlasts a hb htu) hcs, hst.trans htu⟩
    rw [hcons, Eval.bind_of_done hmake, Eval.bind_of_done hmakes]
    rfl

variable {toValue : α → Eval Value} {D : State → α → Value → Prop}

/-- An array is made of things: its items stand for them. -/
theorem makes_array (all : List α → Eval (List Value)) (hnil : all [] = Pure.pure [])
    (hcons : ∀ a as, all (a :: as) =
      toValue a >>= fun v => all as >>= fun vs => Pure.pure (v :: vs))
    (hlasts : ∀ a, Lasts (D · a)) {items : List α}
    (h : ∀ a ∈ items, Makes (toValue a) (D · a)) :
    Makes (all items >>= Eval.newArrayOf) fun t v =>
      ∃ r vs, v = .array r ∧ t.heap.arrays.get? r = some vs ∧
        List.Forall₂ (D t) items vs.toList := by
  intro s
  obtain ⟨vs, t, hmake, hvs, hst⟩ :=
    makes_each (R := fun a t => D t a) (g := fun _ v => v) all hnil hcons hlasts h s
  obtain ⟨r, u, hnew, hr, htu⟩ := newArrayOf_keeps vs t
  refine ⟨.array r, u, (Eval.bind_of_done hmake _).trans hnew, ⟨r, _, rfl, hr, ?_⟩, hst.trans htu⟩
  -- the array is made last, and what the items stand for lasts
  exact hvs.imp fun a _ hv => hlasts a hv htu

/-- A hash is made of things with different names: its keys are the names in their order, and its
values stand for the things. -/
theorem makes_hash (all : List (String × α) → Eval (List (Key × Value)))
    (hnil : all [] = Pure.pure [])
    (hcons : ∀ m ms, all (m :: ms) =
      toValue m.2 >>= fun v => all ms >>= fun es => Pure.pure ((.text m.1, v) :: es))
    (hlasts : ∀ a, Lasts (D · a)) {members : List (String × α)}
    (hnodup : (members.map (·.1)).Nodup) (h : ∀ m ∈ members, Makes (toValue m.2) (D · m.2)) :
    Makes (all members >>= fun es => Eval.newHash (.ofList es)) fun t v =>
      ∃ r es, v = .hash r ∧ t.heap.hashes.get? r = some es ∧
        es.keys = members.map (.text ·.1) ∧ List.Forall₂ (D t) (members.map (·.2)) es.values := by
  intro s
  let entry (m : String × α) (t : State) (e : Key × Value) : Prop := e.1 = .text m.1 ∧ D t m.2 e.2
  have hentries : ∀ m ∈ members, Makes (toValue m.2) fun t v => entry m t (.text m.1, v) :=
    fun m hm s => by
      obtain ⟨v, t, hmake, hv, hst⟩ := h m hm s
      exact ⟨v, t, hmake, ⟨rfl, hv⟩, hst⟩
  have hentry : ∀ m, Lasts (entry m) := fun m _ _ _ he hkeeps =>
    ⟨he.1, hlasts m.2 he.2 hkeeps⟩
  obtain ⟨es, t, hmake, hes, hst⟩ :=
    makes_each (g := fun m v => (.text m.1, v)) all hnil hcons hentry hentries s
  obtain ⟨hkeys, hvalues⟩ := forall₂_entries_iff.mp hes
  -- different names are different keys, so none replaces another
  have hdistinct : (es.map (·.1)).Nodup := by
    have htexts : members.map (fun m => Key.text m.1) = (members.map (·.1)).map .text :=
      List.map_map.symm
    rw [hkeys, htexts]
    exact hnodup.map fun _ _ h => Key.text.inj h
  obtain ⟨r, u, hnew, hr, htu⟩ := newHash_keeps (.ofList es) t
  refine ⟨.hash r, u, (Eval.bind_of_done hmake _).trans hnew, ⟨r, _, rfl, hr, ?_, ?_⟩,
    hst.trans htu⟩
  · rw [Assoc.keys, Assoc.entries_ofList hdistinct, hkeys]
  · rw [Assoc.values, Assoc.entries_ofList hdistinct]
    exact hvalues.imp fun a _ hv => hlasts a hv htu

end

end ScriptEngine
