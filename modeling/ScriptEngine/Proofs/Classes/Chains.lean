import ScriptEngine.Machine.Class

/-!
# Chains of classes

A table of classes is *sound* if every class that has a parent was declared after it and shares its
category, and if only annotations, and the root of all normal classes, have none
(`ClassTable.Sound`). In a sound table a walk from a class to its parent and on ends before the
indices run out, at the root or at an annotation; so the bound on the steps of `ClassTable.chain`
cuts nothing off (`Sound.chainWithin_eq`), a chain is what a class descends from
(`Sound.mem_chain_iff`), and it ends in the one ancestor without a parent
(`Sound.getLast?_chain`).

A class is never changed but for the values of its static fields (`ClassTable.Extends`), so what its
chain declares stays the same for ever (`Extends.findAlong_eq`). New classes are admitted to a sound
table if their parents are there and share their category (`ClassTable.Admits`, `Sound.add`).
-/

namespace ScriptEngine

/-- The same class, but for the values of its static fields. -/
def ClassDef.Same (c d : ClassDef) : Prop := ∃ statics, d = { c with statics }

/-- A class is itself. -/
theorem ClassDef.Same.refl (c : ClassDef) : c.Same c := ⟨c.statics, rfl⟩

/-- Static fields may be written to twice. -/
theorem ClassDef.Same.trans {c d e : ClassDef} (h : c.Same d) (h' : d.Same e) : c.Same e := by
  obtain ⟨_, rfl⟩ := h
  obtain ⟨statics, rfl⟩ := h'
  exact ⟨statics, rfl⟩

/-- The functions of a class were written as what they serve as: those of its methods as methods, and
what its properties and its indexer are read and written with as accessors. -/
structure ClassDef.Written (c : ClassDef) : Prop where
  method : ∀ {name m}, c.methods.get? name = some m → m.closure.origin = .method
  property : ∀ {name p f}, c.properties.get? name = some p → p.getter = some f ∨ p.setter = some f →
    f.origin = .accessor
  indexer : ∀ {i f}, c.indexer = some i → i.getter = some f ∨ i.setter = some f →
    f.origin = .accessor

namespace ClassDef.Written

/-- Static fields are no functions of a class. -/
theorem of_same {c d : ClassDef} (h : c.Written) (hsame : c.Same d) : d.Written := by
  obtain ⟨_, rfl⟩ := hsame
  exact ⟨h.method, h.property, h.indexer⟩

/-- The parent of a class has no part in it. -/
theorem of_parent {c : ClassDef} (h : c.Written) (parent : Option (Ref .classDef)) :
    ClassDef.Written { c with parent } :=
  ⟨h.method, h.property, h.indexer⟩

/-- A class without members has no functions. -/
theorem bare (name : String) (category : Category) (marker : Option Marker) :
    (ClassTable.bare name category marker).Written :=
  ⟨nofun, nofun, nofun⟩

end ClassDef.Written

namespace ClassTable

variable {t u : ClassTable} {r p q : Ref .classDef} {c d : ClassDef} {α : Type}

/-- `other` is `r` or one of its ancestors. -/
inductive Descends (t : ClassTable) : Ref .classDef → Ref .classDef → Prop
  | refl (r : Ref .classDef) : Descends t r r
  | parent {r up other : Ref .classDef} {c : ClassDef} :
      t.class? r = some c → c.parent = some up → Descends t up other → Descends t r other

/-- What stands on a chain is what the class descends from. -/
theorem descends_of_mem_chainWithin {t : ClassTable} {fuel : Nat} {r other : Ref .classDef}
    {c : ClassDef} (h : (other, c) ∈ t.chainWithin fuel r) : t.Descends r other := by
  induction fuel generalizing r with
  | zero => exact nomatch h
  | succ fuel ih =>
    unfold chainWithin at h
    split at h
    · exact nomatch h
    · next d hd =>
      obtain h | h := List.mem_cons.mp h
      · obtain ⟨rfl, -⟩ := Prod.mk.inj h
        exact .refl _
      · split at h
        · exact nomatch h
        · next up hup => exact .parent hd hup (ih h)

/-- What a class is found to be a subclass of is on its chain. -/
theorem descends_of_isSubclass {t : ClassTable} {r other : Ref .classDef}
    (h : t.isSubclass r other = true) : t.Descends r other := by
  obtain ⟨⟨found, c⟩, hmem, hfound⟩ := List.any_eq_true.mp h
  obtain rfl : found = other := by simpa using hfound
  exact descends_of_mem_chainWithin hmem

/-- What stands on a chain is in the table. -/
theorem class?_of_mem_chainWithin {fuel : Nat} (h : (q, d) ∈ t.chainWithin fuel r) :
    t.class? q = some d := by
  induction fuel generalizing r with
  | zero => exact nomatch h
  | succ fuel ih =>
    unfold chainWithin at h
    split at h
    · exact nomatch h
    · next c hc =>
      obtain h | h := List.mem_cons.mp h
      · obtain ⟨rfl, rfl⟩ := Prod.mk.inj h
        exact hc
      · split at h
        · exact nomatch h
        · exact ih h

/-! ### Looking along a chain -/

/-- Nothing is found just if no class of the chain has it. -/
theorem findAlong_eq_none_iff {f : ClassDef → Option α} :
    t.findAlong r f = none ↔ ∀ p ∈ t.chain r, f p.2 = none := by
  simp [findAlong, List.findSome?_eq_none_iff]

/-- What is found is in a class of the chain. -/
theorem exists_of_findAlong {f : ClassDef → Option α} {owner : Ref .classDef} {a : α}
    (h : t.findAlong r f = some (owner, a)) : ∃ p ∈ t.chain r, p.1 = owner ∧ f p.2 = some a := by
  obtain ⟨p, hp, hfound⟩ := List.exists_of_findSome?_eq_some h
  obtain ⟨_, hf, heq⟩ := Option.map_eq_some_iff.mp hfound
  cases heq
  exact ⟨p, hp, rfl, hf⟩

/-- Something is found just if some class of the chain has it. -/
theorem isSome_findAlong_iff {f : ClassDef → Option α} :
    (t.findAlong r f).isSome ↔ ∃ p ∈ t.chain r, (f p.2).isSome := by
  rw [← Option.ne_none_iff_isSome, Ne, findAlong_eq_none_iff]
  simp [Option.ne_none_iff_isSome]

/-- The names of the instance fields that the classes of a chain declare. -/
def fieldNames (t : ClassTable) (r : Ref .classDef) : List String :=
  (t.chain r).flatMap fun p => p.2.fields.map (·.name)

/-- A field is found if it is declared. -/
theorem isSome_findField_iff {name : String} :
    (t.findField r name).isSome ↔ name ∈ t.fieldNames r := by
  unfold findField fieldNames
  rw [isSome_findAlong_iff]
  simp [List.find?_isSome]

/-! ### Soundness -/

/-- The classes of `t` are classes of `u`, with the same members. -/
def Extends (t u : ClassTable) : Prop :=
  ∀ r c, t.class? r = some c → ∃ d, u.class? r = some d ∧ c.Same d

/-- Parents were declared before their children and share their category; a class without a parent
is an annotation, or the root of all normal classes. Only built-in classes ask anything of methods,
methods go by the names they are declared under, and functions serve as what they were written as. -/
structure Sound (t : ClassTable) : Prop where
  builtin : builtin.Extends t
  parent : ∀ {r c p}, t.class? r = some c → c.parent = some p →
    p.index < r.index ∧ ∃ d, t.class? p = some d ∧ d.category = c.category
  root : ∀ {r c}, t.class? r = some c → c.parent = none → c.category = .normal → r = base
  marker : ∀ {r c m}, t.class? r = some c → c.marker = some m →
    ∃ d, ClassTable.builtin.class? r = some d
  methods : ∀ {r c name m}, t.class? r = some c → c.methods.get? name = some m →
    m.closure.name = name
  written : ∀ {r c}, t.class? r = some c → c.Written

/-- A class that can be added to a sound table. -/
structure Admits (t : ClassTable) (c : ClassDef) : Prop where
  parent : ∀ p, c.parent = some p → ∃ d, t.class? p = some d ∧ d.category = c.category
  root : c.parent = none → c.category = .marking
  marker : c.marker = none
  methods : ∀ name m, c.methods.get? name = some m → m.closure.name = name
  written : c.Written

namespace Extends

/-- A table has its own classes. -/
theorem refl (t : ClassTable) : t.Extends t := fun _ c hc => ⟨c, hc, .refl c⟩

/-- Tables are added to again. -/
theorem trans {v : ClassTable} (h : t.Extends u) (h' : u.Extends v) : t.Extends v := by
  intro r c hc
  obtain ⟨d, hd, hcd⟩ := h r c hc
  obtain ⟨e, he, hde⟩ := h' r d hd
  exact ⟨e, he, hcd.trans hde⟩

/-- A class that is there stays there. -/
theorem isSome (h : t.Extends u) (hr : (t.class? r).isSome) : (u.class? r).isSome := by
  obtain ⟨c, hc⟩ := Option.isSome_iff_exists.mp hr
  obtain ⟨d, hd, -⟩ := h r c hc
  exact Option.isSome_iff_exists.mpr ⟨d, hd⟩

end Extends

/-- A class keeps its place when another one is added. -/
theorem class?_add_of_some (hc : t.class? r = some c) (d : ClassDef) :
    (t.add d).2.class? r = some c := by
  obtain ⟨hr, -⟩ := Array.getElem?_eq_some_iff.mp hc
  simpa [class?, add, Array.getElem?_push, Nat.ne_of_lt hr] using hc

/-- A class of a table with one more is one that was there, or the new one. -/
theorem class?_add_cases (h : (t.add d).2.class? r = some c) :
    t.class? r = some c ∨ r = ⟨t.classes.size⟩ ∧ c = d := by
  simp only [class?, add, Array.getElem?_push] at h
  split at h
  · next hr => exact .inr ⟨congrArg Ref.mk hr, (Option.some.inj h).symm⟩
  · exact .inl h

/-- A class that is added leaves the others as they are. -/
theorem extends_add (t : ClassTable) (d : ClassDef) : t.Extends (t.add d).2 :=
  fun _ c hc => ⟨c, class?_add_of_some hc d, .refl c⟩

/-- What becomes of a class when a static field is written to. -/
theorem class?_setStatic (t : ClassTable) (q r : Ref .classDef) (name : String) (v : Value) :
    (t.setStatic q name v).class? r =
      if q.index = r.index then
        (t.class? r).map fun c => { c with statics := c.statics.insert name v }
      else t.class? r := by
  simp [class?, setStatic, Array.getElem?_modify]

/-- A static field that is written to leaves all classes the same but for its value. -/
theorem extends_setStatic (t : ClassTable) (q : Ref .classDef) (name : String) (v : Value) :
    t.Extends (t.setStatic q name v) := by
  intro r c hc
  rw [class?_setStatic]
  split
  · exact ⟨_, by rw [hc]; rfl, _, rfl⟩
  · exact ⟨c, hc, .refl c⟩

/-- A class of a table whose static fields have been written to was there before. -/
theorem same_of_setStatic {name : String} {v : Value}
    (h : (t.setStatic q name v).class? r = some d) : ∃ c, t.class? r = some c ∧ c.Same d := by
  rw [class?_setStatic] at h
  split at h
  · obtain ⟨c, hc, rfl⟩ := Option.map_eq_some_iff.mp h
    exact ⟨c, hc, _, rfl⟩
  · exact ⟨d, h, .refl d⟩

/-- The built-in table is sound: it has the root of all normal classes and three annotations. -/
theorem sound_builtin : builtin.Sound := by
  have hcases : ∀ {r c}, builtin.class? r = some c →
      r = base ∧ c = bare "object" .normal none ∨
        c.parent = none ∧ c.category = .marking ∧ ∃ name marker, c = bare name .marking marker := by
    intro r c h
    obtain ⟨i⟩ := r
    match i, h with
    | 0, rfl => exact .inl ⟨rfl, rfl⟩
    | 1, rfl | 2, rfl | 3, rfl => exact .inr ⟨rfl, rfl, _, _, rfl⟩
  refine ⟨.refl _, fun h hp => ?_, fun h _ hnormal => ?_, fun h _ => ⟨_, h⟩, fun h hm => ?_,
    fun h => ?_⟩
  · obtain ⟨rfl, rfl⟩ | ⟨hnone, -⟩ := hcases h
    · exact nomatch hp
    · exact nomatch hnone.symm.trans hp
  · obtain ⟨hbase, -⟩ | ⟨-, hmarking, -⟩ := hcases h
    · exact hbase
    · exact nomatch hmarking.symm.trans hnormal
  · obtain ⟨-, rfl⟩ | ⟨-, -, _, _, rfl⟩ := hcases h <;> exact nomatch hm
  · obtain ⟨-, rfl⟩ | ⟨-, -, _, _, rfl⟩ := hcases h <;> exact .bare _ _ _

namespace Sound

/-- **A class is declared.** -/
theorem add (h : t.Sound) (hd : t.Admits d) : (t.add d).2.Sound := by
  refine ⟨h.builtin.trans (extends_add t d), fun hc hp => ?_, fun hc hp hnormal => ?_,
    fun hc hm => ?_, fun hc hm => ?_, fun hc => ?_⟩
  -- each condition holds of a class that was there, and is asked of the one that is added
  · obtain hc | ⟨rfl, rfl⟩ := class?_add_cases hc
    · obtain ⟨hlt, e, he, hcat⟩ := h.parent hc hp
      exact ⟨hlt, e, class?_add_of_some he d, hcat⟩
    · -- the parent is there already, so its index is smaller
      obtain ⟨e, he, hcat⟩ := hd.parent _ hp
      obtain ⟨hlt, -⟩ := Array.getElem?_eq_some_iff.mp he
      exact ⟨hlt, e, class?_add_of_some he _, hcat⟩
  · obtain hc | ⟨-, rfl⟩ := class?_add_cases hc
    · exact h.root hc hp hnormal
    · exact nomatch (hd.root hp).symm.trans hnormal
  · obtain hc | ⟨-, rfl⟩ := class?_add_cases hc
    · exact h.marker hc hm
    · exact nomatch hd.marker.symm.trans hm
  · obtain hc | ⟨-, rfl⟩ := class?_add_cases hc
    · exact h.methods hc hm
    · exact hd.methods _ _ hm
  · obtain hc | ⟨-, rfl⟩ := class?_add_cases hc
    · exact h.written hc
    · exact hd.written

/-- A static field is written to. -/
theorem setStatic (h : t.Sound) (q : Ref .classDef) (name : String) (v : Value) :
    (t.setStatic q name v).Sound := by
  have hext : t.Extends (t.setStatic q name v) := extends_setStatic t q name v
  refine ⟨h.builtin.trans hext, fun hc hp => ?_, fun hc hp hnormal => ?_, fun hc hm => ?_,
    fun hc hm => ?_, fun hc => ?_⟩
  -- a class of the new table was in the old one, but for its static fields
  all_goals obtain ⟨c, hbefore, _, rfl⟩ := same_of_setStatic hc
  · obtain ⟨hlt, e, he, hcat⟩ := h.parent hbefore hp
    obtain ⟨_, he, _, rfl⟩ := hext _ e he
    exact ⟨hlt, _, he, hcat⟩
  · exact h.root hbefore hp hnormal
  · exact h.marker hbefore hm
  · exact h.methods hbefore hm
  · exact (h.written hbefore).of_same ⟨_, rfl⟩

/-! ### Walks end -/

/-- **A walk along a chain ends by itself:** more steps than the index allows for find nothing
more. -/
theorem chainWithin_eq (h : t.Sound) {fuel : Nat} (hr : r.index < fuel) :
    t.chainWithin fuel r = t.chain r := by
  suffices hany : ∀ fuel fuel', r.index < fuel → r.index < fuel' →
      t.chainWithin fuel r = t.chainWithin fuel' r from hany _ _ hr (Nat.lt_succ_self _)
  clear hr fuel
  intro fuel fuel'
  -- both walks take the same step, to a parent with a smaller index
  induction fuel generalizing r fuel' with
  | zero => exact fun hr => absurd hr (Nat.not_lt_zero _)
  | succ fuel ih =>
    intro hr hr'
    obtain ⟨fuel', rfl⟩ := Nat.exists_eq_add_one_of_ne_zero (Nat.ne_zero_of_lt hr')
    simp only [chainWithin]
    cases hc : t.class? r with
    | none => rfl
    | some c =>
      dsimp only
      cases hp : c.parent with
      | none => rfl
      | some p =>
        have hlt : p.index < r.index := (h.parent hc hp).1
        simp only [List.cons.injEq, true_and]
        exact ih _ (Nat.lt_of_lt_of_le hlt (Nat.le_of_lt_succ hr))
          (Nat.lt_of_lt_of_le hlt (Nat.le_of_lt_succ hr'))

/-- The chain of a class without a parent. -/
theorem chain_of_root (hc : t.class? r = some c) (hp : c.parent = none) : t.chain r = [(r, c)] := by
  simp [chain, chainWithin, hc, hp]

/-- The chain of a class with a parent goes on with the parent's. -/
theorem chain_of_parent (h : t.Sound) (hc : t.class? r = some c) (hp : c.parent = some p) :
    t.chain r = (r, c) :: t.chain p := by
  have hlt : p.index < r.index := (h.parent hc hp).1
  rw [chain, chainWithin, hc]
  simp only [hp]
  rw [h.chainWithin_eq hlt]

/-- **What holds of the roots, and of a class if it holds of its parent, holds of every class.** -/
theorem induction {motive : Ref .classDef → ClassDef → Prop} (h : t.Sound)
    (root : ∀ r c, t.class? r = some c → c.parent = none → motive r c)
    (child : ∀ r c p d, t.class? r = some c → c.parent = some p → t.class? p = some d →
      motive p d → motive r c) (hc : t.class? r = some c) : motive r c := by
  obtain ⟨i⟩ := r
  -- by strong induction on the index, since a parent was declared before
  induction i using Nat.strongRecOn generalizing c with
  | ind i ih =>
    cases hp : c.parent with
    | none => exact root _ c hc hp
    | some p =>
      obtain ⟨hlt, d, hd, -⟩ := h.parent hc hp
      exact child _ c p d hc hp hd (ih p.index hlt hd)

/-- A chain is what a class descends from. -/
theorem mem_chain_iff (h : t.Sound) :
    (q, d) ∈ t.chain r ↔ t.Descends r q ∧ t.class? q = some d := by
  refine ⟨fun hmem => ⟨descends_of_mem_chainWithin hmem, class?_of_mem_chainWithin hmem⟩, ?_⟩
  rintro ⟨hdesc, hq⟩
  induction hdesc with
  -- the class itself is on its chain, whether it has a parent or not
  | refl r =>
    cases hp : d.parent with
    | none => rw [chain_of_root hq hp]; exact .head _
    | some p => rw [h.chain_of_parent hq hp]; exact .head _
  | parent hc hp _ ih =>
    rw [h.chain_of_parent hc hp]
    exact .tail _ (ih hq)

/-- An ancestor has a smaller index, so no class is its own ancestor. -/
theorem index_le (h : t.Sound) (hdesc : t.Descends r q) : q.index ≤ r.index := by
  induction hdesc with
  | refl r => exact Nat.le_refl _
  | parent hc hp _ ih => exact Nat.le_trans ih (Nat.le_of_lt (h.parent hc hp).1)

/-- Ancestors share the category. -/
theorem category_eq (h : t.Sound) (hdesc : t.Descends r q) (hc : t.class? r = some c)
    (hq : t.class? q = some d) : d.category = c.category := by
  induction hdesc generalizing c with
  | refl r =>
    obtain rfl := Option.some.inj (hc.symm.trans hq)
    rfl
  | parent hr hp _ ih =>
    obtain rfl := Option.some.inj (hc.symm.trans hr)
    obtain ⟨-, e, he, hcat⟩ := h.parent hr hp
    exact (ih he hq).trans hcat

/-- The chain of a normal class ends in the root of all normal classes. -/
theorem getLast?_chain (h : t.Sound) (hc : t.class? r = some c) (hnormal : c.category = .normal) :
    (t.chain r).getLast?.map (·.1) = some base := by
  revert hnormal
  refine h.induction (motive := fun r c => c.category = .normal →
    (t.chain r).getLast?.map (·.1) = some base) (fun r c hc hp hnormal => ?_)
    (fun r c p d hc hp hd ih hnormal => ?_) hc
  · rw [chain_of_root hc hp, h.root hc hp hnormal]
    rfl
  · obtain ⟨-, e, he, hcat⟩ := h.parent hc hp
    obtain rfl := Option.some.inj (hd.symm.trans he)
    have hparent := ih (hcat.trans hnormal)
    rw [h.chain_of_parent hc hp]
    cases hchain : t.chain p with
    | nil =>
      rw [hchain] at hparent
      exact nomatch hparent
    | cons entry rest =>
      rw [hchain] at hparent
      rw [List.getLast?_cons_cons]
      exact hparent

/-- The root of all classes declares nothing. -/
theorem fieldNames_base (h : t.Sound) : t.fieldNames base = [] := by
  obtain ⟨_, hc, statics, rfl⟩ := h.builtin base _ rfl
  rw [fieldNames, chain_of_root hc rfl]
  rfl

end Sound

/-! ### Markers -/

/-- The built-in annotation that carries a marker. -/
def marking : Marker → Ref .classDef
  | .overrides => ⟨1⟩
  | .notNull => ⟨2⟩
  | .notEmpty => ⟨3⟩

/-- A built-in class with a marker is the annotation for it. -/
theorem builtin_marker {m : Marker} (h : builtin.class? r = some c) (hm : c.marker = some m) :
    r = marking m ∧ c.parent = none := by
  obtain ⟨i⟩ := r
  match i, h with
  | 0, rfl => exact nomatch hm
  | 1, rfl | 2, rfl | 3, rfl =>
    cases hm
    exact ⟨rfl, rfl⟩

namespace Sound

/-- A class that carries a marker is the built-in annotation of this marker. -/
theorem eq_marking (h : t.Sound) {m : Marker} (hc : t.class? r = some c)
    (hm : c.marker = some m) : r = marking m ∧ c.parent = none := by
  obtain ⟨d, hd⟩ := h.marker hc hm
  obtain ⟨_, hc', statics, rfl⟩ := h.builtin r d hd
  obtain rfl := Option.some.inj (hc.symm.trans hc')
  exact builtin_marker (c := d) hd hm

/-- Every marker is carried by an annotation. -/
theorem exists_marking (h : t.Sound) (m : Marker) :
    ∃ c, t.class? (marking m) = some c ∧ c.marker = some m ∧ c.parent = none := by
  have hbuiltin : ∃ c, ClassTable.builtin.class? (marking m) = some c ∧ c.marker = some m := by
    cases m <;> exact ⟨_, rfl, rfl⟩
  obtain ⟨c, hc, hm⟩ := hbuiltin
  obtain ⟨_, hd, statics, rfl⟩ := h.builtin _ c hc
  exact ⟨_, hd, hm, (builtin_marker hc hm).2⟩

/-- A class descends from one class without a parent only. -/
theorem eq_of_descends_root (hr : t.Descends r p) (hr' : t.Descends r q) {c d : ClassDef}
    (hp : t.class? p = some c) (hnone : c.parent = none) (hq : t.class? q = some d)
    (hnone' : d.parent = none) : p = q := by
  induction hr with
  -- a class without a parent descends from itself only, so both walks end in the same place
  | refl p =>
    cases hr' with
    | refl => rfl
    | parent hc hup =>
      obtain rfl := Option.some.inj (hp.symm.trans hc)
      exact nomatch hnone.symm.trans hup
  | parent hc hup _ ih =>
    cases hr' with
    | refl =>
      obtain rfl := Option.some.inj (hq.symm.trans hc)
      exact nomatch hnone'.symm.trans hup
    | parent hc' hup' hrest =>
      obtain rfl := Option.some.inj (hc.symm.trans hc')
      obtain rfl := Option.some.inj (hup.symm.trans hup')
      exact ih hrest hp

/-- **What an annotation asks for** is what the built-in annotation asks for that it descends
from. -/
theorem markerOf_eq_some_iff (h : t.Sound) {m : Marker} :
    t.markerOf r = some m ↔ t.Descends r (marking m) := by
  unfold markerOf
  rw [Option.map_eq_some_iff]
  constructor
  · rintro ⟨⟨owner, _⟩, hfound, rfl⟩
    obtain ⟨⟨q, d⟩, hmem, rfl, hm⟩ := exists_of_findAlong hfound
    obtain ⟨hdesc, hq⟩ := h.mem_chain_iff.mp hmem
    obtain ⟨rfl, -⟩ := h.eq_marking hq hm
    exact hdesc
  · intro hdesc
    obtain ⟨c, hc, hm, hp⟩ := h.exists_marking m
    have hsome : (t.findAlong r (·.marker)).isSome :=
      isSome_findAlong_iff.mpr ⟨_, h.mem_chain_iff.mpr ⟨hdesc, hc⟩, by rw [hm]; rfl⟩
    obtain ⟨⟨owner, m'⟩, hfound⟩ := Option.isSome_iff_exists.mp hsome
    refine ⟨_, hfound, ?_⟩
    -- both markers are carried by the one root that the annotation descends from
    obtain ⟨⟨q, d⟩, hmem, rfl, hm'⟩ := exists_of_findAlong hfound
    obtain ⟨hdesc', hq⟩ := h.mem_chain_iff.mp hmem
    have hroot : q = marking m :=
      eq_of_descends_root hdesc' hdesc hq (h.eq_marking hq hm').2 hc hp
    subst hroot
    obtain rfl := Option.some.inj (hc.symm.trans hq)
    exact Option.some.inj (hm'.symm.trans hm)

end Sound

/-! ### What stays -/

/-- **What a chain declares, it declares for ever:** a walk that does not look at static fields ends
the same when classes have been added. -/
theorem Extends.findAlong_eq (h : t.Extends u) (ht : t.Sound) (hr : (t.class? r).isSome)
    {f : ClassDef → Option α} (hf : ∀ c statics, f { c with statics } = f c) :
    u.findAlong r f = t.findAlong r f := by
  unfold findAlong chain
  generalize r.index + 1 = fuel
  induction fuel generalizing r with
  | zero => rfl
  | succ fuel ih =>
    obtain ⟨c, hc⟩ := Option.isSome_iff_exists.mp hr
    obtain ⟨_, hd, statics, rfl⟩ := h r c hc
    simp only [chainWithin, hc, hd, List.findSome?_cons, hf]
    split
    · rfl
    · cases hp : c.parent with
      | none => rfl
      | some p =>
        -- the parent is there, too
        obtain ⟨-, e, he, -⟩ := ht.parent hc hp
        exact ih (Option.isSome_iff_exists.mpr ⟨e, he⟩)

/-- The names of the fields that a chain declares stay the same. -/
theorem Extends.mem_fieldNames_iff (h : t.Extends u) (ht : t.Sound) (hr : (t.class? r).isSome)
    {name : String} : name ∈ u.fieldNames r ↔ name ∈ t.fieldNames r := by
  rw [← isSome_findField_iff, ← isSome_findField_iff, findField, findField,
    h.findAlong_eq ht hr fun _ _ => rfl]

end ClassTable

end ScriptEngine
