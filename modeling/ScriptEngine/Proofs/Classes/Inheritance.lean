import ScriptEngine.Proofs.Classes.Annotations
import ScriptEngine.Proofs.Classes.Moves

/-!
# Inherited definitions

A class inherits from its strict ancestors (`ClassTable.Inherits`). A search for a method ends at
the nearest definition, `ClassTable.Nearest`: among the class and its ancestors when the method is
called (`Sound.findMethod_eq_some_iff`), among the strict ancestors when it is called as inherited
(`Sound.findInherited_eq_some_iff`).

The second search starts above the class it is made for and what it finds is where the next one
starts. So in a chain of such searches (`SuperChain`), each class inherits from all that come after
it, and there are fewer of them than there are classes on the chain of the first
(`SuperChain.climbs`). That classes are declared in the meantime makes no difference: a class keeps
its ancestors (`Extends.inherits_iff`).
-/

namespace ScriptEngine

namespace ClassTable

variable {t u : ClassTable} {r p q owner : Ref .classDef} {c d : ClassDef} {name : String}
  {m : MethodDef}

/-! ### Strict ancestors -/

/-- `q` is a strict ancestor of `r`. -/
def Inherits (t : ClassTable) (r q : Ref .classDef) : Prop :=
  ∃ c up, t.class? r = some c ∧ c.parent = some up ∧ t.Descends up q

/-- The ancestors of an ancestor. -/
theorem Descends.trans (h : t.Descends r p) (h' : t.Descends p q) : t.Descends r q := by
  induction h with
  | refl => exact h'
  | parent hc hp _ ih => exact .parent hc hp (ih h')

/-- A strict ancestor is an ancestor. -/
theorem Inherits.descends (h : t.Inherits r q) : t.Descends r q := by
  obtain ⟨c, up, hc, hp, hdesc⟩ := h
  exact .parent hc hp hdesc

/-- The strict ancestors of a strict ancestor. -/
theorem Inherits.trans (h : t.Inherits r p) (h' : t.Inherits p q) : t.Inherits r q := by
  obtain ⟨c, up, hc, hp, hdesc⟩ := h
  exact ⟨c, up, hc, hp, hdesc.trans h'.descends⟩

/-- A class inherits from its parent and whatever this descends from. -/
theorem inherits_eq (hc : t.class? r = some c) (hp : c.parent = some p) :
    t.Inherits r = t.Descends p := by
  funext q
  refine propext ⟨fun ⟨c', up, hc', hup, hdesc⟩ => ?_, fun hdesc => ⟨c, p, hc, hp, hdesc⟩⟩
  obtain rfl := Option.some.inj (hc.symm.trans hc')
  obtain rfl := Option.some.inj (hp.symm.trans hup)
  exact hdesc

namespace Sound

/-- An ancestor of a class that is there is there. -/
theorem isSome_of_descends (h : t.Sound) (hr : (t.class? r).isSome) (hdesc : t.Descends r q) :
    (t.class? q).isSome := by
  -- by induction on the way up: the parent of a class that is there is there
  induction hdesc with
  | refl => exact hr
  | parent hc hp _ ih =>
    obtain ⟨-, d, hd, -⟩ := h.parent hc hp
    exact ih (by rw [hd]; rfl)

/-- Strict ancestors have smaller indices. -/
theorem index_lt (h : t.Sound) (hinh : t.Inherits r q) : q.index < r.index := by
  obtain ⟨c, up, hc, hp, hdesc⟩ := hinh
  exact Nat.lt_of_le_of_lt (h.index_le hdesc) (h.parent hc hp).1

/-- No class is its own strict ancestor. -/
theorem ne_of_inherits (h : t.Sound) (hinh : t.Inherits r q) : r ≠ q := by
  rintro rfl
  exact Nat.lt_irrefl _ (h.index_lt hinh)

/-- A strict ancestor of a class does not descend from it. -/
theorem not_descends (h : t.Sound) (hinh : t.Inherits r q) : ¬ t.Descends q r := by
  intro hdesc
  have hlt := h.index_lt hinh
  have hle := h.index_le hdesc
  omega

/-- The chain of an ancestor is no longer. -/
theorem length_chain_le (h : t.Sound) (hdesc : t.Descends r q) :
    (t.chain q).length ≤ (t.chain r).length := by
  -- each step up takes one class off the chain
  induction hdesc with
  | refl => exact Nat.le_refl _
  | parent hc hp _ ih =>
    rw [h.chain_of_parent hc hp]
    exact Nat.le_succ_of_le ih

/-- The chain of a strict ancestor is shorter. -/
theorem length_chain_lt (h : t.Sound) (hinh : t.Inherits r q) :
    (t.chain q).length < (t.chain r).length := by
  obtain ⟨c, up, hc, hp, hdesc⟩ := hinh
  rw [h.chain_of_parent hc hp]
  exact Nat.lt_succ_of_le (h.length_chain_le hdesc)

end Sound

namespace Extends

/-- A class keeps what it descends from. -/
theorem descends (h : t.Extends u) (hdesc : t.Descends r q) : u.Descends r q := by
  -- every class on the way is there still, with its parent
  induction hdesc with
  | refl => exact .refl _
  | parent hc hp _ ih =>
    obtain ⟨_, hd, statics, rfl⟩ := h _ _ hc
    exact .parent hd hp ih

/-- **A class keeps its ancestors.** -/
theorem descends_iff (h : t.Extends u) (ht : t.Sound) (hr : (t.class? r).isSome) :
    u.Descends r q ↔ t.Descends r q := by
  refine ⟨fun hdesc => ?_, h.descends⟩
  induction hdesc with
  | refl => exact .refl _
  | parent hd hp _ ih =>
    -- a class that was there has the parent it had, and this was there too
    obtain ⟨c, hc⟩ := Option.isSome_iff_exists.mp hr
    obtain ⟨_, hd', statics, rfl⟩ := h _ _ hc
    obtain rfl := Option.some.inj (hd'.symm.trans hd)
    obtain ⟨-, e, he, -⟩ := ht.parent hc hp
    exact .parent hc hp (ih (by rw [he]; rfl))

/-- **It keeps its strict ancestors, too.** -/
theorem inherits_iff (h : t.Extends u) (ht : t.Sound) (hr : (t.class? r).isSome) :
    u.Inherits r q ↔ t.Inherits r q := by
  obtain ⟨c, hc⟩ := Option.isSome_iff_exists.mp hr
  obtain ⟨_, hd, statics, rfl⟩ := h _ _ hc
  cases hp : c.parent with
  -- a class without a parent inherits from nothing, before and after
  | none => simp [Inherits, hc, hd, hp]
  | some up =>
    obtain ⟨-, e, he, -⟩ := ht.parent hc hp
    rw [inherits_eq hc hp, inherits_eq hd hp]
    exact h.descends_iff ht (by rw [he]; rfl)

/-- And its chain keeps its length. -/
theorem length_chain_eq (h : t.Extends u) (ht : t.Sound) (hc : t.class? r = some c) :
    (u.chain r).length = (t.chain r).length := by
  unfold chain
  generalize r.index + 1 = fuel
  -- by induction on the length of the search, which is the same in both tables
  induction fuel generalizing r c with
  | zero => rfl
  | succ fuel ih =>
    obtain ⟨_, hd, statics, rfl⟩ := h _ _ hc
    simp only [chainWithin, hc, hd, List.length_cons]
    cases hp : c.parent with
    | none => rfl
    | some up =>
      obtain ⟨-, e, he, -⟩ := ht.parent hc hp
      rw [ih he]

end Extends

/-! ### The nearest definition -/

/-- Of the classes that satisfy `P`, the class `owner` is the nearest that defines the method: the
others that do are all above it. -/
structure Nearest (t : ClassTable) (P : Ref .classDef → Prop) (name : String)
    (owner : Ref .classDef) (m : MethodDef) : Prop where
  among : P owner
  defines : ∃ c, t.class? owner = some c ∧ c.methods.get? name = some m
  above : ∀ q d, P q → t.class? q = some d → (d.methods.get? name).isSome → t.Descends owner q

/-- There is one nearest definition at most. -/
theorem Sound.nearest_unique (h : t.Sound) {P : Ref .classDef → Prop} {owner' : Ref .classDef}
    {m' : MethodDef} (hn : t.Nearest P name owner m) (hn' : t.Nearest P name owner' m') :
    owner = owner' ∧ m = m' := by
  obtain ⟨c, hc, hm⟩ := hn.defines
  obtain ⟨d, hd, hm'⟩ := hn'.defines
  -- each of the two classes is above the other
  have hle := h.index_le (hn.above owner' d hn'.among hd (by rw [hm']; rfl))
  have hle' := h.index_le (hn'.above owner c hn.among hc (by rw [hm]; rfl))
  obtain rfl : owner = owner' := congrArg Ref.mk (Nat.le_antisymm hle' hle)
  obtain rfl := Option.some.inj (hc.symm.trans hd)
  exact ⟨rfl, Option.some.inj (hm.symm.trans hm')⟩

/-- A method is found in the class itself, or else it is inherited. -/
theorem Sound.findMethod_eq (h : t.Sound) (hc : t.class? r = some c) :
    t.findMethod r name =
      ((c.methods.get? name).map (r, ·)).or (t.findInherited r name) := by
  unfold findInherited findMethod findAlong
  -- the chain of a class is the class itself and the chain of its parent
  rw [hc]
  cases hp : c.parent with
  | none =>
    rw [chain_of_root hc hp]
    cases hm : c.methods.get? name <;> simp [hm, hp]
  | some up =>
    rw [h.chain_of_parent hc hp, List.findSome?_cons]
    cases hm : c.methods.get? name <;> simp [hm, hp]

/-- What a search finds is the nearest definition. -/
theorem Sound.nearest_of_findMethod (h : t.Sound)
    (hfound : t.findMethod r name = some (owner, m)) : t.Nearest (t.Descends r) name owner m := by
  -- something has been found, so the class is there
  obtain ⟨c, hc⟩ : ∃ c, t.class? r = some c := by
    obtain ⟨_, hmem, -⟩ := exists_of_findAlong hfound
    cases hc : t.class? r with
    | none => simp [chain, chainWithin, hc] at hmem
    | some c => exact ⟨c, rfl⟩
  -- every search goes on with that of the parent, unless the class defines the method
  refine h.induction (motive := fun r c => ∀ owner m, t.findMethod r name = some (owner, m) →
    t.Nearest (t.Descends r) name owner m) (fun r c hc hp owner m hfound => ?_)
    (fun r c p d hc hp hd ih owner m hfound => ?_) hc owner m hfound
  all_goals
    rw [h.findMethod_eq hc] at hfound
    cases hm : c.methods.get? name with
    | some own =>
      obtain ⟨rfl, rfl⟩ : r = owner ∧ own = m := by simpa [hm] using hfound
      exact ⟨.refl r, ⟨c, hc, hm⟩, fun q _ hq _ _ => hq⟩
    | none => ?_
  · simp [hm, findInherited, hc, hp] at hfound
  · have hup : t.findMethod p name = some (owner, m) := by
      simpa [hm, findInherited, hc, hp] using hfound
    obtain ⟨hamong, hdefines, habove⟩ := ih owner m hup
    refine ⟨.parent hc hp hamong, hdefines, fun q e hq he hdef => ?_⟩
    cases hq with
    -- the class itself does not define the method
    | refl =>
      obtain rfl := Option.some.inj (hc.symm.trans he)
      simp [hm] at hdef
    | parent hc' hp' hq =>
      obtain rfl := Option.some.inj (hc.symm.trans hc')
      obtain rfl := Option.some.inj (hp.symm.trans hp')
      exact habove q e hq he hdef

/-- **A method is called as the nearest class defines it,** from the receiver's upwards. -/
theorem Sound.findMethod_eq_some_iff (h : t.Sound) :
    t.findMethod r name = some (owner, m) ↔ t.Nearest (t.Descends r) name owner m := by
  refine ⟨h.nearest_of_findMethod, fun hn => ?_⟩
  obtain ⟨c, hc, hm⟩ := hn.defines
  -- the search finds something, and that is the nearest definition, too
  have hsome : (t.findMethod r name).isSome :=
    isSome_findAlong_iff.mpr ⟨(owner, c), h.mem_chain_iff.mpr ⟨hn.among, hc⟩, by simp [hm]⟩
  obtain ⟨⟨owner', m'⟩, hfound⟩ := Option.isSome_iff_exists.mp hsome
  obtain ⟨rfl, rfl⟩ := h.nearest_unique hn (h.nearest_of_findMethod hfound)
  exact hfound

/-- **An inherited method is called as the nearest strict ancestor defines it.** -/
theorem Sound.findInherited_eq_some_iff (h : t.Sound) :
    t.findInherited r name = some (owner, m) ↔ t.Nearest (t.Inherits r) name owner m := by
  unfold findInherited
  cases hc : t.class? r with
  | none =>
    refine ⟨nofun, fun hn => ?_⟩
    -- a class that is not there has no ancestors
    obtain ⟨c, -, hc', -⟩ := hn.among
    exact absurd (hc.symm.trans hc') (by simp)
  | some c =>
    cases hp : c.parent with
    | none =>
      simp only [Option.bind_some, hp]
      refine ⟨nofun, fun hn => ?_⟩
      -- nor has one without a parent
      obtain ⟨c', up, hc', hup, -⟩ := hn.among
      obtain rfl := Option.some.inj (hc.symm.trans hc')
      exact absurd (hp.symm.trans hup) (by simp)
    | some up =>
      simp only [Option.bind_some, hp]
      rw [h.findMethod_eq_some_iff, inherits_eq hc hp]

end ClassTable

/-! ### Chains of inherited calls -/

/-- Code of the class `cls` calls an inherited method, in a state that comes from `s`; the code of
the class that defines it calls another, at some later time, and so on. -/
inductive SuperChain : State → Ref .classDef → List (Ref .classDef) → Prop
  | nil (s : State) (cls : Ref .classDef) : SuperChain s cls []
  | cons {s t : State} {cls owner : Ref .classDef} {owners : List (Ref .classDef)} {name : String}
      {m : MethodDef} : ClassSteps s t → t.classes.findInherited cls name = some (owner, m) →
      SuperChain t owner owners → SuperChain s cls (owner :: owners)

/-- **A chain of inherited calls climbs, and ends.** -/
theorem SuperChain.climbs {s : State} {cls : Ref .classDef} {owners : List (Ref .classDef)}
    (h : SuperChain s cls owners) (hs : s.Lawful) (hcls : (s.classes.class? cls).isSome) :
    (cls :: owners).Pairwise s.classes.Inherits ∧
      owners.length < (s.classes.chain cls).length := by
  induction h with
  -- no call, and one class at least
  | nil s cls =>
    obtain ⟨c, hc⟩ := Option.isSome_iff_exists.mp hcls
    simp [ClassTable.chain, ClassTable.chainWithin, hc]
  | @cons s t cls owner owners name m hst hfound _ ih =>
    have ht : t.Lawful := hst.lawful hs
    have hext : s.classes.Extends t.classes := hst.onward.classes
    have hinh : t.classes.Inherits cls owner :=
      (ht.classes.findInherited_eq_some_iff.mp hfound).among
    obtain ⟨hpairs, hlength⟩ :=
      ih ht (ht.classes.isSome_of_descends (hext.isSome hcls) hinh.descends)
    -- whatever comes in the chain is a strict ancestor of its first class, now and before
    have hall : ∀ q ∈ owner :: owners, s.classes.Inherits cls q := by
      intro q hq
      rw [← hext.inherits_iff hs.classes hcls]
      obtain rfl | hq := List.mem_cons.mp hq
      · exact hinh
      · exact hinh.trans (List.rel_of_pairwise_cons hpairs hq)
    refine ⟨.cons hall (hpairs.imp_of_mem fun {a b} ha _ hab => ?_), ?_⟩
    · have hsome := hs.classes.isSome_of_descends hcls (hall a ha).descends
      exact (hext.inherits_iff hs.classes hsome).mp hab
    -- the chain of the class that is called next is shorter
    · obtain ⟨c, hc⟩ := Option.isSome_iff_exists.mp hcls
      have hlt := ht.classes.length_chain_lt hinh
      rw [hext.length_chain_eq hs.classes hc] at hlt
      rw [List.length_cons]
      omega

end ScriptEngine
