import ScriptEngine.Proofs.Places.Cells

/-!
# Looking up what has been written

Names are looked up along the way out of a scope, and static fields along the chain of a class. Where
a name has been bound anew (`ScopeTree.get?_modify_holder`) or a static field written to
(`ClassTable.findStatic_setStatic`), the same walk ends at the same place as before and finds the new
value.
-/

namespace ScriptEngine

namespace ScopeTree

variable {t : ScopeTree} {r q : Ref .scope} {name : String}

/-- The walk ends in the same scope, with the name bound anew. -/
theorem nearestWithin_modify_bind {n : Scope} {fuel : ℕ} (v : Value)
    (h : t.nearestWithin (·.holds name) fuel r = some (q, n)) :
    (t.modify q (·.bind name v)).nearestWithin (·.holds name) fuel r = some (q, n.bind name v) := by
  obtain ⟨hq, hholds⟩ := node?_of_nearestWithin h
  -- by induction on the way out: it is the same until the scope that has been written to
  induction fuel generalizing r with
  | zero => exact nomatch h
  | succ fuel ih =>
    unfold nearestWithin at h ⊢
    by_cases hr : r = q
    -- the scope itself has been written to, and binds the name now
    · subst hr
      rw [node?_modify_self hq]
      simp [holds_bind]
    -- another scope is as before, so the walk goes on as before
    · rw [node?_modify_of_ne hr]
      split at h
      · exact nomatch h
      · next m hm =>
        split at h
        · exact absurd (Prod.mk.inj (Option.some.inj h)).1 hr
        · next hnot =>
          simp only [hnot]
          split at h
          · exact nomatch h
          · exact ih h

/-- A name that is bound anew where it is bound nearest, or else in the scope itself, is found. -/
theorem get?_modify_holder (v : Value) (h : (t.node? (t.holder r name)).isSome) :
    (t.modify (t.holder r name) (·.bind name v)).get? r name = some v := by
  obtain ⟨n, hn⟩ := Option.isSome_iff_exists.mp h
  unfold get? nearest?
  -- the name is bound somewhere, and this binding is the one that is written to
  cases hfound : t.nearest? (·.holds name) r with
  | some found =>
    obtain ⟨q, m⟩ := found
    have hholder : t.holder r name = q := by rw [holder, hfound]
    rw [hholder, nearestWithin_modify_bind v hfound]
    exact Assoc.get?_insert_self m.bindings name v
  -- it is bound nowhere, so it is bound in the scope itself
  | none =>
    have hholder : t.holder r name = r := by rw [holder, hfound]
    rw [hholder] at hn ⊢
    unfold nearestWithin
    rw [node?_modify_self hn]
    simp only [holds_bind, decide_true, Bool.true_or, if_true, Option.bind_some]
    exact Assoc.get?_insert_self n.bindings name v

end ScopeTree

namespace ClassTable

variable {t : ClassTable} {q r : Ref .classDef} {name : String}

/-- A class of a chain after a write to a static field of `q`. -/
def afterStatic (q : Ref .classDef) (name : String) (v : Value) (e : Ref .classDef × ClassDef) :
    Ref .classDef × ClassDef :=
  (e.1, if q.index = e.1.index then { e.2 with statics := e.2.statics.insert name v } else e.2)

/-- A chain after a write is the chain from before, with the one class changed. -/
theorem chainWithin_setStatic (v : Value) (fuel : ℕ) :
    (t.setStatic q name v).chainWithin fuel r =
      (t.chainWithin fuel r).map (afterStatic q name v) := by
  -- by induction on the length of the search
  induction fuel generalizing r with
  | zero => rfl
  | succ fuel ih =>
    have hclass : (t.setStatic q name v).class? r =
        (t.class? r).map fun c => (afterStatic q name v (r, c)).2 := by
      rw [class?_setStatic]
      unfold afterStatic
      split <;> simp
    unfold chainWithin
    rw [hclass]
    cases t.class? r with
    | none => rfl
    | some c =>
      -- a write to a static field moves no class in the chain
      have hparent : (afterStatic q name v (r, c)).2.parent = c.parent := by
        unfold afterStatic
        split <;> rfl
      simp only [Option.map_some, hparent, List.map_cons]
      cases c.parent with
      | none => rfl
      | some up => exact congrArg (_ :: ·) ih

/-- Subclasses are the same. -/
theorem isSubclass_setStatic (v : Value) (other : Ref .classDef) :
    (t.setStatic q name v).isSubclass r other = t.isSubclass r other := by
  unfold isSubclass chain
  -- a chain has the same classes after the write
  rw [chainWithin_setStatic, List.any_map]
  rfl

/-- So is what static fields are declared as. -/
theorem staticVisibility_setStatic (v : Value) (other : String) :
    (t.setStatic q name v).staticVisibility r other = t.staticVisibility r other := by
  unfold staticVisibility
  rw [class?_setStatic]
  split
  · cases t.class? r <;> rfl
  · rfl

/-- A static field is found again where it was written to. -/
theorem findStatic_setStatic {old : Value} (v : Value) (h : t.findStatic r name = some (q, old)) :
    (t.setStatic q name v).findStatic r name = some (q, v) := by
  unfold findStatic findAlong chain at h ⊢
  rw [chainWithin_setStatic, List.findSome?_map]
  -- the class that was found comes first among those that have the field
  obtain ⟨nearer, ⟨found, c⟩, farther, hchain, hfound, hnearer⟩ :=
    List.findSome?_eq_some_iff.mp h
  obtain ⟨_, hold, heq⟩ := Option.map_eq_some_iff.mp hfound
  obtain ⟨rfl, rfl⟩ := Prod.mk.inj heq
  have hclass {e : Ref .classDef × ClassDef} (he : e ∈ t.chainWithin (r.index + 1) r) :
      t.class? e.1 = some e.2 := class?_of_mem_chainWithin he
  refine List.findSome?_eq_some_iff.mpr ⟨nearer, (found, c), farther, hchain, ?_, fun e he => ?_⟩
  · simp [afterStatic]
  · -- a nearer class has no such field, so it is not the one that was written to
    have hsilent : e.2.statics.get? name = none := by simpa using hnearer e he
    have hother : ¬ found.index = e.1.index := by
      intro hindex
      have hsame : found = e.1 := congrArg Ref.mk hindex
      have he' := hclass (hchain ▸ List.mem_append_left _ he)
      have hc := hclass (e := (found, c)) (hchain ▸ by simp)
      rw [← hsame, hc] at he'
      rw [← Option.some.inj he'] at hsilent
      simp [hold] at hsilent
    simp [afterStatic, hother, hsilent]

end ClassTable

end ScriptEngine
