import ScriptEngine.Proofs.Run.Path

/-!
# Operations on the tree of scopes

The tree of scopes changes in four ways: a scope is opened, a name is bound in a scope, it is
bound there for good, or its nearest binding is changed. `ScopeTree.Op` has a constructor for
each, and `ScopeTree.after` is the tree after a sequence of them, in which an operation that is
refused changes nothing. What one operation can do is said once (`Op.run_cases`), and what a
sequence keeps follows by induction: scopes keep their place (`Develops.extends`), parents come
before their children (`Ordered.after`), and a constant stays what it is (`Constant.after`). A
search outwards passes by the scopes that fail its test, to the first that does not
(`Inside.nearestWithin_eq`). So a variable has the value that was written last, for everybody who
sees it (`Variable.get?_eq`, `Variable.modify_bind`).
-/

namespace ScriptEngine.ScopeTree

/-- An operation on the tree. -/
inductive Op where
  /-- Opens a scope. -/
  | child (parent : Option (Ref .scope)) (task : Nat) (owner : Option (Ref .classDef))
  | set (r : Ref .scope) (name : String) (v : Value)
  | setConst (r : Ref .scope) (name : String) (v : Value)
  | reset (r : Ref .scope) (name : String) (v : Value)

namespace Op

/-- The tree that an operation makes, unless it writes to a constant. -/
def apply : Op → ScopeTree → Except ReadOnly ScopeTree
  | child parent task owner, t => .ok (t.add (.fresh parent task owner)).2
  | set r name v, t => t.set r name v
  | setConst r name v, t => t.setConst r name v
  | reset r name v, t => t.reset r name v

/-- The tree after an operation. One that is refused leaves it as it is. -/
def run (op : Op) (t : ScopeTree) : ScopeTree :=
  match op.apply t with
  | .ok u => u
  | .error _ => t

/-- The operation starts from a scope of the tree. -/
def On (t : ScopeTree) : Op → Prop
  | child parent _ _ => ∀ p, parent = some p → (t.node? p).isSome
  | set r _ _ => (t.node? r).isSome
  | setConst r _ _ => (t.node? r).isSome
  | reset r _ _ => (t.node? r).isSome

/-- An operation that is carried out gives its tree. -/
theorem run_of_ok {op : Op} {t u : ScopeTree} (h : op.apply t = .ok u) : op.run t = u := by
  rw [run, h]

/-- One that is refused gives the tree it was tried on. -/
theorem run_of_error {op : Op} {t : ScopeTree} {e : ReadOnly} (h : op.apply t = .error e) :
    op.run t = t := by
  rw [run, h]

end Op

/-- The tree after a sequence of operations. -/
def after (t : ScopeTree) : List Op → ScopeTree
  | [] => t
  | op :: rest => (op.run t).after rest

/-- Every operation of the sequence starts from a scope that is there by then. -/
def AllOn (t : ScopeTree) : List Op → Prop
  | [] => True
  | op :: rest => op.On t ∧ (op.run t).AllOn rest

/-- One tree comes from another by operations. -/
def Develops (t u : ScopeTree) : Prop := ∃ ops, u = t.after ops

/-- A sequence can be cut anywhere. -/
theorem after_append (t : ScopeTree) (ops more : List Op) :
    t.after (ops ++ more) = (t.after ops).after more := by
  induction ops generalizing t with
  | nil => rfl
  | cons op rest ih => exact ih (op.run t)

namespace Develops

/-- Nothing need be done. -/
theorem refl (t : ScopeTree) : t.Develops t := ⟨[], rfl⟩

/-- One operation is a sequence. -/
theorem of_op (op : Op) (t : ScopeTree) : t.Develops (op.run t) := ⟨[op], rfl⟩

/-- Sequences follow each other. -/
theorem trans {t u v : ScopeTree} (h : t.Develops u) (h' : u.Develops v) : t.Develops v := by
  obtain ⟨ops, rfl⟩ := h
  obtain ⟨more, rfl⟩ := h'
  exact ⟨ops ++ more, (after_append t ops more).symm⟩

end Develops

/-! ### What one operation does -/

/-- A write that is not refused replaces the scope it is made in. -/
theorem write_cases {t u : ScopeTree} {r : Ref .scope} {name : String} {f : Scope → Scope}
    (h : t.write r name f = .ok u) : t.isConstIn r name = false ∧ u = t.modify r f := by
  unfold write at h
  split at h
  · cases h
  · next hc => exact ⟨by simpa using hc, (Except.ok.inj h).symm⟩

/-- **What an operation does to the tree:** nothing if it is refused; else it adds a scope, or
writes to a name that is no constant where it is written. -/
theorem Op.run_cases (op : Op) (t : ScopeTree) :
    op.run t = t ∨
    (∃ parent task owner, op = .child parent task owner ∧
      op.run t = (t.add (.fresh parent task owner)).2) ∨
    ∃ c name f, NameWrite name f ∧ t.isConstIn c name = false ∧ op.run t = t.modify c f := by
  cases ha : op.apply t with
  | error e => exact .inl (run_of_error ha)
  | ok u =>
    rw [run_of_ok ha]
    -- every operation but the opening of a scope is a write, each in a scope of its own choice
    cases op with
    | child parent task owner => exact .inr (.inl ⟨parent, task, owner, rfl, Except.ok.inj ha.symm⟩)
    | set r name v => exact .inr (.inr ⟨r, name, _, .bind v, write_cases ha⟩)
    | setConst r name v => exact .inr (.inr ⟨r, name, _, .bindConst v, write_cases ha⟩)
    | reset r name v => exact .inr (.inr ⟨t.holder r name, name, _, .bind v, write_cases ha⟩)

/-- One operation keeps the places of all scopes. -/
theorem extends_run (op : Op) (t : ScopeTree) : t.Extends (op.run t) := by
  obtain h | ⟨parent, task, owner, -, h⟩ | ⟨c, name, f, hf, -, h⟩ := op.run_cases t <;> rw [h]
  · exact .refl t
  · exact t.extends_add _
  · exact t.extends_modify c hf

/-- **Scopes keep their place** across every sequence of operations. -/
theorem Develops.extends {t u : ScopeTree} (h : t.Develops u) : t.Extends u := by
  obtain ⟨ops, rfl⟩ := h
  -- on the operations, from the tree that is there at the time
  induction ops generalizing t with
  | nil => exact .refl t
  | cons op rest ih => exact (extends_run op t).trans ih

/-- A write concerns the scope it is made in. -/
theorem node?_modify (t : ScopeTree) (c r : Ref .scope) (f : Scope → Scope) :
    (t.modify c f).node? r = if c.index = r.index then (t.node? r).map f else t.node? r := by
  simp [node?, modify, Array.getElem?_modify]

/-- Opening a scope leaves those alone that are there. -/
theorem node?_add_of_isSome {t : ScopeTree} {r : Ref .scope} (n : Scope)
    (hr : (t.node? r).isSome) : (t.add n).2.node? r = t.node? r := by
  have : r.index < t.nodes.size := by simpa [node?] using hr
  simp [node?, add, Array.getElem?_push, Nat.ne_of_lt this]

/-- After that there is one more scope, the one that was opened. -/
theorem node?_add_cases {t : ScopeTree} {n m : Scope} {r : Ref .scope}
    (h : (t.add n).2.node? r = some m) :
    t.node? r = some m ∨ r.index = t.nodes.size ∧ m = n := by
  simp only [node?, add, Array.getElem?_push] at h
  split at h
  · next hr => exact .inr ⟨hr, (Option.some.inj h).symm⟩
  · exact .inl h

/-! ### Parents come first -/

/-- The parent of a scope has the smaller index. -/
def Ordered (t : ScopeTree) : Prop :=
  ∀ (r p : Ref .scope) (n : Scope), t.node? r = some n → n.parent = some p → p.index < r.index

/-- A scope by itself is ordered, and so is every tree that develops from it (`Ordered.after`). -/
theorem ordered_root {n : Scope} (hn : n.parent = none) : Ordered ⟨#[n]⟩ := by
  rintro ⟨i⟩ p m hm hp
  -- the only scope has the index zero, and no parent
  cases i with
  | zero =>
    obtain rfl : n = m := by simpa [node?] using hm
    rw [hn] at hp
    cases hp
  | succ i => simp [node?] at hm

/-- Every operation that starts from a scope of the tree keeps parents first. -/
theorem Ordered.run {t : ScopeTree} (ht : t.Ordered) {op : Op} (hop : op.On t) :
    (op.run t).Ordered := by
  intro r p n hn hp
  obtain h | ⟨parent, task, owner, rfl, h⟩ | ⟨c, name, f, hf, -, h⟩ := op.run_cases t <;>
    rw [h] at hn
  · exact ht r p n hn hp
  · obtain hn | ⟨hr, rfl⟩ := node?_add_cases hn
    · exact ht r p n hn hp
    · -- the new scope has the greatest index, and its parent is there
      have : (t.node? p).isSome := hop p hp
      simpa [node?, hr] using this
  · rw [node?_modify] at hn
    split at hn
    · -- a write leaves the parent as it is
      obtain ⟨m, hm, rfl⟩ := Option.map_eq_some_iff.mp hn
      have hpm : m.parent = some p := by cases hf <;> exact hp
      exact ht r p m hm hpm
    · exact ht r p n hn hp

/-- So does a sequence of them. -/
theorem Ordered.after {t : ScopeTree} (ht : t.Ordered) {ops : List Op} (hops : t.AllOn ops) :
    (t.after ops).Ordered := by
  induction ops generalizing t with
  | nil => exact ht
  | cons op rest ih => exact ih (ht.run hops.1) hops.2

/-! ### Ways out -/

/-- The scope `r` is `m` or is nested in it. Each of the scopes on the way out satisfies `P`, and
was opened when the one around it was there. -/
inductive Inside (t : ScopeTree) (P : Scope → Prop) (m : Ref .scope) : Ref .scope → Prop
  | refl : (t.node? m).isSome → Inside t P m m
  | inner {r up : Ref .scope} {n : Scope} : t.node? r = some n → P n → n.parent = some up →
      up.index < r.index → Inside t P m up → Inside t P m r

namespace Inside

variable {t u : ScopeTree} {P Q : Scope → Prop} {m r : Ref .scope} {n : Scope}

/-- A scope that is inside is there. -/
theorem isSome (h : t.Inside P m r) : (t.node? r).isSome := by
  cases h with
  | refl hm => exact hm
  | inner hn => rw [hn]; rfl

/-- So is the one around it. -/
theorem isSome_outer (h : t.Inside P m r) : (t.node? m).isSome := by
  induction h with
  | refl hm => exact hm
  | inner _ _ _ _ _ ih => exact ih

/-- A scope is inside as before if the scopes on the way are there and satisfy what they should. -/
theorem of_extends (h : t.Inside P m r) (hext : t.Extends u)
    (hP : ∀ q n n', t.Inside P m q → t.node? q = some n → u.node? q = some n' → P n → Q n') :
    u.Inside Q m r := by
  -- on the way out, of which every scope keeps its parent
  induction h with
  | refl hm => exact .refl (hext.isSome hm)
  | @inner r up n hn hp hup hlt hinside ih =>
    obtain ⟨n', hn', hup', -⟩ := hext r n hn
    exact .inner hn' (hP r n n' (.inner hn hp hup hlt hinside) hn hn' hp) (hup'.trans hup) hlt ih

/-- What all scopes on the way satisfy may be weakened. -/
theorem mono (h : t.Inside P m r) (hPQ : ∀ n, P n → Q n) : t.Inside Q m r :=
  h.of_extends (.refl t) fun _ n _ _ hn hn' hp => by
    obtain rfl := Option.some.inj (hn.symm.trans hn')
    exact hPQ n hp

/-- **What is opened below is inside.** -/
theorem opened (h : t.Inside P m r) (hP : P n) (hn : n.parent = some r) :
    (t.add n).2.Inside P m ⟨t.nodes.size⟩ := by
  have hlt : r.index < t.nodes.size := by simpa [node?] using h.isSome
  -- the new scope is one step farther from `m` than its parent
  refine .inner (node?_add t n) hP hn hlt (h.of_extends (extends_add t n) ?_)
  intro q n₁ n₂ _ h₁ h₂ hp
  rw [node?_add_of_isSome n (by rw [h₁]; rfl)] at h₂
  exact Option.some.inj (h₁.symm.trans h₂) ▸ hp

/-- **A search from inside ends at the outermost scope** if it passes by all the others. -/
theorem nearestWithin_eq {p : Scope → Bool} (h : t.Inside P m r) (hP : ∀ n, P n → p n = false)
    (hm : t.node? m = some n) (hp : p n = true) {fuel : Nat} (hfuel : r.index < fuel) :
    t.nearestWithin p fuel r = some (m, n) := by
  -- the way out leads to smaller indices, so there are steps enough
  induction h generalizing fuel with
  | refl =>
    obtain ⟨fuel, rfl⟩ := Nat.exists_eq_add_one_of_ne_zero (Nat.ne_zero_of_lt hfuel)
    simp [nearestWithin, hm, hp]
  | inner hn hpn hup hlt _ ih =>
    obtain ⟨fuel, rfl⟩ := Nat.exists_eq_add_one_of_ne_zero (Nat.ne_zero_of_lt hfuel)
    have hleft : t.nearestWithin p fuel _ = some (m, n) := ih (by omega)
    simp [nearestWithin, hn, hP _ hpn, hup, hleft]

/-- The search from a scope has steps enough for its index. -/
theorem nearest?_eq {p : Scope → Bool} (h : t.Inside P m r) (hP : ∀ n, P n → p n = false)
    (hm : t.node? m = some n) (hp : p n = true) : t.nearest? p r = some (m, n) :=
  h.nearestWithin_eq hP hm hp (Nat.lt_succ_self _)

end Inside

/-- The scope that holds a name nearest to `r`, going from parent to parent. -/
inductive NearestHolder (t : ScopeTree) (name : String) : Ref .scope → Ref .scope → Prop
  | here {r : Ref .scope} {n : Scope} :
      t.node? r = some n → n.holds name = true → NearestHolder t name r r
  | outer {r p q : Ref .scope} {n : Scope} :
      t.node? r = some n → n.holds name = false → n.parent = some p → NearestHolder t name p q →
      NearestHolder t name r q

/-- The nearest holder holds the name. -/
theorem NearestHolder.holds {t : ScopeTree} {name : String} {r q : Ref .scope}
    (h : t.NearestHolder name r q) : ∃ n, t.node? q = some n ∧ n.holds name = true := by
  induction h with
  | here hn hholds => exact ⟨_, hn, hholds⟩
  | outer _ _ _ _ ih => exact ih

/-- It is found on the way out, past scopes that do not hold the name. -/
theorem NearestHolder.inside {t : ScopeTree} (ht : t.Ordered) {name : String} {r q : Ref .scope}
    (h : t.NearestHolder name r q) : t.Inside (·.holds name = false) q r := by
  induction h with
  | here hn _ => exact .refl (by rw [hn]; rfl)
  | outer hn hholds hp _ ih => exact .inner hn hholds hp (ht _ _ _ hn hp) ih

/-- A search that has enough steps for the index it starts at finds the nearest holder. -/
theorem NearestHolder.nearestWithin_eq {t : ScopeTree} (ht : t.Ordered) {name : String}
    {r q : Ref .scope} (h : t.NearestHolder name r q) {fuel : Nat} (hfuel : r.index < fuel) :
    ∃ n, t.nearestWithin (·.holds name) fuel r = some (q, n) := by
  obtain ⟨n, hn, hholds⟩ := h.holds
  exact ⟨n, (h.inside ht).nearestWithin_eq (fun _ hn => hn) hn hholds hfuel⟩

/-- The search for the holder of a name finds the nearest. -/
theorem NearestHolder.holder_eq {t : ScopeTree} (ht : t.Ordered) {name : String}
    {r q : Ref .scope} (h : t.NearestHolder name r q) : t.holder r name = q := by
  obtain ⟨n, hn⟩ := h.nearestWithin_eq ht (Nat.lt_succ_self r.index)
  simp [holder, nearest?, hn]

/-- What is seen of a name is what its nearest holder binds it to. -/
theorem NearestHolder.get?_eq {t : ScopeTree} (ht : t.Ordered) {name : String} {r q : Ref .scope}
    (h : t.NearestHolder name r q) :
    t.get? r name = (t.node? q).bind (·.bindings.get? name) := by
  obtain ⟨n, hn⟩ := h.nearestWithin_eq ht (Nat.lt_succ_self r.index)
  have hnode := (node?_of_nearestWithin hn).1
  rw [get?, nearest?, hn, hnode]
  rfl

/-- A write to its nearest binding leaves the holder of a name where it is. -/
theorem NearestHolder.modify_bind {t : ScopeTree} {name : String} {r q : Ref .scope}
    (h : t.NearestHolder name r q) (v : Value) :
    (t.modify q (·.bind name v)).NearestHolder name r q := by
  have hq := h.holds
  -- on the way to the holder
  induction h with
  | @here r n hn hholds =>
    refine .here (n := n.bind name v) ?_ ?_
    · rw [node?_modify, if_pos rfl, hn]
      rfl
    · simp [Scope.bind, Scope.holds, Assoc.contains]
  | @outer r p q n hn hholds hp _ ih =>
    obtain ⟨m, hm, hmholds⟩ := hq
    refine .outer (n := n) ?_ hholds hp (ih ⟨m, hm, hmholds⟩)
    -- the holder is another scope than the one that does not hold the name
    have hne : q.index ≠ r.index := by
      intro hindex
      have : t.node? q = t.node? r := by simp only [node?, hindex]
      rw [hm, hn] at this
      obtain rfl := Option.some.inj this
      rw [hmholds] at hholds
      cases hholds
    rw [node?_modify, if_neg hne, hn]

/-! ### Variables -/

/-- The scope `r` binds a name to `v`, and not for good. -/
def Variable (r : Ref .scope) (name : String) (v : Value) (t : ScopeTree) : Prop :=
  ∃ n, t.node? r = some n ∧ n.isConst name = false ∧ n.bindings.get? name = some v

/-- A variable is no constant. -/
theorem Variable.isConstIn {r : Ref .scope} {name : String} {v : Value} {t : ScopeTree}
    (h : Variable r name v t) : t.isConstIn r name = false := by
  obtain ⟨n, hn, hc, -⟩ := h
  simp [ScopeTree.isConstIn, hn, hc]

/-- Everybody who finds the variable first sees its value. -/
theorem Variable.get?_eq {r q : Ref .scope} {name : String} {v : Value} {t : ScopeTree}
    (h : Variable q name v t) (ht : t.Ordered) (hr : t.NearestHolder name r q) :
    t.get? r name = some v := by
  obtain ⟨n, hn, -, hv⟩ := h
  rw [hr.get?_eq ht, hn]
  exact hv

/-- A write to a variable is seen as its value. -/
theorem Variable.modify_bind {r : Ref .scope} {name : String} {v : Value} {t : ScopeTree}
    (h : Variable r name v t) (w : Value) : Variable r name w (t.modify r (·.bind name w)) := by
  obtain ⟨n, hn, hc, -⟩ := h
  refine ⟨n.bind name w, by rw [node?_modify, if_pos rfl, hn]; rfl, hc, ?_⟩
  exact Assoc.get?_insert_self ..

/-- It leaves parents first. -/
theorem Variable.ordered_modify {r : Ref .scope} {name : String} {v : Value} {t : ScopeTree}
    (h : Variable r name v t) (ht : t.Ordered) (w : Value) :
    (t.modify r (·.bind name w)).Ordered := by
  have hok : (Op.set r name w).apply t = .ok (t.modify r (·.bind name w)) := by
    simp [Op.apply, set, write, h.isConstIn]
  obtain ⟨n, hn, -⟩ := h
  have hon : (Op.set r name w).On t := by
    change (t.node? r).isSome
    rw [hn]
    rfl
  have := ht.run hon
  rwa [Op.run_of_ok hok] at this

/-! ### Constants -/

/-- The scope `r` binds a name to `v` for good. -/
def Constant (r : Ref .scope) (name : String) (v : Value) (t : ScopeTree) : Prop :=
  ∃ n, t.node? r = some n ∧ n.isConst name = true ∧ n.bindings.get? name = some v

variable {t : ScopeTree} {r : Ref .scope} {name : String} {v : Value}

/-- A constant is one where it is bound. -/
theorem Constant.isConstIn (h : Constant r name v t) : t.isConstIn r name = true := by
  obtain ⟨n, hn, hc, -⟩ := h
  simp [ScopeTree.isConstIn, hn, hc]

/-- A name that is bound for good is a constant from then on. -/
theorem constant_of_setConst {u : ScopeTree} (hr : (t.node? r).isSome)
    (h : t.setConst r name v = .ok u) : Constant r name v u := by
  obtain ⟨-, rfl⟩ := write_cases h
  obtain ⟨n, hn⟩ := Option.isSome_iff_exists.mp hr
  refine ⟨n.bindConst name v, by simp [node?_modify, hn], ?_, ?_⟩
  · simp [Scope.bindConst, Scope.isConst]
  · simp [Scope.bindConst]

/-- A write to another name leaves a constant of the scope alone. -/
theorem constant_of_nameWrite {other : String} {f : Scope → Scope} (hf : NameWrite other f)
    (hne : name ≠ other) {n : Scope} (hc : n.isConst name = true)
    (hv : n.bindings.get? name = some v) :
    (f n).isConst name = true ∧ (f n).bindings.get? name = some v := by
  -- in either case the write is to another name
  have hget : ∀ w, (n.bindings.insert other w).get? name = some v := fun w =>
    (Assoc.get?_insert_of_ne n.bindings hne w).trans hv
  have hmem : name ∈ n.constants := by simpa [Scope.isConst] using hc
  cases hf with
  | bind w => exact ⟨hc, hget w⟩
  | bindConst w => exact ⟨by simp [Scope.bindConst, Scope.isConst, hmem], hget w⟩

/-- No operation changes a constant. -/
theorem Constant.run (h : Constant r name v t) (op : Op) : Constant r name v (op.run t) := by
  obtain ⟨n, hn, hc, hv⟩ := h
  obtain h | ⟨parent, task, owner, -, h⟩ | ⟨c, other, f, hf, hfree, h⟩ := op.run_cases t <;>
    rw [h]
  · exact ⟨n, hn, hc, hv⟩
  -- a new scope binds nothing
  · exact ⟨n, by rw [node?_add_of_isSome _ (by simp [hn]), hn], hc, hv⟩
  · by_cases hcr : c.index = r.index
    · -- the name that is written there is no constant, so it is another one
      have hne : name ≠ other := by
        rintro rfl
        have : t.node? c = some n := by simpa [node?, hcr] using hn
        simp [ScopeTree.isConstIn, this, hc] at hfree
      exact ⟨f n, by simp [node?_modify, hcr, hn], constant_of_nameWrite hf hne hc hv⟩
    · exact ⟨n, by simp [node?_modify, hcr, hn], hc, hv⟩

/-- **A constant stays what it is** across every sequence of operations. -/
theorem Constant.after (h : Constant r name v t) (ops : List Op) :
    Constant r name v (t.after ops) := by
  induction ops generalizing t with
  | nil => exact h
  | cons op rest ih => exact ih (h.run op)

/-- A constant stays one wherever the tree develops. -/
theorem Constant.of_develops {u : ScopeTree} (h : Constant r name v t) (hu : t.Develops u) :
    Constant r name v u := by
  obtain ⟨ops, rfl⟩ := hu
  exact h.after ops

/-! ### Refusals -/

/-- The operation is refused as a write to a constant, and leaves the tree as it is. -/
def Refused (op : Op) (name : String) (t : ScopeTree) : Prop :=
  op.apply t = .error ⟨name⟩ ∧ op.run t = t

theorem refused_of_error {op : Op} (h : op.apply t = .error ⟨name⟩) : Refused op name t :=
  ⟨h, Op.run_of_error h⟩

/-- A constant is not bound anew in its scope. -/
theorem Constant.refused_set (h : Constant r name v t) (w : Value) :
    Refused (.set r name w) name t :=
  refused_of_error (by simp [Op.apply, set, write, h.isConstIn])

/-- Nor is it bound for good a second time. -/
theorem Constant.refused_setConst (h : Constant r name v t) (w : Value) :
    Refused (.setConst r name w) name t :=
  refused_of_error (by simp [Op.apply, setConst, write, h.isConstIn])

/-- Nor is it changed from a scope from which it is seen. -/
theorem Constant.refused_reset (h : Constant r name v t) (ht : t.Ordered) {q : Ref .scope}
    (hq : t.NearestHolder name q r) (w : Value) : Refused (.reset q name w) name t :=
  refused_of_error (by simp [Op.apply, reset, set, write, hq.holder_eq ht, h.isConstIn])

end ScriptEngine.ScopeTree
