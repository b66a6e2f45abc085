import ScriptEngine.Proofs.Run.Course

/-!
# Assignments to names

An assignment changes the nearest binding of a name. Reading the name, asking whether it is constant
and assigning to it are three walks out of the scope; in every tree that comes about by operations
(`Reachable`) they end at one scope, the `Target` (`Target.reads`): the nearest scope that holds the
name, or the scope itself if there is none. Both facts that this needs are kept by every operation:
parents come before their children, and what is constant is bound.

The assignment binds the name in that scope. The way out of any scope is as before, so the scope
that holds a name nearest is the same as before, or the target (`NearestHolder.of_modify_bind`).
Whoever finds the name there sees the new value, and nobody else sees a change (`Rebound`,
`reset_rebinds`).
-/

namespace ScriptEngine.ScopeTree

/-! ### Reachable trees -/

/-- Trees that come about by operations, each of them from a scope that is there. -/
inductive Reachable : ScopeTree → Prop
  | empty : Reachable .empty
  | run {t : ScopeTree} {op : Op} : Reachable t → op.On t → Reachable (op.run t)

/-- What is constant in a scope is bound there. -/
def ConstantsBound (t : ScopeTree) : Prop :=
  ∀ (r : Ref .scope) (n : Scope) (name : String),
    t.node? r = some n → n.isConst name = true → n.holds name = true

/-- A scope holds what it held, and the name that is bound. -/
theorem holds_bind (n : Scope) (name other : String) (v : Value) :
    (n.bind name v).holds other = (decide (other = name) || n.holds other) := by
  unfold Scope.holds Scope.bind Assoc.contains
  by_cases h : other = name
  · rw [h]
    simp
  · rw [Assoc.get?_insert_of_ne _ h]
    simp [h]

/-- A write keeps what is constant bound: a name that is made constant is bound by the same write. -/
theorem holds_of_isConst_nameWrite {name other : String} {f : Scope → Scope}
    (hf : NameWrite name f) {n : Scope} (hn : n.isConst other = true → n.holds other = true)
    (hc : (f n).isConst other = true) : (f n).holds other = true := by
  cases hf with
  | bind v =>
    rw [holds_bind, hn hc, Bool.or_true]
  | bindConst v =>
    change (n.bind name v).holds other = true
    rw [holds_bind]
    -- the name itself is bound, and other constants were before
    by_cases h : other = name
    · simp [h]
    · have hc' : n.isConst other = true := by
        simpa [Scope.bindConst, Scope.isConst, h] using hc
      rw [hn hc', Bool.or_true]

/-- Every operation keeps constants bound. -/
theorem ConstantsBound.run {t : ScopeTree} (h : t.ConstantsBound) (op : Op) :
    (op.run t).ConstantsBound := by
  intro r n other hn hc
  obtain ht | ⟨parent, task, owner, -, ht⟩ | ⟨c, name, f, hf, -, ht⟩ := op.run_cases t <;>
    rw [ht] at hn
  · exact h r n other hn hc
  -- a scope that has just been opened has no constants
  · obtain hn | ⟨-, rfl⟩ := node?_add_cases hn
    · exact h r n other hn hc
    · exact nomatch hc
  · rw [node?_modify] at hn
    split at hn
    -- in the scope that is written to, by what one write does
    · obtain ⟨m, hm, rfl⟩ := Option.map_eq_some_iff.mp hn
      exact holds_of_isConst_nameWrite hf (h r m other hm) hc
    · exact h r n other hn hc

namespace Reachable

variable {t : ScopeTree}

/-- In reachable trees parents come first. -/
theorem ordered (h : t.Reachable) : t.Ordered := by
  induction h with
  | empty => exact nofun
  | run _ hon ih => exact ih.run hon

/-- In reachable trees constants are bound. -/
theorem constantsBound (h : t.Reachable) : t.ConstantsBound := by
  induction h with
  | empty => exact nofun
  | run _ _ ih => exact ih.run _

/-- Operations lead from reachable trees to reachable trees. -/
theorem after (h : t.Reachable) {ops : List Op} (hops : t.AllOn ops) :
    (t.after ops).Reachable := by
  induction ops generalizing t with
  | nil => exact h
  | cons op rest ih => exact ih (h.run hops.1) hops.2

end Reachable

/-! ### One scope for three walks -/

/-- Where an assignment from `r` goes: to the scope that holds the name nearest, or to `r` if no
scope on the way out holds it. -/
inductive Target (t : ScopeTree) (name : String) (r : Ref .scope) : Ref .scope → Prop
  | held {q : Ref .scope} : t.NearestHolder name r q → Target t name r q
  | free : (∀ q, ¬ t.NearestHolder name r q) → Target t name r r

section

variable {t : ScopeTree} {name : String} {r q : Ref .scope}

/-- What a search finds is the nearest holder. -/
theorem nearestHolder_of_nearestWithin {n : Scope} {fuel : Nat}
    (h : t.nearestWithin (·.holds name) fuel r = some (q, n)) : t.NearestHolder name r q := by
  -- on the steps of the search, each of which goes to the parent
  induction fuel generalizing r with
  | zero => exact nomatch h
  | succ fuel ih =>
    unfold nearestWithin at h
    split at h
    · exact nomatch h
    · next m hm =>
      split at h
      -- the scope holds the name, and the search ends
      · next hholds =>
        obtain ⟨rfl, rfl⟩ := Prod.mk.inj (Option.some.inj h)
        exact .here hm hholds
      -- it does not, so the search goes on if there is a parent
      · next hholds =>
        split at h
        · exact nomatch h
        · next p hp => exact .outer hm (by simpa using hholds) hp (ih h)

/-- The search ends at the nearest holder, and finds nothing if there is none. -/
theorem Ordered.nearest?_cases (ht : t.Ordered) (r : Ref .scope) (name : String) :
    (∃ q n, t.NearestHolder name r q ∧ t.node? q = some n ∧
      t.nearest? (·.holds name) r = some (q, n)) ∨
    (∀ q, ¬ t.NearestHolder name r q) ∧ t.nearest? (·.holds name) r = none := by
  cases h : t.nearest? (·.holds name) r with
  | none =>
    refine .inr ⟨fun q hq => ?_, rfl⟩
    obtain ⟨n, hn⟩ := hq.nearestWithin_eq ht (Nat.lt_succ_self r.index)
    exact nomatch hn.symm.trans h
  | some found =>
    obtain ⟨q, n⟩ := found
    exact .inl ⟨q, n, nearestHolder_of_nearestWithin h, (node?_of_nearestWithin h).1, rfl⟩

/-- A name that no scope on the way holds is not bound. -/
theorem Ordered.get?_eq_none (ht : t.Ordered) (h : ∀ q, ¬ t.NearestHolder name r q) :
    t.get? r name = none := by
  obtain ⟨q, n, hq, -⟩ | ⟨-, hnone⟩ := ht.nearest?_cases r name
  · exact absurd hq (h q)
  · rw [get?, hnone]
    rfl

/-- **Reading, asking and assigning end at one scope.** -/
theorem Target.reads (ht : t.Reachable) (hr : (t.node? r).isSome) (name : String) :
    ∃ q n, t.Target name r q ∧ t.node? q = some n ∧ t.holder r name = q ∧
      t.get? r name = n.bindings.get? name ∧ t.isReadOnly r name = n.isConst name := by
  -- the one search is what all three walks are made of
  obtain ⟨q, n, hq, hn, hfound⟩ | ⟨hfree, hnone⟩ := ht.ordered.nearest?_cases r name
  · refine ⟨q, n, .held hq, hn, ?_, ?_, ?_⟩
    · rw [holder, hfound]
    · rw [get?, hfound]
      rfl
    · rw [isReadOnly, hfound]
  · obtain ⟨n, hn⟩ := Option.isSome_iff_exists.mp hr
    -- the scope itself does not hold the name, so it is no constant there
    have hholds : n.holds name = false := by
      by_contra h
      exact hfree r (.here hn (by simpa using h))
    have hconst : n.isConst name = false := by
      by_contra h
      have := ht.constantsBound r n name hn (by simpa using h)
      rw [hholds] at this
      cases this
    refine ⟨r, n, .free hfree, hn, ?_, ?_, ?_⟩
    · rw [holder, hnone]
    · rw [get?, hnone]
      exact (Option.isNone_iff_eq_none.mp (Option.isSome_eq_false_iff.mp hholds)).symm
    · rw [isReadOnly, hnone, hconst]

/-- An assignment goes to the nearest holder if there is one. -/
theorem Target.eq_of_nearestHolder {p : Ref .scope} (ht : t.Ordered) (h : t.Target name r p)
    (hq : t.NearestHolder name r q) : p = q := by
  cases h with
  | held hp => exact (hp.holder_eq ht).symm.trans (hq.holder_eq ht)
  | free hfree => exact absurd hq (hfree q)

/-! ### What is seen after a binding -/

/-- Another scope is as it was. -/
theorem node?_modify_of_ne {p : Ref .scope} (h : p ≠ q) (f : Scope → Scope) :
    (t.modify q f).node? p = t.node? p := by
  have hindex : q.index ≠ p.index := by
    intro he
    obtain ⟨i⟩ := p
    obtain ⟨j⟩ := q
    exact h (congrArg Ref.mk he.symm)
  rw [node?_modify, if_neg hindex]

/-- The scope itself is what the write makes of it. -/
theorem node?_modify_self {n : Scope} (hn : t.node? q = some n) (f : Scope → Scope) :
    (t.modify q f).node? q = some (f n) := by
  rw [node?_modify, if_pos rfl, hn]
  rfl

/-- Both trees have the same scopes as far as parents and one name are concerned. -/
def SameName (name : String) (t u : ScopeTree) : Prop :=
  ∀ p, (u.node? p).map (fun n => (n.parent, n.bindings.get? name)) =
    (t.node? p).map fun n => (n.parent, n.bindings.get? name)

namespace SameName

variable {u : ScopeTree}

/-- Being alike in one name goes both ways. -/
theorem symm (h : SameName name t u) : SameName name u t := fun p => (h p).symm

/-- The scope is there in both trees, with the same parent and the same value of the name. -/
theorem exists_node {n : Scope} (h : SameName name t u) (hn : t.node? r = some n) :
    ∃ m, u.node? r = some m ∧ m.parent = n.parent ∧
      m.bindings.get? name = n.bindings.get? name := by
  have hmap := h r
  rw [hn, Option.map_some] at hmap
  obtain ⟨m, hm, heq⟩ := Option.map_eq_some_iff.mp hmap
  exact ⟨m, hm, (Prod.mk.inj heq).1, (Prod.mk.inj heq).2⟩

/-- The same scope holds the name nearest. -/
theorem nearestHolder (h : SameName name t u) (hq : t.NearestHolder name r q) :
    u.NearestHolder name r q := by
  have hholds : ∀ {n m : Scope}, m.bindings.get? name = n.bindings.get? name →
      m.holds name = n.holds name := fun heq => congrArg Option.isSome heq
  -- on the way to the holder, which is the same in both trees
  induction hq with
  | here hn hh =>
    obtain ⟨m, hm, -, hget⟩ := h.exists_node hn
    exact .here hm ((hholds hget).trans hh)
  | outer hn hh hp _ ih =>
    obtain ⟨m, hm, hparent, hget⟩ := h.exists_node hn
    exact .outer hm ((hholds hget).trans hh) (hparent.trans hp) ih

/-- So the name has the same value in both. -/
theorem get?_eq (h : SameName name t u) (ht : t.Ordered) (hu : u.Ordered) (r : Ref .scope) :
    u.get? r name = t.get? r name := by
  -- the holder is the same, or there is none in either
  obtain ⟨q, n, hq, hn, -⟩ | ⟨hfree, -⟩ := ht.nearest?_cases r name
  · obtain ⟨m, hm, -, hget⟩ := h.exists_node hn
    rw [hq.get?_eq ht, (h.nearestHolder hq).get?_eq hu, hn, hm]
    exact hget
  · rw [ht.get?_eq_none hfree, hu.get?_eq_none fun q hq => hfree q (h.symm.nearestHolder hq)]

end SameName

variable (v : Value)

/-- A binding leaves the trees alike in all other names. -/
theorem sameName_modify_bind {other : String} (hne : other ≠ name) :
    SameName other t (t.modify q (·.bind name v)) := by
  intro p
  rw [node?_modify]
  split
  · cases t.node? p with
    | none => rfl
    | some n =>
      have hget : (n.bind name v).bindings.get? other = n.bindings.get? other :=
        Assoc.get?_insert_of_ne n.bindings hne v
      exact congrArg (fun w => some (n.parent, w)) hget
  · rfl

variable {v} {c p : Ref .scope}

/-- Whoever finds the name elsewhere than where it was bound has found it there before. -/
theorem NearestHolder.of_modify_bind
    (h : (t.modify q (·.bind name v)).NearestHolder name c p) (hp : p ≠ q) :
    t.NearestHolder name c p := by
  -- on the way to the holder in the new tree
  induction h with
  | here hn hholds =>
    rw [node?_modify_of_ne hp] at hn
    exact .here hn hholds
  | @outer r up p n hn hholds hup _ ih =>
    -- a scope that is passed by does not hold the name, so it is not the one where it was bound
    have hr : r ≠ q := by
      rintro rfl
      rw [node?_modify, if_pos rfl] at hn
      obtain ⟨m, -, rfl⟩ := Option.map_eq_some_iff.mp hn
      rw [holds_bind] at hholds
      simp at hholds
    rw [node?_modify_of_ne hr] at hn
    exact .outer hn hholds hup (ih hp)

/-- Whoever has found the name before finds it still, maybe nearer. -/
theorem NearestHolder.exists_modify_bind (h : t.NearestHolder name c p) (q : Ref .scope)
    (v : Value) : ∃ p', (t.modify q (·.bind name v)).NearestHolder name c p' := by
  have here : ∀ {n}, t.node? q = some n →
      (t.modify q (·.bind name v)).NearestHolder name q q := fun {n} hn =>
    .here (node?_modify_self hn _) (by rw [holds_bind]; simp)
  -- on the old way out: it may end earlier now, where the name was bound
  induction h with
  | @here r n hn hholds =>
    by_cases hr : r = q
    · subst hr
      exact ⟨r, here hn⟩
    · exact ⟨r, .here ((node?_modify_of_ne hr _).trans hn) hholds⟩
  | @outer r up p n hn hholds hup _ ih =>
    by_cases hr : r = q
    · subst hr
      exact ⟨r, here hn⟩
    · obtain ⟨p', hp'⟩ := ih
      exact ⟨p', .outer ((node?_modify_of_ne hr _).trans hn) hholds hup hp'⟩

/-- `u` is `t` with a name bound to `v` in the scope `q`, and this is all that anybody sees. -/
structure Rebound (t : ScopeTree) (q : Ref .scope) (name : String) (v : Value) (u : ScopeTree) :
    Prop where
  bound : ∃ n, t.node? q = some n ∧ u.node? q = some (n.bind name v)
  others : ∀ p, p ≠ q → u.node? p = t.node? p
  seen : ∀ c, u.NearestHolder name c q → u.get? c name = some v
  shared : ∀ c, t.NearestHolder name c q → u.get? c name = some v
  unseen : ∀ c other, ¬ (other = name ∧ u.NearestHolder name c q) →
    u.get? c other = t.get? c other

/-- Binding a name in a scope is seen by those who find it there, and by nobody else. -/
theorem rebound_modify_bind (ht : t.Ordered) (hu : (t.modify q (·.bind name v)).Ordered)
    {n : Scope} (hq : t.node? q = some n) :
    t.Rebound q name v (t.modify q (·.bind name v)) := by
  have hnode := node?_modify_self hq (·.bind name v)
  have seen : ∀ c, (t.modify q (·.bind name v)).NearestHolder name c q →
      (t.modify q (·.bind name v)).get? c name = some v := by
    intro c hc
    rw [hc.get?_eq hu, hnode]
    exact Assoc.get?_insert_self n.bindings name v
  refine ⟨⟨n, hq, hnode⟩, fun p hp => node?_modify_of_ne hp _, seen,
    fun c hc => seen c (hc.modify_bind v), fun c other hnot => ?_⟩
  -- under the name itself, only those who find it elsewhere are left; under others, all
  by_cases hother : other = name
  · subst hother
    have hc : ¬ (t.modify q (·.bind other v)).NearestHolder other c q := fun hc => hnot ⟨rfl, hc⟩
    obtain ⟨p, m, hp, hm, -⟩ | ⟨hfree, -⟩ := hu.nearest?_cases c other
    · -- the name is found in a scope that is as before
      have hne : p ≠ q := fun he => hc (he ▸ hp)
      rw [hp.get?_eq hu, (hp.of_modify_bind hne).get?_eq ht, node?_modify_of_ne hne]
    -- who finds it nowhere did not find it before, for nothing was lost
    · rw [hu.get?_eq_none hfree, ht.get?_eq_none fun p hp => ?_]
      obtain ⟨p', hp'⟩ := hp.exists_modify_bind q v
      exact hfree p' hp'
  · exact (sameName_modify_bind v hother).get?_eq ht hu c

end

/-- The assignment of a program is that of the tree, and a fault where it is refused. -/
theorem rebindName_eq_reset (r : Ref .scope) (name : String) (v : Value) (span : Span) (s : State) :
    Eval.rebindName r name v span s =
      match s.scopes.reset r name v with
      | .ok u => .done () { s with scopes := u }
      | .error e => .stop (.fault ⟨.constant e.name, span⟩) s := by
  rw [Eval.rebindName, Eval.gets_bind_apply]
  exact Eval.writeName_apply _ name _ span s

/-- **An assignment changes one binding, and nobody else's view.** In a reachable tree, an
assignment to a name from a scope goes to the scope that reading the name ends at: the nearest one
that holds it, or else the scope itself. It is refused just if the name is read-only there, and then
leaves the tree as it is. Otherwise it binds the name in that one scope. Whoever then finds the name
nearest there sees the new value, and so do all who found it there before; whoever finds it
elsewhere sees what was seen before, and so does everybody under other names. Programs assign in
this way. -/
theorem reset_rebinds {t : ScopeTree} (ht : t.Reachable) {r : Ref .scope}
    (hr : (t.node? r).isSome) (name : String) (v : Value) :
    ((∃ e, t.reset r name v = .error e) ↔ t.isReadOnly r name = true) ∧
    (t.isReadOnly r name = true → Refused (.reset r name v) name t) ∧
    (t.isReadOnly r name = false → ∃ u q, t.reset r name v = .ok u ∧ t.Target name r q ∧
      t.get? r name = (t.node? q).bind (·.bindings.get? name) ∧ t.Rebound q name v u) ∧
    ∀ (s : State) (span : Span), s.scopes = t →
      (∀ u, t.reset r name v = .ok u →
        Eval.rebindName r name v span s = .done () { s with scopes := u }) ∧
      ∀ e, t.reset r name v = .error e →
        Eval.rebindName r name v span s = .stop (.fault ⟨.constant e.name, span⟩) s := by
  obtain ⟨q, n, htarget, hn, hholder, hget, hro⟩ := Target.reads ht hr name
  have hconst : t.isConstIn q name = n.isConst name := by
    rw [isConstIn, hn]
  -- the refusal and the new tree are read off the one equation
  have hreset : t.reset r name v =
      if t.isReadOnly r name then .error ⟨name⟩ else .ok (t.modify q (·.bind name v)) := by
    rw [reset, hholder, set, write, hconst, hro]
  refine ⟨?_, fun hread => ?_, fun hread => ?_, ?_⟩
  · rw [hreset]
    cases t.isReadOnly r name <;> simp
  · rw [hread, if_pos rfl] at hreset
    exact refused_of_error hreset
  · rw [hread, if_neg Bool.false_ne_true] at hreset
    have hu : (t.modify q (·.bind name v)).Ordered := by
      have hrun : (Op.reset r name v).run t = t.modify q (·.bind name v) := Op.run_of_ok hreset
      have hon : (Op.reset r name v).On t := hr
      exact hrun ▸ (ht.run hon).ordered
    exact ⟨_, q, hreset, htarget, by rw [hget, hn]; rfl, rebound_modify_bind ht.ordered hu hn⟩
  · rintro s span rfl
    have hassign := rebindName_eq_reset r name v span s
    exact ⟨fun u hu => by rw [hassign, hu], fun e he => by rw [hassign, he]⟩

/-- Two scopes in one that binds `count`. -/
def counting : ScopeTree :=
  empty.after [.child none 0 none, .set ⟨0⟩ "count" (.int 0), .child (some ⟨0⟩) 0 none,
    .child (some ⟨0⟩) 0 none]

/-- What is assigned in one of them is seen in the other. -/
theorem reset_rebinds_counting :
    (counting.Reachable ∧ (counting.node? ⟨1⟩).isSome) ∧
    counting.isReadOnly ⟨1⟩ "count" = false ∧
    ∃ u, counting.reset ⟨1⟩ "count" (.int 5) = .ok u ∧ u.get? ⟨2⟩ "count" = some (.int 5) := by
  have hreach : counting.Reachable :=
    Reachable.empty.after
      ⟨nofun, rfl, fun p hp => by cases hp; rfl, fun p hp => by cases hp; rfl, trivial⟩
  have hthere : (counting.node? ⟨1⟩).isSome := rfl
  have hwritable : counting.isReadOnly ⟨1⟩ "count" = false := rfl
  obtain ⟨-, -, hwrite, -⟩ := reset_rebinds hreach hthere "count" (.int 5)
  obtain ⟨u, q, hu, htarget, -, hrebound⟩ := hwrite hwritable
  -- both scopes see the name in the one around them
  have hroot : ∀ {r : Ref .scope} {n : Scope}, counting.node? r = some n →
      n.holds "count" = false → n.parent = some ⟨0⟩ → counting.NearestHolder "count" r ⟨0⟩ :=
    fun hn hnot hp => .outer hn hnot hp (.here rfl rfl)
  obtain rfl := htarget.eq_of_nearestHolder hreach.ordered (hroot rfl rfl rfl)
  exact ⟨⟨hreach, hthere⟩, hwritable, u, hu, hrebound.shared ⟨2⟩ (hroot rfl rfl rfl)⟩

end ScriptEngine.ScopeTree
