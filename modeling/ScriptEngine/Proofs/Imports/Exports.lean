import ScriptEngine.Proofs.Classes.Super
import ScriptEngine.Proofs.Imports.Roots
import ScriptEngine.Proofs.Operands

/-!
# What modules export

The names of a module are those that its scope binds, and they are public if they start with a
capital. There is a list of what a module exports, and four ways to get at it: as a member, by a
method call, and by an import of some names or of all. They all look into the scope of the module
as it is at that moment, and `Package.Answers` says what they find there: the value of a public
name, and a fault for every other name.

That the scope of the module binds a name is what is wanted (`ScopeTree.local?`); that the name is
visible from there is what is looked up. These are the same because the scope has no parent, in
every state that programs can get to (`Package.routes_agree`).
-/

namespace ScriptEngine

/-! ### Scopes without parents -/

namespace ScopeTree

variable {t : ScopeTree} {r : Ref .scope} {name : String}

/-- From a scope without a parent, what is visible is what it binds itself. -/
theorem IsRoot.get?_eq (h : t.IsRoot r) (name : String) : t.get? r name = t.local? r name := by
  obtain ⟨n, hn, hroot⟩ := h
  have hvalue : t.local? r name = n.bindings.get? name := by rw [local?, hn]; rfl
  rw [get?, nearest?, nearestWithin, hn, hvalue]
  dsimp only
  cases hholds : n.holds name with
  -- a name that the scope does not bind is looked for in its parent, and it has none
  | true => rfl
  | false =>
    rw [hroot]
    exact (Option.not_isSome_iff_eq_none.mp (Bool.not_eq_true _ ▸ hholds)).symm

/-- From a scope without a parent, the names that are visible are those it binds. -/
theorem IsRoot.mem_visibleNames_iff (h : t.IsRoot r) :
    name ∈ t.visibleNames r ↔ (t.local? r name).isSome := by
  obtain ⟨n, hn, hroot⟩ := h
  have hvalue : t.local? r name = n.bindings.get? name := by rw [local?, hn]; rfl
  rw [visibleNames, namesWithin, hn, hvalue, Assoc.isSome_get?_iff]
  simp [hroot]

end ScopeTree

/-! ### Public names -/

namespace Package

/-- The name starts with a capital of the Latin alphabet. -/
def Public (name : String) : Prop := ∃ c rest, name.toList = c :: rest ∧ 'A' ≤ c ∧ c ≤ 'Z'

/-- A name is given out just if it is public. -/
theorem isExported_iff {name : String} : isExported name = true ↔ Public name := by
  unfold isExported Public
  cases name.toList with
  | nil => simp
  | cons c rest =>
    have hupper : c.isUpper = true ↔ 'A' ≤ c ∧ c ≤ 'Z' := decide_eq_true_iff
    simp [hupper]

end Package

/-- The scope of a module binds a public name to a value. -/
def State.Exported (s : State) (p : Package) (name : String) (v : Value) : Prop :=
  s.scopes.local? p.scope name = some v ∧ Package.Public name

/-- **What a module answers** to a request for a name. -/
inductive Package.Answers (s : State) (p : Package) (name : String) : Except Cause Value → Prop
  | exported {v : Value} : s.Exported p name v → Answers s p name (.ok v)
  | hidden : ¬Package.Public name → Answers s p name (.error (.notExported p.name name))
  | unbound : Package.Public name → s.scopes.local? p.scope name = none →
      Answers s p name (.error (.unknownName (p.name ++ "." ++ name)))

variable {s t u : State} {r : Ref .package} {p : Package} {name : String} {v w : Value}

/-- A name stands for one value. -/
theorem State.Exported.unique (h : s.Exported p name v) (h' : s.Exported p name w) : v = w :=
  Option.some.inj (h.1.symm.trans h'.1)

/-- A value is answered just if it is exported. -/
theorem Package.Answers.ok_iff {a : Except Cause Value} (h : Answers s p name a) :
    a = .ok v ↔ s.Exported p name v := by
  cases h with
  | exported hexported =>
    constructor
    · rintro ⟨⟩
      exact hexported
    · intro h
      rw [hexported.unique h]
  | hidden hhidden => exact iff_of_false nofun fun h => hhidden h.2
  | unbound _ hnone => exact iff_of_false nofun fun h => nomatch hnone.symm.trans h.1

/-- A name that is not public is not exported. -/
theorem Package.Answers.of_not_public {a : Except Cause Value} (h : Answers s p name a)
    (hname : ¬Public name) : a = .error (.notExported p.name name) := by
  cases h with
  | exported hexported => exact absurd hexported.2 hname
  | hidden => rfl
  | unbound hpublic => exact absurd hpublic hname

/-- **The registry answers like the module.** -/
theorem State.export?_answers (hs : s.Rooted) (hr : s.packages.table.get? r = some p)
    (name : String) : Package.Answers s p name (s.export? r name) := by
  unfold State.export?
  -- the scope has no parent, so what it sees is what it binds
  simp only [hr, (hs r p hr).get?_eq name]
  cases hexported : Package.isExported name with
  | false => exact .hidden fun h => by simp [Package.isExported_iff.mpr h] at hexported
  | true =>
    have hpublic : Package.Public name := Package.isExported_iff.mp hexported
    cases hvalue : s.scopes.local? p.scope name with
    | none => exact .unbound hpublic hvalue
    | some v => exact .exported ⟨hvalue, hpublic⟩

/-- **The list of exports** has the public names that the scope binds, with their values. -/
theorem State.mem_exports_iff (hs : s.Rooted) (hr : s.packages.table.get? r = some p) :
    (name, v) ∈ s.exports r ↔ s.Exported p name v := by
  have hroot := hs r p hr
  simp only [State.exports, hr, List.mem_filterMap, List.mem_mergeSort, List.mem_filter,
    hroot.mem_visibleNames_iff, hroot.get?_eq, Package.isExported_iff, Option.map_eq_some_iff,
    Prod.mk.injEq]
  constructor
  · rintro ⟨_, ⟨-, hpublic⟩, _, hvalue, rfl, rfl⟩
    exact ⟨hvalue, hpublic⟩
  · rintro ⟨hvalue, hpublic⟩
    exact ⟨name, ⟨Option.isSome_of_eq_some hvalue, hpublic⟩, v, hvalue, rfl, rfl⟩

/-! ### Binding what is imported -/

/-- The state in which a scope binds one more name. -/
def State.bound (s : State) (scope : Ref .scope) (name : String) (v : Value) : State :=
  { s with scopes := s.scopes.modify scope (·.bind name v) }

/-- The state in which a scope binds more names, one after another. -/
def State.boundAll (s : State) (scope : Ref .scope) (entries : List (String × Value)) : State :=
  entries.foldl (fun s e => s.bound scope e.1 e.2) s

section Bind

variable {scope : Ref .scope} {span : Span} {entries : List (String × Value)}

/-- A name is bound unless it is a constant of the scope. -/
theorem Eval.bindName_apply (scope : Ref .scope) (name : String) (v : Value) (span : Span)
    (s : State) : bindName scope name v span s =
      if s.scopes.isConstIn scope name then .stop (.fault ⟨.constant name, span⟩) s
      else .done () (s.bound scope name v) := rfl

/-- Binding a name makes no constants, in this scope or another. -/
theorem State.isConstIn_bound (s : State) (scope : Ref .scope) (name : String) (v : Value)
    (q : Ref .scope) (other : String) :
    (s.bound scope name v).scopes.isConstIn q other = s.scopes.isConstIn q other := by
  simp only [ScopeTree.isConstIn, State.bound, ScopeTree.node?_modify]
  by_cases hq : scope.index = q.index
  · -- a write leaves the constants as they are
    rw [if_pos hq]
    cases s.scopes.node? q <;> rfl
  · rw [if_neg hq]

/-- A name that is bound has its value. -/
theorem State.local?_bound_self (h : (s.scopes.node? scope).isSome) :
    (s.bound scope name v).scopes.local? scope name = some v := by
  obtain ⟨n, hn⟩ := Option.isSome_iff_exists.mp h
  simp [ScopeTree.local?, State.bound, ScopeTree.node?_modify, hn, Scope.bind]

/-- Another name is what it was. -/
theorem State.local?_bound_of_ne {other : String} (h : other ≠ name) :
    (s.bound scope name v).scopes.local? scope other = s.scopes.local? scope other := by
  cases hn : s.scopes.node? scope <;>
    simp [ScopeTree.local?, State.bound, ScopeTree.node?_modify, hn, Scope.bind,
      Assoc.get?_insert_of_ne _ h]

/-- The scope is there still. -/
theorem State.isSome_node?_bound (h : (s.scopes.node? scope).isSome) :
    ((s.bound scope name v).scopes.node? scope).isSome := by
  obtain ⟨n, hn⟩ := Option.isSome_iff_exists.mp h
  simp [State.bound, ScopeTree.node?_modify, hn]

/-- Names that are no constants of the scope are all bound. -/
theorem Eval.forList_bindName (h : ∀ e ∈ entries, s.scopes.isConstIn scope e.1 = false) :
    forList (fun e => bindName scope e.1 e.2 span) entries s =
      .done () (s.boundAll scope entries) := by
  induction entries generalizing s with
  | nil => rfl
  | cons e rest ih =>
    obtain ⟨hfirst, hrest⟩ := List.forall_mem_cons.mp h
    have hbind : bindName scope e.1 e.2 span s = .done () (s.bound scope e.1 e.2) := by
      rw [bindName_apply, hfirst]
      rfl
    rw [forList, bind_of_done hbind]
    -- what is bound first makes no constants, so the others can be bound after it
    refine ih fun e' he' => ?_
    rw [State.isConstIn_bound]
    exact hrest e' he'

/-- The first constant among the names is the one that is refused. -/
theorem Eval.forList_bindName_of_const (h : ∃ e ∈ entries, s.scopes.isConstIn scope e.1 = true) :
    ∃ e ∈ entries, s.scopes.isConstIn scope e.1 = true ∧ ∃ u,
      forList (fun e => bindName scope e.1 e.2 span) entries s =
        .stop (.fault ⟨.constant e.1, span⟩) u := by
  induction entries generalizing s with
  | nil => exact nomatch h
  | cons e rest ih =>
    rw [forList]
    -- either this is the one, or one of the rest is, which binding this one has not changed
    cases hconst : s.scopes.isConstIn scope e.1 with
    | true =>
      refine ⟨e, List.mem_cons_self, hconst, s, bind_of_stop ?_ _⟩
      rw [bindName_apply, hconst]
      rfl
    | false =>
      have hbind : bindName scope e.1 e.2 span s = .done () (s.bound scope e.1 e.2) := by
        rw [bindName_apply, hconst]
        rfl
      obtain ⟨e', he', hconst'⟩ : ∃ e' ∈ rest, s.scopes.isConstIn scope e'.1 = true := by
        obtain ⟨e', he', hconst'⟩ := h
        obtain rfl | he' := List.mem_cons.mp he'
        · exact absurd hconst' (by simp [hconst])
        · exact ⟨e', he', hconst'⟩
      have hrest : ∃ e' ∈ rest, (s.bound scope e.1 e.2).scopes.isConstIn scope e'.1 = true :=
        ⟨e', he', by rwa [State.isConstIn_bound]⟩
      obtain ⟨e'', he'', hconst'', hstop⟩ := ih hrest
      rw [State.isConstIn_bound] at hconst''
      refine ⟨e'', List.mem_cons_of_mem _ he'', hconst'', ?_⟩
      rwa [bind_of_done hbind]

/-- A name that goes with one value only has this value, if it had it before or is bound to it. -/
theorem State.local?_boundAll (hscope : (s.scopes.node? scope).isSome)
    (honly : ∀ w, (name, w) ∈ entries → w = v)
    (h : (name, v) ∈ entries ∨ s.scopes.local? scope name = some v) :
    (s.boundAll scope entries).scopes.local? scope name = some v := by
  induction entries generalizing s with
  | nil => exact h.resolve_left nofun
  | cons e rest ih =>
    obtain ⟨name', w⟩ := e
    refine ih (isSome_node?_bound hscope) (fun w hw => honly w (List.mem_cons_of_mem _ hw)) ?_
    -- the last entry with this name decides, but all of them have the same value
    by_cases hname : name = name'
    · subst hname
      obtain rfl := honly w List.mem_cons_self
      exact .inr (local?_bound_self hscope)
    · rw [local?_bound_of_ne hname]
      refine h.imp_left fun hmem => ?_
      obtain heq | hmem := List.mem_cons.mp hmem
      · exact absurd (congrArg Prod.fst heq) hname
      · exact hmem

/-- Other names are what they were. -/
theorem State.local?_boundAll_of_notMem (h : ∀ w, (name, w) ∉ entries) :
    (s.boundAll scope entries).scopes.local? scope name = s.scopes.local? scope name := by
  induction entries generalizing s with
  | nil => rfl
  | cons e rest ih =>
    obtain ⟨name', w⟩ := e
    have hname : name ≠ name' := fun heq => h w (heq ▸ List.mem_cons_self)
    have hrest := ih (s := s.bound scope name' w) fun w hw => h w (List.mem_cons_of_mem _ hw)
    exact hrest.trans (local?_bound_of_ne hname)

end Bind

/-! ### Routes -/

section Routes

variable {E : Engine} {scope : Ref .scope} {x : Expr} {span : Span} {path : String}
  {before after replies : List (Answer × State)} {a : Except Cause Value}

/-- A member of a module is what the registry gives out. -/
theorem Expr.replay_member (hx : Access.namespace? scope x s = .done none s)
    (hobject : (E.expr scope x s).replay replies = some (.ok (.package r), t))
    (ha : t.export? r name = a) :
    (Expr.eval E scope (.mk (.member x name) span) s).replay replies =
      some (a.mapError fun c => .fault ⟨c, span⟩, t) := by
  have hreceiver : (E.operand scope x s).replay replies = some (.ok (.package r), t) :=
    Eval.replay_bind_last hobject
  have hget : Access.getMember E scope (.package r) name span t =
      Eval.ofExcept span (t.export? r name) t := rfl
  rw [Expr.eval_member hx, Eval.replay_bind_last hreceiver, hget, ha]
  cases a <;> rfl

/-- A method call evaluates its arguments and calls what the registry gives out then. -/
theorem Expr.replay_methodCall {n : Nat} {args : List Expr} {vs : List Value}
    (hx : Access.namespace? scope x s = .done none s)
    (hobject : ((Engine.level (n + 1)).expr scope x s).replay before = some (.ok (.package r), u))
    (hargs : ((Engine.level (n + 1)).exprs scope args u).replay after = some (.ok vs, t))
    (ha : t.export? r name = a) (rest : List (Answer × State)) :
    (Expr.eval (Engine.level (n + 1)) scope (.mk (.methodCall x name args) span) s).replay
        (before ++ (after ++ rest)) =
      ((Eval.ofExcept span a >>= fun callee => (Engine.level n).call scope callee vs span)
        t).replay rest := by
  have hcall : Expr.eval (Engine.level (n + 1)) scope (.mk (.methodCall x name args) span) s =
      ((Engine.level (n + 1)).expr scope x >>= fun receiver =>
        (Engine.level (n + 1)).exprs scope args >>= fun vs =>
          (Engine.level (n + 1)).invoke scope receiver name vs span) s := Eval.bind_of_done hx _
  rw [hcall, Eval.replay_bind hobject, Eval.replay_bind hargs, ← ha]
  rfl

/-- Binding one of the names that an import lists. -/
def Import.bindItem (scope : Ref .scope) (r : Ref .package) (span : Span)
    (item : String × Option String) : Eval Unit := do
  let v ← Eval.ofExcept span (← Eval.gets (·.export? r item.1))
  Eval.bindName scope (item.2.getD item.1) v span

/-- An import of some names binds them one after another, once the module is resolved. -/
theorem Import.run_named (items : List (String × Option String)) :
    Import.run E scope path (.named items) span =
      Import.resolve E scope path span >>= fun r =>
        Eval.forList (Import.bindItem scope r span) items := rfl

/-- A list of steps in two parts is made part by part. -/
theorem Eval.forList_append {α : Type} (f : α → Eval Unit) (as bs : List α) :
    forList f (as ++ bs) = forList f as >>= fun _ => forList f bs := by
  induction as with
  | nil => rfl
  | cons a as ih =>
    rw [List.cons_append, forList, ih]
    exact (bind_assoc _ _ _).symm

/-- One more name in the list of an import is bound after the others, to what the registry gives out
then. -/
theorem Import.replay_named {items : List (String × Option String)} {binder : Option String}
    (hr : (Import.resolve E scope path span s).replay replies = some (.ok r, u))
    (hitems : (Import.run E scope path (.named items) span s).replay replies = some (.ok (), t))
    (ha : t.export? r name = a) :
    (Import.run E scope path (.named (items ++ [(name, binder)])) span s).replay replies =
      ((Eval.ofExcept span a >>= fun v =>
        Eval.bindName scope (binder.getD name) v span) t).replay [] := by
  rw [Import.run_named, Eval.replay_bind_last hr] at hitems
  rw [Import.run_named, Eval.replay_bind_last hr, Eval.forList_append,
    Eval.replay_bind_last hitems]
  -- the last name is bound after the others, and is not followed by anything
  have hitem : Eval.forList (Import.bindItem scope r span) [(name, binder)] t =
      ((Eval.ofExcept span (t.export? r name) >>= fun v =>
        Eval.bindName scope (binder.getD name) v span) >>= fun _ => pure ()) t := rfl
  rw [hitem, ha]
  cases a with
  | error c => rfl
  | ok v =>
    have hbind : (Eval.ofExcept span (.ok v : Except Cause Value) >>= fun v =>
        Eval.bindName scope (binder.getD name) v span) t =
          Eval.bindName scope (binder.getD name) v span t := rfl
    rw [Eval.bind_apply, hbind, Eval.bindName_apply]
    split <;> rfl

/-- An import of all names binds what the module exports once it is resolved. -/
theorem Import.replay_all
    (hr : (Import.resolve E scope path span s).replay replies = some (.ok r, t)) :
    (Import.run E scope path .all span s).replay replies =
      (Eval.forList (fun e => Eval.bindName scope e.1 e.2 span) (t.exports r) t).replay [] := by
  have hrun : Import.run E scope path .all span =
      Import.resolve E scope path span >>= fun r => Eval.gets (·.exports r) >>= fun entries =>
        Eval.forList (fun e => Eval.bindName scope e.1 e.2 span) entries := rfl
  rw [hrun, Eval.replay_bind_last hr, Eval.gets_bind_apply]

end Routes

/-! ### Later states -/

/-- The run lets the state grow and keeps the scopes of modules without parents, up to each of its
waits and to its end, as long as the others let the state grow. -/
abbrev Run.KeepsRooted {α : Type} (s : State) (r : Run α) : Prop :=
  r.Along (fun s t => s.Grows t ∧ t.Rooted) State.Grows s

theorem Run.Grows.keepsRooted {α : Type} {r : Run α} (h : r.Grows s) (hs : s.Rooted) :
    r.KeepsRooted s :=
  h.always (fun hs h => h.rooted hs) (fun hs h => h.rooted hs) hs

/-- **All routes into a module agree.** The scopes of modules have no parents in every state of a
session, and whatever is done at any level and by other tasks meanwhile keeps it so, together with
the modules. In such a state, a module answers to each name in one way: with the value that its
scope binds the name to if this starts with a capital, and otherwise with a fault, which for a name
that does not start with a capital says that it is not exported. And

* the list of exports has the name with the value that is answered, and nothing else;
* a member of the module, once this has been evaluated, is what is answered then;
* a method call evaluates its arguments and calls what is answered then;
* an import that lists the name after others has bound the others first, and then binds what is
  answered, unless it would overwrite a constant;
* an import of all names binds exactly the names of the list, with the values answered then, or
  fails at one of them that is a constant. -/
theorem Package.routes_agree :
    (∀ setup programs, ((Session.start setup).runAll programs).2.state.Rooted) ∧
    (∀ n scope s, s.Rooted →
      (∀ e, ((Engine.level n).expr scope e s).KeepsRooted s) ∧
      (∀ stmt, ((Engine.level n).stmt scope stmt s).KeepsRooted s) ∧
      (∀ callee args span, ((Engine.level n).call scope callee args span s).KeepsRooted s) ∧
      ∀ receiver name args span,
        ((Engine.level n).invoke scope receiver name args span s).KeepsRooted s) ∧
    (∀ module name, (Cause.notExported module name).code = "NAME_NOT_EXPORTED") ∧
    ∀ (t : State) (r : Ref .package) (p : Package), t.Rooted →
      t.packages.table.get? r = some p →
      (∀ name, ∃ a, Answers t p name a ∧ (∀ v, (name, v) ∈ t.exports r ↔ a = .ok v) ∧
        (∀ E scope x s span replies, Access.namespace? scope x s = .done none s →
          (E.expr scope x s).replay replies = some (.ok (.package r), t) →
          (Expr.eval E scope (.mk (.member x name) span) s).replay replies =
            some (a.mapError fun c => .fault ⟨c, span⟩, t)) ∧
        (∀ n scope x args s span u before after vs, Access.namespace? scope x s = .done none s →
          ((Engine.level (n + 1)).expr scope x s).replay before = some (.ok (.package r), u) →
          ((Engine.level (n + 1)).exprs scope args u).replay after = some (.ok vs, t) →
          ∀ rest, (Expr.eval (Engine.level (n + 1)) scope
            (.mk (.methodCall x name args) span) s).replay (before ++ (after ++ rest)) =
              match a with
              | .ok callee => ((Engine.level n).call scope callee vs span t).replay rest
              | .error c => (Run.stop (.fault ⟨c, span⟩) t : Run Value).replay rest) ∧
        ∀ E scope path items binder s span u replies,
          (Import.resolve E scope path span s).replay replies = some (.ok r, u) →
          (Import.run E scope path (.named items) span s).replay replies = some (.ok (), t) →
          (Import.run E scope path (.named (items ++ [(name, binder)])) span s).replay replies =
            match a with
            | .ok v =>
              if t.scopes.isConstIn scope (binder.getD name) then
                some (.error (.fault ⟨.constant (binder.getD name), span⟩), t)
              else some (.ok (), t.bound scope (binder.getD name) v)
            | .error c => some (.error (.fault ⟨c, span⟩), t)) ∧
      ∀ E scope path s span replies, (t.scopes.node? scope).isSome →
        (Import.resolve E scope path span s).replay replies = some (.ok r, t) →
        ((∀ name v, t.Exported p name v → t.scopes.isConstIn scope name = false) →
          ∃ u, (Import.run E scope path .all span s).replay replies = some (.ok (), u) ∧
            (∀ name v, t.Exported p name v → u.scopes.local? scope name = some v) ∧
            ∀ name, (∀ v, ¬t.Exported p name v) →
              u.scopes.local? scope name = t.scopes.local? scope name) ∧
        ((∃ name v, t.Exported p name v ∧ t.scopes.isConstIn scope name = true) →
          ∃ name v u, t.Exported p name v ∧ t.scopes.isConstIn scope name = true ∧
            (Import.run E scope path .all span s).replay replies =
              some (.error (.fault ⟨.constant name, span⟩), u)) := by
  refine ⟨Session.rooted_runAll, ?_, fun _ _ => rfl, ?_⟩
  · intro n scope s hs
    have hE := Engine.level_grows n
    exact ⟨fun e => (hE.expr scope e s).keepsRooted hs,
      fun stmt => (hE.stmt scope stmt s).keepsRooted hs,
      fun callee args span => (hE.call scope callee args span s).keepsRooted hs,
      fun receiver name args span => (hE.invoke scope receiver name args span s).keepsRooted hs⟩
  intro t r p ht hr
  constructor
  · intro name
    -- every route asks the registry, and the registry answers like the module
    obtain ⟨a, ha⟩ : ∃ a, t.export? r name = a := ⟨_, rfl⟩
    have hanswers : Answers t p name a := ha ▸ State.export?_answers ht hr name
    refine ⟨a, hanswers, fun v => (State.mem_exports_iff ht hr).trans hanswers.ok_iff.symm,
      fun E scope x s span replies hx hobject => Expr.replay_member hx hobject ha, ?_, ?_⟩
    · intro n scope x args s span u before after vs hx hobject hargs rest
      rw [Expr.replay_methodCall hx hobject hargs ha rest]
      cases a <;> rfl
    · intro E scope path items binder s span u replies hresolve hitems
      rw [Import.replay_named hresolve hitems ha]
      cases a with
      | error c => rfl
      | ok v =>
        show (Eval.bindName scope (binder.getD name) v span t).replay [] = _
        rw [Eval.bindName_apply]
        split <;> rfl
  -- an import of all names binds the entries of the list of exports
  · intro E scope path s span replies hscope hresolve
    have hmem : ∀ name v, (name, v) ∈ t.exports r ↔ t.Exported p name v :=
      fun name v => State.mem_exports_iff ht hr
    constructor
    · intro hfree
      have hentries : ∀ e ∈ t.exports r, t.scopes.isConstIn scope e.1 = false :=
        fun e he => hfree e.1 e.2 ((hmem _ _).mp he)
      refine ⟨t.boundAll scope (t.exports r), ?_, ?_, ?_⟩
      · rw [Import.replay_all hresolve, Eval.forList_bindName hentries]
        rfl
      · intro name v hv
        -- the list may be in any order, as the values of one name in it agree
        exact State.local?_boundAll hscope (fun w hw => ((hmem _ _).mp hw).unique hv)
          (.inl ((hmem _ _).mpr hv))
      · intro name hnone
        exact State.local?_boundAll_of_notMem fun w hw => hnone w ((hmem _ _).mp hw)
    · rintro ⟨name, v, hv, hname⟩
      have hblocked : ∃ e ∈ t.exports r, t.scopes.isConstIn scope e.1 = true :=
        ⟨(name, v), (hmem _ _).mpr hv, hname⟩
      obtain ⟨e, he, heconst, u, hstop⟩ := Eval.forList_bindName_of_const hblocked
      refine ⟨e.1, e.2, u, (hmem _ _).mp he, heconst, ?_⟩
      rw [Import.replay_all hresolve, hstop]
      rfl

/-- A module with a public and a private name. -/
def library : Program :=
  [.mk (.declare "Area" (some (.mk (.int 1) .unknown))) .unknown,
    .mk (.declare "helper" (some (.mk (.int 2) .unknown))) .unknown]

/-- An interpreter that can import the module. -/
def besideLibrary : State :=
  .initial ⟨.empty, .default, some (.ofList [("m", library)]), .empty, false, 0, 0⟩

/-- The interpreter once it has imported the module. -/
def withLibrary : State :=
  match Import.run (.level 2) State.root "m" (.whole "M") .unknown besideLibrary with
  | .done _ t => t
  | _ => besideLibrary

/-- The program imports the module as a whole and then gets at its names on every route. -/
theorem Package.routes_agree_library :
    withLibrary.Rooted ∧ ("Area", .int 1) ∈ withLibrary.exports ⟨0⟩ ∧
      (Expr.eval (.level 2) State.root (.mk (.member (.mk (.name "M") .unknown) "Area") .unknown)
        withLibrary).replay [] = some (.ok (.int 1), withLibrary) ∧
      (Expr.eval (.level 2) State.root
        (.mk (.methodCall (.mk (.name "M") .unknown) "helper" []) .unknown) withLibrary).replay [] =
          some (.error (.fault ⟨.notExported "m" "helper", .unknown⟩), withLibrary) ∧
      (Import.run (.level 2) State.root "m" (.named [("Area", some "size")]) .unknown
        withLibrary).replay [] = some (.ok (), withLibrary.bound State.root "size" (.int 1)) ∧
      ∃ u, (Import.run (.level 2) State.root "m" .all .unknown withLibrary).replay [] =
          some (.ok (), u) ∧
        u.scopes.local? State.root "Area" = some (.int 1) ∧
        u.scopes.local? State.root "helper" = none := by
  obtain ⟨-, hkeeps, -, hroutes⟩ := routes_agree
  have hrooted : withLibrary.Rooted := by
    obtain ⟨-, hstmt, -⟩ := hkeeps 3 State.root besideLibrary (State.rooted_initial _)
    have himport := hstmt (.mk (.importFrom "m" (.whole "M")) .unknown)
    have hdone : (Engine.level 3).stmt State.root (.mk (.importFrom "m" (.whole "M")) .unknown)
        besideLibrary = .done Stmt.done withLibrary := rfl
    rw [hdone] at himport
    cases himport with
    | done h => exact h.2
  have htable : withLibrary.packages.table.get? ⟨0⟩ = some ⟨"m", "m", ⟨1⟩⟩ := rfl
  obtain ⟨hnames, hall⟩ := hroutes withLibrary ⟨0⟩ _ hrooted htable
  have harea : withLibrary.Exported ⟨"m", "m", ⟨1⟩⟩ "Area" (.int 1) :=
    ⟨rfl, 'A', ['r', 'e', 'a'], rfl, by decide, by decide⟩
  have hhidden : ¬Public "helper" := by simp [← isExported_iff, isExported]
  obtain ⟨a, ha, hlist, hmember, -, himport⟩ := hnames "Area"
  obtain rfl := ha.ok_iff.mpr harea
  obtain ⟨b, hb, -, -, hmethod, -⟩ := hnames "helper"
  obtain rfl := hb.of_not_public hhidden
  have hspace : Access.namespace? State.root (.mk (.name "M") .unknown) withLibrary =
      .done none withLibrary := rfl
  have hobject : ((Engine.level 2).expr State.root (.mk (.name "M") .unknown) withLibrary).replay
      [] = some (.ok (.package ⟨0⟩), withLibrary) := rfl
  have hargs : ((Engine.level 2).exprs State.root [] withLibrary).replay [] =
      some (.ok [], withLibrary) := rfl
  have hresolve : (Import.resolve (.level 2) State.root "m" .unknown withLibrary).replay [] =
      some (.ok ⟨0⟩, withLibrary) := rfl
  have hnone : (Import.run (.level 2) State.root "m" (.named []) .unknown withLibrary).replay [] =
      some (.ok (), withLibrary) := rfl
  have hscope : (withLibrary.scopes.node? State.root).isSome := rfl
  have hconst : ∀ name, withLibrary.scopes.isConstIn State.root name = false := fun _ => rfl
  obtain ⟨u, hu, hbound, hrest⟩ :=
    (hall _ _ _ _ _ _ hscope hresolve).1 fun name _ _ => hconst name
  refine ⟨hrooted, (hlist _).mpr rfl, hmember _ _ _ _ _ _ hspace hobject, ?_, ?_, u, hu,
    hbound _ _ harea, ?_⟩
  · exact hmethod 1 _ _ [] _ _ _ [] [] [] hspace hobject hargs []
  · have hsize := himport _ _ _ [] (some "size") _ _ _ _ hresolve hnone
    rw [List.nil_append] at hsize
    rw [hsize]
    simp only [hconst]
    rfl
  · rw [hrest "helper" fun v hv => hhidden hv.2]
    rfl

end ScriptEngine
