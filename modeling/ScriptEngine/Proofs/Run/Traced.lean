import ScriptEngine.Proofs.Run.Built

/-!
# Computations that follow a path

`Traced x m` says that every run of `m` that ends has followed a `Path` at the site `x`, whatever
state it started in. The property goes through every way to put computations together. Only the
steps that open scopes, push frames, defer calls or import need an argument of their own.

An engine is traced if each of its activities is, at the sites it may be used from
(`Engine.Traced`).
-/

namespace ScriptEngine

namespace Eval

variable {α β : Type} {x : Site}

/-- Every run that ends has followed a path at the site. -/
def Traced (x : Site) (m : Eval α) : Prop :=
  ∀ ⦃s : State⦄ ⦃o : Except Fault α⦄ ⦃s' : State⦄, x.Valid s → (m s).Ends o s' →
    ∃ ds, Path x ds s s'

namespace Traced

/-- A computation that leaves the state as it is. -/
theorem of_refl {m : Eval α} (h : ∀ s o s', (m s).Ends o s' → s' = s) : Traced x m := by
  intro s o s' _ ho
  rw [h s o s' ho]
  exact ⟨[], .refl x s⟩

/-- A computation that changes data only. -/
theorem of_data {m : Eval α} (h : ∀ s o s', (m s).Ends o s' → DataStep s s') : Traced x m :=
  fun _ _ _ _ ho => ⟨[], .data (h _ _ _ ho)⟩

/-- Away from every scope is at every site. -/
theorem weaken {m : Eval α} (hm : Traced .away m) : Traced x m := by
  intro s o s' _ ho
  -- the site has nothing to be valid for
  obtain ⟨ds, hd⟩ := hm nofun ho
  exact ⟨ds, hd.weaken⟩

/-- What an expression does in a scope can be done at every site of that scope. -/
theorem of_expr {c : Ref .scope} {m : Eval α} (hm : Traced (.expr c) m)
    (hx : x.home? = some c) : Traced x m := by
  intro s o s' hv ho
  -- an expression may stand where a statement may, and not the other way round
  cases x with
  | away => exact nomatch hx
  | expr b =>
    obtain rfl : b = c := Option.some.inj hx
    exact hm hv ho
  | stmt b =>
    obtain rfl : b = c := Option.some.inj hx
    obtain ⟨ds, hd⟩ := hm hv ho
    exact ⟨ds, hd.expr_stmt⟩

/-- Where nothing can be deferred, the stack is kept as it is. -/
theorem keeps_stack {m : Eval α} (hm : Traced x m) {s t : State} {o : Except Fault α}
    (hx : x.Valid s) (hne : ∀ c, x ≠ .stmt c) (h : (m s).Ends o t) :
    t.stack = s.stack ∧ s.scopes.Extends t.scopes := by
  obtain ⟨ds, hd⟩ := hm hx h
  -- what is deferred is deferred by a statement
  obtain rfl | ⟨c, hc⟩ := hd.eq_nil_or_stmt
  · exact ⟨by simpa using hd.stack_eq hx, hd.scopes_extend⟩
  · exact absurd hc (hne c)

/-! ### Ends -/

theorem pure (a : α) : Traced x (Pure.pure a) :=
  of_refl fun _ _ _ h => (ends_pure_iff.mp h).2

theorem raise (f : Fault) : Traced x (Eval.raise f : Eval α) :=
  of_refl fun _ _ _ h => (ends_raise_iff.mp h).2

theorem abort (message : String) : Traced x (Eval.abort message : Eval α) :=
  of_refl fun _ _ _ h => absurd h Run.not_ends_abort

theorem gets (f : State → α) : Traced x (Eval.gets f) :=
  of_refl fun _ _ _ h => (ends_gets_iff.mp h).2

/-! ### Sequences -/

theorem bind {m : Eval α} {f : α → Eval β} (hm : Traced x m)
    (hf : ∀ a, Traced x (f a)) : Traced x (m >>= f) := by
  intro s o s' hx ho
  obtain ⟨a, t, ha, ho⟩ | ⟨e, -, he⟩ := ends_bind_iff.mp ho
  · -- the site is still there for the second part
    obtain ⟨ds, hd⟩ := hm hx ha
    obtain ⟨es, he⟩ := hf a (hd.valid hx) ho
    exact ⟨es ++ ds, hd.trans he⟩
  · exact hm hx he

theorem attempt {m : Eval α} (hm : Traced x m) : Traced x (Eval.attempt m) := by
  intro s o s' hx ho
  obtain ⟨r, -, hr⟩ := ends_attempt_iff.mp ho
  exact hm hx hr

theorem ensuring {m : Eval α} {f : State → State} (hm : Traced x m)
    (hf : ∀ s, DataStep s (f s)) : Traced x (Eval.ensuring m f) := by
  intro s o s' hx ho
  -- the last step is one on data, wherever the computation has ended
  obtain ⟨t, ht, rfl⟩ := ends_ensuring_iff.mp ho
  obtain ⟨ds, hd⟩ := hm hx ht
  exact ⟨_, hd.trans (.data (hf t))⟩

/-! ### Steps on data -/

theorem modifyGet {f : State → α × State} (hf : ∀ s, DataStep s (f s).2) :
    Traced x (Eval.modifyGet f) := by
  refine of_data fun s o s' h => ?_
  rw [(ends_modifyGet_iff.mp h).2]
  exact hf s

end Traced

theorem dataStep_of_idle {s s' : State} (h : Idle s s') : DataStep s s' := by
  obtain ⟨sync, clock, spawned, rfl⟩ := h
  exact ⟨rfl, rfl, rfl, rfl, rfl⟩

theorem await_traced (w : Wait) : Traced x (await w) := by
  refine .of_data fun s o s' h => ?_
  -- the others do nothing that a path could not tell
  obtain ⟨a, t, ht, ho⟩ := Run.ends_wait_iff.mp h
  rw [(Run.ends_done_iff.mp ho).2]
  exact dataStep_of_idle ht

theorem yieldTurn_traced : Traced x yieldTurn := by
  refine .of_data fun s o s' h => ?_
  unfold yieldTurn at h
  split at h
  · obtain ⟨a, t, ht, ho⟩ := Run.ends_wait_iff.mp h
    rw [(Run.ends_done_iff.mp ho).2]
    exact dataStep_of_idle ht
  · rw [(Run.ends_done_iff.mp h).2]
    exact ⟨rfl, rfl, rfl, rfl, rfl⟩

theorem newBound_traced (receiver : Value) (method : String) (scope : Ref .scope)
    (span : Span) : Traced x (newBound receiver method scope span) :=
  .modifyGet fun _ => ⟨rfl, rfl, rfl, rfl, rfl⟩

/-! ### Names -/

/-- A write to a name of the home scope, or to a name that is bound where it is written. -/
theorem writeName_ends {x : Site} {scope : Ref .scope} {name : String} {f : Scope → Scope}
    {span : Span} {s s' : State} {o : Except Fault Unit} (hf : NameWrite name f)
    (hs : x.home? = some scope ∨ s.scopes.hasLocal scope name)
    (h : (writeName scope name f span s).Ends o s') : Path x [] s s' := by
  unfold writeName at h
  split at h
  -- a constant is not written to
  · obtain ⟨-, rfl⟩ := Run.ends_fault_iff.mp h
    exact .refl x s'
  · next hc =>
    obtain ⟨-, rfl⟩ := Run.ends_done_iff.mp h
    exact .write hs (by simpa using hc) hf

/-- The scope that is written to by an assignment holds the name, or is the present one. -/
theorem holder_eq_or_hasLocal (t : ScopeTree) (r : Ref .scope) (name : String) :
    t.holder r name = r ∨ t.hasLocal (t.holder r name) name := by
  unfold ScopeTree.holder
  split
  -- the name is bound somewhere on the way out
  · next found s hs =>
    obtain ⟨hnode, hholds⟩ := ScopeTree.node?_of_nearestWithin hs
    exact .inr (by simpa [ScopeTree.hasLocal, hnode] using hholds)
  · exact .inl rfl

theorem rebindName_traced {scope : Ref .scope} (hx : x.home? = some scope)
    (name : String) (v : Value) (span : Span) : Traced x (rebindName scope name v span) := by
  intro s o s' _ ho
  rw [rebindName, gets_bind_apply] at ho
  refine ⟨[], writeName_ends (.bind v) ?_ ho⟩
  obtain h | h := holder_eq_or_hasLocal s.scopes scope name
  · exact .inl (h.symm ▸ hx)
  · exact .inr h

/-! ### Scopes -/

theorem Opens.ends_bind {task : State → Nat} {m : Eval (Ref .scope)} (hm : Opens task m)
    {f : Ref .scope → Eval α} {s s' : State} {o : Except Fault α}
    (h : ((m >>= f) s).Ends o s') :
    ∃ parent owner, (f s.newScope (s.withScope (.fresh parent (task s) owner))).Ends o s' := by
  obtain ⟨parent, owner, hs⟩ := hm s
  rw [bind_apply, hs] at h
  exact ⟨parent, owner, h⟩

namespace Traced

/-- Work in a new scope can be done anywhere. -/
theorem within {task : State → Nat} {m : Eval (Ref .scope)} (hm : Opens task m)
    {f : Ref .scope → Eval α} (hf : ∀ c, Traced (.expr c) (f c)) : Traced x (m >>= f) := by
  intro s o s' _ ho
  obtain ⟨parent, owner, ho⟩ := hm.ends_bind ho
  obtain ⟨ds, hd⟩ := hf s.newScope (Site.valid_newScope rfl) ho
  -- no statements run there, so nothing was deferred
  obtain rfl | ⟨c, hc⟩ := hd.eq_nil_or_stmt
  · exact ⟨[], .within parent _ owner hd⟩
  · exact nomatch hc

/-- Statements in a new scope of the same task are statements of the scope around it. -/
theorem block {b : Ref .scope} {m : Eval (Ref .scope)} (hm : Opens (·.scopes.task b) m)
    {f : Ref .scope → Eval α} (hf : ∀ c, Traced (.stmt c) (f c)) :
    Traced (.stmt b) (m >>= f) := by
  intro s o s' _ ho
  obtain ⟨parent, owner, ho⟩ := hm.ends_bind ho
  obtain ⟨ds, hd⟩ := hf s.newScope (Site.valid_newScope rfl) ho
  exact ⟨ds, .block parent owner hd⟩

end Traced

/-! ### Events and packages -/

theorem notify_statement_traced (line : Nat) : Traced x (notify (.statement line)) := by
  intro s o s' _ ho
  obtain ⟨-, rfl⟩ := ends_modify_iff.mp ho
  exact ⟨[], .statement s line⟩

theorem newPackage_traced (path : String) (scope : Ref .scope) :
    Traced x (newPackage path scope) := by
  intro s o s' _ ho
  obtain ⟨-, rfl⟩ := ends_modifyGet_iff.mp ho
  exact ⟨[], .loaded s path _⟩

end Eval

/-! ### Engines -/

open Eval

/-- The engine is one of the levels, and every activity of it follows a path: that of its kind
where it has a scope to bind names in, and one away from all scopes where it calls. -/
structure Engine.Traced (E : Engine) : Prop where
  isLevel : ∃ n, E = .level n
  expr (scope : Ref .scope) (e : Expr) : Eval.Traced (.expr scope) (E.expr scope e)
  stmt (scope : Ref .scope) (stmt : Stmt) : Eval.Traced (.stmt scope) (E.stmt scope stmt)
  call (scope : Ref .scope) (callee : Value) (args : List Value) (span : Span) :
    Eval.Traced .away (E.call scope callee args span)
  invoke (scope : Ref .scope) (receiver : Value) (name : String) (args : List Value)
    (span : Span) : Eval.Traced .away (E.invoke scope receiver name args span)
  cycle (scope : Ref .scope) (condition : Expr) (body : List Stmt) :
    Eval.Traced (.stmt scope) (E.cycle scope condition body)
  drain (scope : Ref .scope) (vars : LoopVars) (r : Ref .channel) (index : Nat)
    (body : List Stmt) : Eval.Traced (.stmt scope) (E.drain scope vars r index body)

theorem Engine.idle_traced : Engine.idle.Traced where
  isLevel := ⟨0, rfl⟩
  expr _ _ := .of_refl fun _ _ _ h => absurd h Run.not_ends_exhausted
  stmt _ _ := .of_refl fun _ _ _ h => absurd h Run.not_ends_exhausted
  call _ _ _ _ := .of_refl fun _ _ _ h => absurd h Run.not_ends_exhausted
  invoke _ _ _ _ _ := .of_refl fun _ _ _ h => absurd h Run.not_ends_exhausted
  cycle _ _ _ := .of_refl fun _ _ _ h => absurd h Run.not_ends_exhausted
  drain _ _ _ _ _ := .of_refl fun _ _ _ h => absurd h Run.not_ends_exhausted

end ScriptEngine
