import ScriptEngine.Proofs.Run.Watched
import ScriptEngine.Proofs.Run.Calls
import ScriptEngine.Proofs.Run.Statements
import ScriptEngine.Proofs.Constants

/-!
# Bodies keep to themselves

The body of a block, of a branch, of a loop, of a handler or of a function runs in a scope of its
own. What it declares is bound there, and so is what it assigns to without anyone having declared
it; to the scopes that were there before, it can only assign. `ScopeTree.KeepsNames home t u` says
so of the trees before and after: every scope of `t` other than `home` binds the same names as
before, the same ones for good, and these to the same values.

`Eval.Tidy home m` says of a computation that `home` is the only scope in which its runs add names,
wherever they can be seen and whatever they end with. An expression and a statement are tidy but for
their own scope, calls and methods altogether (`Engine.watched_tidy`, the fifth reading of
`Eval.Built`). A scope that is new is none of those that were there before, so whatever runs in a
new scope is tidy altogether (`ScopeTree.KeepsNames.of_add`); that is where the names of a body
stop. The main result is `Engine.bodies_keep_names`.
-/

namespace ScriptEngine

/-! ### Names of scopes -/

/-- The scope `m` is `n` with other values: it binds the same names, those that are bound for good
to the same values. -/
structure Scope.SameNames (n m : Scope) : Prop where
  names : m.bindings.keys = n.bindings.keys
  constants : m.constants = n.constants
  values : ∀ name, n.isConst name = true → m.bindings.get? name = n.bindings.get? name
  parent : m.parent = n.parent
  task : m.task = n.task
  owner : m.owner = n.owner

namespace Scope.SameNames

variable {n m l : Scope}

/-- A scope has its own names. -/
theorem refl (n : Scope) : n.SameNames n := ⟨rfl, rfl, fun _ _ => rfl, rfl, rfl, rfl⟩

/-- Names that stay twice have stayed. -/
theorem trans (h : n.SameNames m) (h' : m.SameNames l) : n.SameNames l := by
  refine ⟨h'.names.trans h.names, h'.constants.trans h.constants, fun name hname => ?_,
    h'.parent.trans h.parent, h'.task.trans h.task, h'.owner.trans h.owner⟩
  -- what is bound for good in the first is so in the second, since the constants are the same
  have hm : m.isConst name = true := by rwa [isConst, h.constants]
  rw [h'.values name hm, h.values name hname]

end Scope.SameNames

/-- An entry that is written over has its place still. -/
theorem Assoc.keys_put {κ ν : Type} [DecidableEq κ] {k : κ} {es : List (κ × ν)} {w : ν}
    (h : lookup k es = some w) (v : ν) : (put k v es).map (·.1) = es.map (·.1) := by
  induction es with
  | nil => exact nomatch h
  | cons e rest ih =>
    obtain ⟨k', w'⟩ := e
    by_cases hk : k' = k
    · simp [put, hk]
    · simp only [lookup, hk, if_false] at h
      simp [put, hk, ih h]

/-- To write to a name that is bound, and not for good, is to change its value. -/
theorem Scope.sameNames_bind {n : Scope} {name : String} (hholds : n.holds name = true)
    (hconst : n.isConst name = false) (v : Value) : n.SameNames (n.bind name v) := by
  obtain ⟨w, hw⟩ : ∃ w, n.bindings.get? name = some w := Option.isSome_iff_exists.mp hholds
  refine ⟨Assoc.keys_put hw v, rfl, fun other hother => ?_, rfl, rfl, rfl⟩
  -- `name` itself may be written, so a constant is another name
  have hne : other ≠ name := by
    rintro rfl
    rw [hconst] at hother
    cases hother
  exact Assoc.get?_insert_of_ne n.bindings hne v

namespace ScopeTree

/-- Every scope of `t` is a scope of `u`, and except for `home` it has the same names, those that
are bound for good with the same values. -/
def KeepsNames (home : Option (Ref .scope)) (t u : ScopeTree) : Prop :=
  ∀ (r : Ref .scope) (n : Scope), t.node? r = some n →
    ∃ m, u.node? r = some m ∧ (home ≠ some r → n.SameNames m)

namespace KeepsNames

variable {home : Option (Ref .scope)} {t u v : ScopeTree}

/-- A tree has its own names. -/
theorem refl : t.KeepsNames home t :=
  fun _ n hn => ⟨n, hn, fun _ => .refl n⟩

/-- What keeps names twice keeps them. -/
theorem trans (h : t.KeepsNames home u) (h' : u.KeepsNames home v) : t.KeepsNames home v := by
  intro r n hn
  obtain ⟨m, hm, hnm⟩ := h r n hn
  obtain ⟨l, hl, hml⟩ := h' r m hm
  exact ⟨l, hl, fun hr => (hnm hr).trans (hml hr)⟩

/-- What adds no names anywhere adds none outside of a scope. -/
theorem weaken (h : t.KeepsNames none u) : t.KeepsNames home u := by
  intro r n hn
  obtain ⟨m, hm, hnm⟩ := h r n hn
  exact ⟨m, hm, fun _ => hnm nofun⟩

/-- A new scope changes none that was there before. -/
theorem add (t : ScopeTree) (n : Scope) : t.KeepsNames home (t.add n).2 := by
  intro r m hm
  refine ⟨m, ?_, fun _ => .refl m⟩
  rw [node?_add_of_isSome n (by rw [hm]; rfl), hm]

/-- **Where the names of a body stop.** What adds names to a new scope only adds none to the scopes
that were there before. -/
theorem of_add {n : Scope} (h : (t.add n).2.KeepsNames (some ⟨t.nodes.size⟩) u) :
    t.KeepsNames home u := by
  intro r m hm
  have hsome : (t.node? r).isSome := by rw [hm]; rfl
  obtain ⟨l, hl, hml⟩ := h r m ((node?_add_of_isSome n hsome).trans hm)
  refine ⟨l, hl, fun _ => hml ?_⟩
  -- the new scope has an index of its own
  rintro ⟨⟩
  simp [node?] at hm

/-- A write in the home scope. -/
theorem write_home (t : ScopeTree) (c : Ref .scope) (f : Scope → Scope) :
    t.KeepsNames (some c) (t.modify c f) := by
  intro r n hn
  -- the scope written to is the home, which may get names, or another one, which is as it was
  by_cases hr : c.index = r.index
  · refine ⟨f n, by rw [node?_modify, if_pos hr, hn]; rfl, fun hne => absurd ?_ hne⟩
    rw [show c = r from congrArg Ref.mk hr]
  · exact ⟨n, by rw [node?_modify, if_neg hr, hn], fun _ => .refl n⟩

/-- A write to a name where it is bound, and not for good. -/
theorem write_holder {c : Ref .scope} {name : String} (hlocal : t.hasLocal c name = true)
    (hconst : t.isConstIn c name = false) (v : Value) :
    t.KeepsNames home (t.modify c (·.bind name v)) := by
  intro r n hn
  by_cases hr : c.index = r.index
  · obtain rfl : c = r := congrArg Ref.mk hr
    rw [hasLocal, hn] at hlocal
    rw [isConstIn, hn] at hconst
    refine ⟨n.bind name v, by rw [node?_modify, if_pos rfl, hn]; rfl, fun _ => ?_⟩
    exact Scope.sameNames_bind hlocal hconst v
  · exact ⟨n, by rw [node?_modify, if_neg hr, hn], fun _ => .refl n⟩

end KeepsNames

/-! ### What is visible -/

/-- Two scopes with the same names hold the same names. -/
theorem holds_eq {n m : Scope} (h : n.SameNames m) (name : String) :
    m.holds name = n.holds name := by
  have hmem : ∀ es : List (String × Value),
      (Assoc.lookup name es).isSome = (es.map (·.1)).contains name := by
    intro es
    induction es with
    | nil => rfl
    | cons e rest ih =>
      by_cases he : e.1 = name
      · simp [Assoc.lookup, he]
      · simp [Assoc.lookup, he, Ne.symm he, ih]
  unfold Scope.holds Assoc.contains Assoc.get?
  rw [hmem, hmem]
  exact congrArg (List.contains · name) h.names

/-- A name is visible just if some scope holds it on the way to the root. -/
theorem get?_isSome (t : ScopeTree) (r : Ref .scope) (name : String) :
    (t.get? r name).isSome = (t.nearest? (·.holds name) r).isSome := by
  unfold get?
  cases h : t.nearest? (·.holds name) r with
  | none => rfl
  | some found => exact (node?_of_nearestWithin h).2

/-- **Nothing leaks.** Where no scope has got a name, the same names are visible as before. -/
theorem KeepsNames.visible {t u : ScopeTree} (h : t.KeepsNames none u) (ht : t.Ordered)
    {r : Ref .scope} (hr : (t.node? r).isSome) (name : String) :
    (u.get? r name).isSome = (t.get? r name).isSome := by
  rw [get?_isSome, get?_isSome]
  unfold nearest?
  generalize r.index + 1 = fuel
  -- the walks go through the same scopes, which hold the same names
  induction fuel generalizing r with
  | zero => rfl
  | succ fuel ih =>
    obtain ⟨n, hn⟩ := Option.isSome_iff_exists.mp hr
    obtain ⟨m, hm, hnm⟩ := h r n hn
    have hnm := hnm nofun
    simp only [nearestWithin, hn, hm, holds_eq hnm name, hnm.parent]
    split
    · rfl
    · cases hp : n.parent with
      | none => rfl
      | some p =>
        -- the parent comes before its child, so it is there
        have hlt : p.index < r.index := ht r p n hn hp
        have hsize : r.index < t.nodes.size := by simpa [node?] using hr
        exact ih (by simpa [node?] using Nat.lt_trans hlt hsize)

end ScopeTree

/-! ### Tidy runs -/

variable {home : Option (Ref .scope)} {t u : ScopeTree} {s : State} {α β : Type}

instance : IsTrans State fun _ _ => True := ⟨fun _ _ _ _ _ => trivial⟩

/-- Wherever the run of a lone task can be seen, and whatever it ends with, the scopes of `t` other
than `home` have their names still. -/
abbrev Run.KeepsNames (home : Option (Ref .scope)) (t : ScopeTree) (s : State) (r : Run α) : Prop :=
  r.Throughout (fun _ _ => True) (fun u => t.KeepsNames home u.scopes)
    (fun _ u => t.KeepsNames home u.scopes) s

namespace Run.KeepsNames

variable {r : Run α}

/-- What comes after something tidy is part of the same. -/
theorem after (h : t.KeepsNames home u) (hr : r.KeepsNames home u s) : r.KeepsNames home t s :=
  hr.mono (fun _ _ => id) (fun _ ht => h.trans ht) fun _ _ ht => h.trans ht

/-- A run that adds no names anywhere adds none outside of a scope. -/
theorem weaken (hr : r.KeepsNames none t s) : r.KeepsNames home t s :=
  hr.mono (fun _ _ => id) (fun _ ht => ht.weaken) fun _ _ ht => ht.weaken

/-- A run that adds names to a new scope only adds none to those that were there. -/
theorem of_add {n : Scope} (hr : r.KeepsNames (some ⟨t.nodes.size⟩) (t.add n).2 s) :
    r.KeepsNames home t s :=
  hr.mono (fun _ _ => id) (fun _ ht => ht.of_add) fun _ _ ht => ht.of_add

/-- What goes on from a value keeps names too. -/
theorem andThen {f : α → State → Run β} (hr : r.KeepsNames home t s)
    (hf : ∀ a u, t.KeepsNames home u.scopes → (f a u).KeepsNames home t u) :
    (r.andThen f).KeepsNames home t s :=
  Run.Throughout.andThen hr hf fun _ _ => id

/-- So does what goes on from a value or a fault. -/
theorem settle {f : Except Fault α → State → Run β} (hr : r.KeepsNames home t s)
    (hf : ∀ a u, t.KeepsNames home u.scopes → (f a u).KeepsNames home t u) :
    (r.settle f).KeepsNames home t s :=
  Run.Throughout.settle hr (fun _ => hf _) (fun _ => hf _) fun _ _ _ => id

end Run.KeepsNames

namespace Eval

/-- Wherever it starts, the computation adds names to `home` only. -/
def Tidy (home : Option (Ref .scope)) (m : Eval α) : Prop :=
  ∀ s : State, (m s).KeepsNames home s.scopes s

namespace Tidy

/-- What adds no names at all is tidy for every home. -/
theorem weaken {m : Eval α} (hm : m.Tidy none) : m.Tidy home := fun s => (hm s).weaken

/-- A value at once adds no names. -/
theorem pure (a : α) : Tidy home (Pure.pure a : Eval α) := fun _ => .done trivial .refl

/-- Nor does a run that stops at once. -/
theorem stop (why : Stop) : Tidy home (fun s => .stop why s : Eval α) :=
  fun _ => .stop trivial .refl

/-- Nor does reading the state. -/
theorem gets (f : State → α) : Tidy home (Eval.gets f) := fun _ => .done trivial .refl

/-- Nor does a known result. -/
theorem conclude (r : Except Fault α) : Tidy home (Eval.conclude r) := by
  cases r with
  | ok a => exact pure a
  | error f => exact stop (.fault f)

/-- A wait adds no names, and nothing that is evaluated goes on meanwhile. -/
theorem await (w : Wait) : Tidy home (Eval.await w) := by
  intro s
  refine .wait trivial .refl fun a u hidle => ?_
  obtain ⟨_, _, _, rfl⟩ := hidle
  exact .done trivial .refl

/-- One computation after the other, both at the same home. -/
theorem bind {m : Eval α} {f : α → Eval β} (hm : m.Tidy home) (hf : ∀ a, (f a).Tidy home) :
    (m >>= f).Tidy home := by
  intro s
  rw [bind_apply]
  exact (hm s).andThen fun a u hu => .after hu (hf a u)

/-- What is attempted may fail, and has kept names then too. -/
theorem attempt {m : Eval α} (hm : m.Tidy home) : (Eval.attempt m).Tidy home := by
  intro s
  rw [attempt_apply]
  exact (hm s).settle fun _ _ hu => .done trivial hu

/-- At the end of a run something else than scopes may change. -/
theorem ensuring {m : Eval α} {f : State → State} (hm : m.Tidy home)
    (hf : ∀ s, (f s).scopes = s.scopes) : (Eval.ensuring m f).Tidy home := by
  intro s
  refine (hm s).ensuring fun _ u v _ hv => ⟨trivial, ?_⟩
  rw [hf v]
  exact hv

/-- A change of anything but scopes. -/
theorem modifyGet {f : State → α × State} (hf : ∀ s, (f s).2.scopes = s.scopes) :
    Tidy home (Eval.modifyGet f) := by
  intro s
  refine .done trivial ?_
  rw [hf s]
  exact .refl

/-- A change without an answer. -/
theorem modify {f : State → State} (hf : ∀ s, (f s).scopes = s.scopes) :
    Tidy home (Eval.modify f) :=
  modifyGet (f := fun s => ((), f s)) hf

/-- A notice is told to the listener, who has no scopes. -/
theorem notify (e : Notice) : Tidy home (Eval.notify e) := modify fun s => by split <;> rfl

/-- A turn that is handed on may be a wait. -/
theorem yieldTurn : Tidy home Eval.yieldTurn := by
  intro s
  unfold Eval.yieldTurn
  split
  · exact bind (await _) (fun _ => pure _) s
  · exact pure _ s

/-- Showing the state to an observer is a wait. -/
theorem reveal (watched : Bool) : Tidy home (Eval.reveal watched) := by
  cases watched with
  | false => exact pure ()
  | true => exact bind (await _) fun _ => pure _

/-! ### Names and scopes -/

/-- A name is bound at home. -/
theorem writeName (c : Ref .scope) (name : String) (f : Scope → Scope) (span : Span) :
    Tidy (some c) (Eval.writeName c name f span) := by
  intro s
  unfold Eval.writeName
  split
  · exact .stop trivial .refl
  · exact .done trivial (.write_home _ c f)

/-- An assignment changes the value of a name where it is bound, or binds it at home. -/
theorem rebindName (c : Ref .scope) (name : String) (v : Value) (span : Span) :
    Tidy (some c) (Eval.rebindName c name v span) := by
  intro s
  rw [Eval.rebindName, gets_bind_apply]
  -- the scope that holds the name, if one does, and else the home
  obtain hholder | hholder := holder_eq_or_hasLocal s.scopes c name
  · rw [hholder]
    exact writeName c name _ span s
  · unfold Eval.bindName Eval.writeName
    split
    · exact .stop trivial .refl
    · next hconst => exact .done trivial (.write_holder hholder (by simpa using hconst) v)

/-- Work in a new scope is tidy altogether. -/
theorem within {task : State → Nat} {m : Eval (Ref .scope)} (hm : Opens task m)
    {f : Ref .scope → Eval α} (hf : ∀ inner, (f inner).Tidy (some inner)) :
    (m >>= f).Tidy home := by
  intro s
  obtain ⟨parent, owner, hopen⟩ := hm s
  rw [bind_of_done hopen]
  refine Run.KeepsNames.of_add (n := .fresh parent (task s) owner) ?_
  exact .preceded trivial (hf s.newScope (s.withScope _))

end Tidy

end Eval

open Eval

variable {E : Engine} {c : Ref .scope}

/-- An expression and a statement add names to their own scope only, a call and a method to none. -/
structure Engine.Tidy (E : Engine) : Prop where
  expr (scope : Ref .scope) (e : Expr) : (E.expr scope e).Tidy (some scope)
  stmt (scope : Ref .scope) (stmt : Stmt) : (E.stmt scope stmt).Tidy (some scope)
  call (scope : Ref .scope) (callee : Value) (args : List Value) (span : Span) :
    (E.call scope callee args span).Tidy none
  invoke (scope : Ref .scope) (receiver : Value) (name : String) (args : List Value)
    (span : Span) : (E.invoke scope receiver name args span).Tidy none
  cycle (scope : Ref .scope) (condition : Expr) (body : List Stmt) :
    (E.cycle scope condition body).Tidy (some scope)
  drain (scope : Ref .scope) (vars : LoopVars) (r : Ref .channel) (index : Nat)
    (body : List Stmt) : (E.drain scope vars r index body).Tidy (some scope)

/-! ### Calls -/

namespace Function

variable {caller : Ref .scope} {f : Closure} {args : List Value} {span : Span}

/-- The calls that were deferred are tidy one by one. -/
theorem runDeferred_tidy (hE : E.Tidy) (ds : List Deferred) (body : Except Fault Value) :
    (runDeferred E c ds body).Tidy none := by
  induction ds generalizing body with
  | nil => exact .pure body
  | cons d ds ih =>
    rw [runDeferred_cons]
    exact .bind (.attempt (hE.call c d.callee d.args d.span)) fun r => ih _

/-- The frame that comes down binds no names. -/
theorem popFrame_tidy : (popFrame c).Tidy home := by
  refine .modifyGet fun s => ?_
  split <;> rfl

/-- The parameters and what the body declares are bound in the scope of the call, which is new. -/
theorem run_tidy (hE : E.Tidy) (binding : Binding)
    (hbody : ∀ inner, (runBody E inner f args span).Tidy (some inner)) :
    (run E caller f args span binding).Tidy home := by
  suffices h : (run E caller f args span binding).Tidy none from h.weaken
  intro s
  rw [run_apply]
  cases refusal? f args caller span s with
  | some e => exact .stop trivial .refl
  | none =>
    -- up to the entry one scope is added, in which the receiver is bound already
    have hscopes : (entry f caller span binding s).scopes =
        (s.scopes.add (callScope f caller binding s)).2 := State.entered_scopes ..
    have hentry : (attempt (runBody E s.newScope f args span)
        (entry f caller span binding s)).KeepsNames none s.scopes s := by
      have hbody := Tidy.attempt (hbody s.newScope) (entry f caller span binding s)
      rw [hscopes] at hbody
      exact .preceded trivial (Run.KeepsNames.of_add hbody)
    simp only
    rw [bind_apply]
    -- what the body has bound is in the new scope, so nothing of it is seen around the call
    refine hentry.andThen fun body u hu => .after hu ?_
    refine Tidy.bind popFrame_tidy (fun deferred => ?_) u
    refine .bind (runDeferred_tidy hE deferred body) fun result => ?_
    exact .bind (.notify _) fun _ => .conclude result

end Function

/-! ### Calls that happen later -/

namespace Capture

variable {e : Expr} {span : Span}

/-- A call that is deferred is kept in a frame, under no name. -/
theorem defer_tidy (hc : (callable E c e .badDefer span).Tidy home) :
    (defer E c e span).Tidy home := by
  refine .bind (.gets _) fun task => .bind (.gets _) fun frame => ?_
  split
  · exact .stop _
  · refine .bind hc fun ⟨callee, args⟩ => .bind (.gets _) fun stack => ?_
    cases stack with
    | some k => exact .modify fun _ => rfl
    | none => exact .stop _

/-- The scope of a new task is new. -/
theorem spawn_tidy (hc : (callable E c e .badSpawn span).Tidy home) :
    (spawn E c e span).Tidy home := by
  refine .bind hc fun ⟨callee, args⟩ s => ?_
  simp only [taskScope, modifyGet_bind_apply, modify_bind_apply]
  exact .done trivial (ScopeTree.KeepsNames.add s.scopes _)

end Capture

/-! ### Imports -/

namespace Import

variable {path : String} {span : Span}

/-- A package is evaluated in a scope of its own. -/
theorem evaluate_tidy (loader : Loader)
    (hp : ∀ inner program, (E.program inner program).Tidy (some inner)) :
    (evaluate E c loader path span).Tidy home := by
  unfold evaluate
  split
  · exact .stop _
  · refine .within (rootScope_opens c) fun inner => .bind (.attempt (hp inner _)) fun result => ?_
    split
    · exact .modifyGet fun _ => rfl
    · split <;> exact .stop _

/-- The modules in progress are no names. -/
theorem resolve_tidy (hp : ∀ inner program, (E.program inner program).Tidy (some inner)) :
    (resolve E c path span).Tidy home := by
  refine .bind (.gets _) fun packages => ?_
  split
  · exact .stop _
  · next loader _ =>
    split
    · exact .pure _
    · split
      · exact .stop _
      · refine .bind (.modify fun _ => rfl) fun _ => ?_
        exact .ensuring (evaluate_tidy loader hp) fun _ => rfl

end Import

/-! ### Levels -/

/-- **What is built from tidy activities is tidy,** but for the scope in which its site may bind
names. -/
theorem Eval.Built.tidy (hE : E.Tidy) {x : Site} {m : Eval α} {K : Knowledge}
    (h : Built E K x c m) :
    -- one case a constructor: only declarations and assignments bind names, at the home of their
    -- site
    m.Tidy x.home? := by
  induction h with
  | pure a => exact .pure a
  | raise f => exact .stop (.fault f)
  | abort message => exact .stop (.abort message)
  | gets f => exact .gets f
  | await w => exact .await w
  | yieldTurn => exact .yieldTurn
  | bind _ _ ihm ihf => exact .bind ihm ihf
  | knowing _ _ _ ihm ihf => exact .bind ihm ihf
  | attempt _ ih => exact .attempt ih
  | ensuring _ hf ih => exact .ensuring ih fun s => (hf s).scopes
  | modifyGet hf => exact .modifyGet fun s => (hf s).scopes
  | change hf _ => exact .modifyGet fun s => (hf s).scopes
  | newBound receiver method span => exact .modifyGet fun _ => rfl
  | statement line => exact .notify _
  | writeName span hx _ => exact hx ▸ .writeName _ _ _ span
  | rebindName name v span hx => exact hx ▸ .rebindName _ name v span
  | within hm _ ih => exact .within hm ih
  | block hm _ ih => exact .within hm ih
  | run _ _ ih => exact Function.run_tidy hE _ fun inner => ih inner _ _
  | method _ _ _ _ ihchecks ih =>
    -- the checks come first, then the call
    exact .bind ihchecks fun _ => Function.run_tidy hE _ fun inner => ih inner _ _
  | resolve _ ih => exact Import.resolve_tidy ih
  | defer _ ih => exact Capture.defer_tidy ih
  | spawn _ ih => exact Capture.spawn_tidy ih
  | packaged _ _ ihnone ihsome =>
    -- a packaged method binds no names for whom it was packaged
    refine .bind (.gets _) fun found => ?_
    cases found with
    | none => exact ihnone
    | some b => exact (ihsome b).weaken
  | expr e hx => exact hx ▸ hE.expr _ e
  | stmt stmt => exact hE.stmt _ stmt
  | call callee args span => exact (hE.call _ callee args span).weaken
  | invoke receiver name args span => exact (hE.invoke _ receiver name args span).weaken
  | cycle condition body => exact hE.cycle _ condition body
  | drain vars r index body => exact hE.drain _ vars r index body

/-- An engine of no level binds nothing. -/
theorem Engine.idle_tidy : Engine.idle.Tidy where
  expr _ _ := .stop .exhausted
  stmt _ _ := .stop .exhausted
  call _ _ _ _ := .stop .exhausted
  invoke _ _ _ _ _ := .stop .exhausted
  cycle _ _ _ := .stop .exhausted
  drain _ _ _ _ _ := .stop .exhausted

/-- **Whatever an engine of any level does, it adds names to the scope it acts for only.** -/
theorem Engine.watched_tidy (w : Bool) : ∀ n, (Engine.watched w n).Tidy
  -- by induction on the level: the activities of a level are built from those of the one below
  | 0 => idle_tidy
  | n + 1 =>
    have hn := watched_tidy w n
    { expr := fun scope e =>
        .bind (.reveal w) fun _ => (Expr.eval_built (x := .expr scope) rfl e).tidy hn
      stmt := fun scope stmt => .bind (.reveal w) fun _ => (Stmt.run_built scope stmt).tidy hn
      call := fun scope callee args span => .bind (.reveal w) fun _ =>
        (Dispatch.call_built (x := .away) scope args callee span).tidy hn
      invoke := fun scope receiver name args span => .bind (.reveal w) fun _ =>
        (Dispatch.invoke_built (x := .away) scope name args receiver span).tidy hn
      cycle := fun scope condition body =>
        .bind (.reveal w) fun _ => (Stmt.cycle_built scope condition body).tidy hn
      drain := fun scope vars r i body =>
        .bind (.reveal w) fun _ => (Stmt.drain_built scope vars r i body).tidy hn }

/-! ### Bodies -/

namespace Engine

/-- A block runs its statements in a new scope. -/
theorem block_tidy (hE : E.Tidy) (scope : Ref .scope) (stmts : List Stmt) :
    (E.block scope stmts).Tidy home :=
  .within (childScope_opens scope) fun inner => (body_built (K := .nothing) inner stmts).tidy hE

end Engine

namespace Stmt

variable {scope : Ref .scope}

/-- Each round of a loop has a scope of its own, where the names of the loop are bound. -/
theorem round_tidy (hE : E.Tidy) (vars : LoopVars) (key value : Value) (body : List Stmt) :
    (round E scope vars key value body).Tidy home := by
  refine .within (childScope_opens scope) fun inner => ?_
  -- the names and the statements of the round are at home in the new scope
  refine Built.tidy (K := .nothing) (x := .stmt inner) (c := inner) hE ?_
  grind

/-- The handler of a `try` has a scope of its own, where the fault is bound; its other parts are
blocks. -/
theorem guarded_tidy (hE : E.Tidy) (body : List Stmt) (handler : Option (String × List Stmt))
    (last : Option (List Stmt)) (span : Span) :
    (guarded E scope body handler last span).Tidy home := by
  -- the scope of the handler is new, and the name of the fault is bound there
  have handled : ∀ name f stmts, Tidy home (do
      let inner ← childScope scope
      bindName inner name (caught f) span
      E.body inner stmts) := by
    intro name f stmts
    refine .within (childScope_opens scope) fun inner => ?_
    exact .bind (.writeName inner name _ span) fun _ =>
      (Engine.body_built (K := .nothing) inner stmts).tidy hE
  unfold guarded
  refine .bind (.attempt (Engine.block_tidy hE scope body)) fun result => ?_
  extract_lets rest
  -- the last part runs in either case, as a block
  have hrest : ∀ result, (rest result).Tidy home := by
    intro result
    unfold rest
    split
    · exact .conclude result
    · refine .bind (Engine.block_tidy hE scope _) fun flow => ?_
      split
      · exact .conclude result
      · exact .pure _
  split
  · exact .bind (.attempt (handled _ _ _)) hrest
  · exact .bind (.pure _) hrest

end Stmt

/-- **What a body does with names stays in the body.** Take the engine of any level, watched or not,
in any state `s`, for a program with a single task. Whatever a block does, a round of a loop, a
`try` with its handler and its last part, the body of a function, a method or an accessor with the
calls it defers, or the call of any value: in all states in which its run can be seen and in the one
it ends in, whichever way it ends, every scope of `s` is there, binds the same names as before, and
those that it binds for good to the same values.

So no name becomes visible or invisible to what was there before: wherever parents come before their
children, a scope of `s` sees the same names as before. -/
theorem Engine.bodies_keep_names (w : Bool) (n : Nat) (scope : Ref .scope) (s : State) :
    (∀ stmts, ((watched w n).block scope stmts s).KeepsNames none s.scopes s) ∧
    (∀ vars key value stmts,
      (Stmt.round (watched w n) scope vars key value stmts s).KeepsNames none s.scopes s) ∧
    (∀ stmts handler last span,
      (Stmt.guarded (watched w n) scope stmts handler last span s).KeepsNames none s.scopes s) ∧
    (∀ f args span binding,
      (Function.run (watched w n) scope f args span binding s).KeepsNames none s.scopes s) ∧
    (∀ callee args span,
      ((watched w n).call scope callee args span s).KeepsNames none s.scopes s) ∧
    (∀ receiver name args span,
      ((watched w n).invoke scope receiver name args span s).KeepsNames none s.scopes s) ∧
    (s.scopes.Ordered → ∀ t : State, s.scopes.KeepsNames none t.scopes →
      ∀ r, (s.scopes.node? r).isSome → ∀ name,
        (t.scopes.get? r name).isSome = (s.scopes.get? r name).isSome) := by
  have hE : (watched w n).Tidy := watched_tidy w n
  refine ⟨fun stmts => block_tidy hE scope stmts s, fun vars key value stmts => ?_,
    fun stmts handler last span => Stmt.guarded_tidy hE stmts handler last span s,
    fun f args span binding => ?_, fun callee args span => hE.call scope callee args span s,
    fun receiver name args span => hE.invoke scope receiver name args span s, ?_⟩
  · exact Stmt.round_tidy hE vars key value stmts s
  · have hbody : ∀ inner, (Function.runBody (watched w n) inner f args span).Tidy (some inner) :=
      fun inner => (Function.runBody_built (K := .nothing) inner f args span).tidy hE
    exact Function.run_tidy hE binding hbody s
  · intro hs t ht r hr name
    exact ht.visible hs hr name

/-- Statements that declare a name, and assign to one that nobody has declared. -/
def assigning : List Stmt :=
  let stray : Expr := .mk (.name "stray") .unknown
  [.mk (.declare "inner" none) .unknown,
    .mk (.expr (.mk (.assign .plain stray (.mk (.bool true) .unknown)) .unknown)) .unknown]

/-- When a block with such statements is over, its names are not to be seen around it. -/
theorem Engine.bodies_keep_names_assigning :
    (State.initial bare).scopes.Ordered ∧
    ∃ flow t, (Engine.watched false 3).block State.root assigning (State.initial bare) =
        .done flow t ∧
      t.scopes.nodes.size = 2 ∧
      ∀ name, (t.scopes.get? State.root name).isSome =
        ((State.initial bare).scopes.get? State.root name).isSome := by
  have hordered : (State.initial bare).scopes.Ordered := ScopeTree.ordered_root rfl
  obtain ⟨hblock, -, -, -, -, -, hvisible⟩ :=
    bodies_keep_names false 3 State.root (State.initial bare)
  obtain ⟨flow, t, hrun, hsize⟩ : ∃ flow t,
      (Engine.watched false 3).block State.root assigning (State.initial bare) = .done flow t ∧
        t.scopes.nodes.size = 2 := ⟨_, _, rfl, rfl⟩
  -- the run is over at once, so its end is all there is to see
  have hkeeps : (State.initial bare).scopes.KeepsNames none t.scopes := by
    have := hblock assigning
    rw [hrun] at this
    cases this with
    | done _ h => exact h
  exact ⟨hordered, flow, t, hrun, hsize, hvisible hordered t hkeeps State.root rfl⟩

end ScriptEngine
