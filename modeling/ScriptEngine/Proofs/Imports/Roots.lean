import ScriptEngine.Proofs.Constants
import ScriptEngine.Proofs.Imports.Once

/-!
# Scopes of modules

A module is evaluated in a scope that has no parent, so what can be seen from there is what the
module itself has bound. This stays so: whatever programs do afterwards, packages are not taken
away, scopes keep their parents, and the packages that are added have such scopes, too
(`State.Grows`). It is the seventh reading of `Eval.Built`, for runs that wait while other tasks do
no more than that (`Engine.level_grows`), and from there it holds of schedules and sessions
(`Session.rooted_runAll`).
-/

namespace ScriptEngine

/-- The scope is there and has no parent. -/
def ScopeTree.IsRoot (t : ScopeTree) (r : Ref .scope) : Prop :=
  ∃ n, t.node? r = some n ∧ n.parent = none

/-- Scopes keep being without parents. -/
theorem ScopeTree.IsRoot.of_extends {t u : ScopeTree} {r : Ref .scope} (h : t.IsRoot r)
    (hu : t.Extends u) : u.IsRoot r := by
  obtain ⟨n, hn, hroot⟩ := h
  obtain ⟨m, hm, hparent, -⟩ := hu r n hn
  exact ⟨m, hm, hparent.trans hroot⟩

/-- **The scopes of all packages have no parents.** -/
def State.Rooted (s : State) : Prop :=
  ∀ r p, s.packages.table.get? r = some p → s.scopes.IsRoot p.scope

/-- A session starts without packages. -/
theorem State.rooted_initial (setup : Setup) : (State.initial setup).Rooted := nofun

/-- Scopes and packages stay, and packages keep having scopes without parents. -/
structure State.Grows (s t : State) : Prop where
  scopes : s.scopes.Extends t.scopes
  packages : ∀ r p, s.packages.table.get? r = some p → t.packages.table.get? r = some p
  rooted : s.Rooted → t.Rooted

variable {s t u : State} {c : Ref .scope} {α β : Type}

namespace State.Grows

/-- Nothing has changed. -/
theorem refl (s : State) : s.Grows s := ⟨.refl _, fun _ _ => id, id⟩

/-- One stretch after the other. -/
theorem trans (h : s.Grows t) (h' : t.Grows u) : s.Grows u :=
  ⟨h.scopes.trans h'.scopes, fun r p hp => h'.packages r p (h.packages r p hp),
    h'.rooted ∘ h.rooted⟩

/-- Without new packages it is enough that scopes stay. -/
theorem of_table (h : s.scopes.Extends t.scopes) (ht : t.packages.table = s.packages.table) :
    s.Grows t := by
  refine ⟨h, fun r p hp => ht ▸ hp, fun hs r p hp => ?_⟩
  exact (hs r p (ht ▸ hp)).of_extends h

/-- It is enough, too, that nothing has changed. -/
theorem of_eq (h : t.scopes = s.scopes) (ht : t.packages.table = s.packages.table) :
    s.Grows t := by
  -- nothing about scopes or packages has changed
  refine of_table ?_ ht
  rw [h]
  exact .refl _

/-- The scheduler changes neither scopes nor packages. -/
theorem of_idle (h : Idle s t) : s.Grows t := by
  obtain ⟨sync, clock, spawned, rfl⟩ := h
  exact of_eq rfl rfl

/-- Opening a scope. -/
theorem withScope (s : State) (n : Scope) : s.Grows (s.withScope n) :=
  of_table (s.scopes.extends_add n) rfl

/-- Sending a notice. -/
theorem notified (s : State) (e : Notice) : s.Grows (s.notified e) := by
  -- a notice is recorded beside scopes and packages
  refine of_eq (State.notified_scopes s e) ?_
  unfold State.notified
  split <;> rfl

/-- A package can be kept whose scope has no parent. -/
theorem keep {m : Package} (h : s.scopes.IsRoot m.scope) :
    s.Grows { s with packages := s.packages.keep m } := by
  refine ⟨.refl _, fun r p hp => Table.get?_add_of_some _ _ hp, fun hs r p hp => ?_⟩
  -- the package was there before, or is the new one
  obtain hold | ⟨-, rfl⟩ := Table.eq_of_get?_add _ _ hp
  · exact hs r p hold
  · exact h

end State.Grows

instance : Run.Guarantees State.Grows State.Grows where
  refl := .refl
  trans := .trans
  relied := id
  rely_trans := .trans

/-- The run lets the state grow, as long as the others do. -/
abbrev Run.Grows (s : State) (r : Run α) : Prop := r.Along State.Grows State.Grows s

namespace Eval

/-- Wherever it starts, the computation lets the state grow. -/
def Grows (m : Eval α) : Prop := ∀ s, (m s).Grows s

namespace Grows

/-- An answer that is at hand. -/
theorem pure (a : α) : Grows (Pure.pure a : Eval α) := fun s => .done (.refl s)

/-- A stop. -/
theorem stop (why : Stop) : Grows (fun s => .stop why s : Eval α) := fun s => .stop (.refl s)

/-- Reading the state. -/
theorem gets (f : State → α) : Grows (Eval.gets f) := fun s => .done (.refl s)

/-- An answer or a failure. -/
theorem conclude (r : Except Fault α) : Grows (Eval.conclude r) := by
  cases r with
  | ok a => exact pure a
  | error f => exact stop (.fault f)

/-- A wait, in which the others let the state grow. -/
theorem await (w : Wait) : Grows (Eval.await w) :=
  -- the others let the state grow, and the task goes on from where they have left it
  fun s => .wait (.refl s) fun _ u _ => .done (.refl u)

/-- One after the other. -/
theorem bind {m : Eval α} {f : α → Eval β} (hm : m.Grows) (hf : ∀ a, (f a).Grows) :
    (m >>= f).Grows :=
  fun s => bind_along (hm s) fun a t _ => hf a t

/-- A failure that is caught. -/
theorem attempt {m : Eval α} (hm : m.Grows) : (Eval.attempt m).Grows :=
  fun s => attempt_along (hm s)

/-- What is done in the end, however the computation ends. -/
theorem ensuring {m : Eval α} {f : State → State} (hm : m.Grows) (hf : ∀ s : State, s.Grows (f s)) :
    (Eval.ensuring m f).Grows :=
  fun s => Run.Along.ensuring (hm s) hf

/-- Changing the state and answering. -/
theorem modifyGet {f : State → α × State} (hf : ∀ s : State, s.Grows (f s).2) :
    Grows (Eval.modifyGet f) :=
  fun s => .done (hf s)

/-- Changing the state. -/
theorem modify {f : State → State} (hf : ∀ s : State, s.Grows (f s)) : Grows (Eval.modify f) :=
  fun s => .done (hf s)

/-- A notice. -/
theorem notify (e : Notice) : Grows (Eval.notify e) := modify fun s => .notified s e

/-- Handing over the turn. -/
theorem yieldTurn : Grows Eval.yieldTurn := by
  intro s
  unfold Eval.yieldTurn
  split
  · exact .wait (.refl s) fun _ u _ => .done (.refl u)
  · exact .done (.refl s)

/-- Writing to a name. -/
theorem writeName {scope : Ref .scope} {name : String} {f : Scope → Scope} (span : Span)
    (hf : NameWrite name f) : Grows (Eval.writeName scope name f span) := by
  intro s
  unfold Eval.writeName
  split
  · exact .stop (.refl s)
  -- a write to a name leaves the parent of the scope as it is
  · exact .done (.of_table (ScopeTree.extends_modify _ _ hf) rfl)

/-- Working in a scope that has just been opened. -/
theorem within {m : Eval (Ref .scope)} {task : State → Nat} (hm : Opens task m)
    {f : Ref .scope → Eval α} (hf : ∀ inner, (f inner).Grows) : (m >>= f).Grows := by
  refine bind (fun s => ?_) hf
  obtain ⟨parent, owner, hopen⟩ := hm s
  rw [hopen]
  exact .done (.withScope s _)

end Grows

end Eval

open Eval

variable {E : Engine}

/-- The activities of an engine let the state grow. -/
structure Engine.Grows (E : Engine) : Prop where
  expr (scope : Ref .scope) (e : Expr) : (E.expr scope e).Grows
  stmt (scope : Ref .scope) (stmt : Stmt) : (E.stmt scope stmt).Grows
  call (scope : Ref .scope) (callee : Value) (args : List Value) (span : Span) :
    (E.call scope callee args span).Grows
  invoke (scope : Ref .scope) (receiver : Value) (name : String) (args : List Value)
    (span : Span) : (E.invoke scope receiver name args span).Grows
  cycle (scope : Ref .scope) (condition : Expr) (body : List Stmt) :
    (E.cycle scope condition body).Grows
  drain (scope : Ref .scope) (vars : LoopVars) (r : Ref .channel) (index : Nat)
    (body : List Stmt) : (E.drain scope vars r index body).Grows

/-! ### Calls -/

namespace Function

variable {f : Closure} {args : List Value} {span : Span}

/-- Deferred calls, by induction on them. -/
theorem runDeferred_grows (hE : E.Grows) (ds : List Deferred) (body : Except Fault Value) :
    (runDeferred E c ds body).Grows := by
  -- by induction on the calls that have been deferred
  induction ds generalizing body with
  | nil => exact .pure body
  | cons d ds ih =>
    rw [runDeferred_cons]
    exact .bind (.attempt (hE.call c d.callee d.args d.span)) fun r => ih _

/-- Leaving a frame. -/
theorem popFrame_grows : (popFrame c).Grows := by
  intro s
  rw [popFrame_apply, lowered]
  -- a frame is taken off the stack, which is no matter of scopes
  split <;> exact .done (.of_eq rfl rfl)

/-- A call opens a scope and pushes a frame, runs its body, and makes the calls it has deferred. -/
theorem run_grows (hE : E.Grows) (binding : Binding)
    (hbody : ∀ inner, (runBody E inner f args span).Grows) :
    (run E c f args span binding).Grows := by
  intro s
  rw [run_apply]
  cases refusal? f args c span s with
  | some e => exact .stop (.refl s)
  | none =>
    -- what the call does before its body runs
    have hentry : s.Grows (entry f c span binding s) := by
      refine (State.Grows.withScope s (callScope f c binding s)).trans (.trans ?_ (.notified _ _))
      exact .of_eq rfl rfl
    refine .after hentry (Grows.bind (.attempt (hbody _)) (fun body => ?_) _)
    refine .bind popFrame_grows fun deferred => ?_
    refine .bind (runDeferred_grows hE deferred body) fun result => ?_
    exact .bind (.notify _) fun _ => .conclude result

end Function

/-! ### Calls that happen later -/

namespace Capture

variable {e : Expr} {span : Span}

/-- To defer a call adds it to the frame. -/
theorem defer_grows (hc : (callable E c e .badDefer span).Grows) : (defer E c e span).Grows := by
  refine .bind (.gets _) fun task => .bind (.gets _) fun frame => ?_
  -- a call is deferred only inside a frame of the same task
  split
  · exact .stop _
  · refine .bind hc fun ⟨callee, args⟩ => .bind (.gets _) fun stack => ?_
    cases stack with
    | some k => exact .modify fun s => .of_eq rfl rfl
    | none => exact .stop _

/-- To spawn a call opens a scope for the new task. -/
theorem spawn_grows (hc : (callable E c e .badSpawn span).Grows) : (spawn E c e span).Grows := by
  refine .bind hc fun ⟨callee, args⟩ => .bind (.modifyGet fun s => ?_) fun inner => ?_
  · exact .of_table (s.scopes.extends_add _) rfl
  · exact .bind (.modify fun s => .of_eq rfl rfl) fun _ => .pure _

end Capture

/-! ### Imports -/

namespace Import

variable {path : String} {span : Span}

/-- **The package that is kept has a scope without a parent:** it was opened as such, and has kept
its parent while the module was evaluated. -/
theorem evaluate_grows (loader : Loader)
    (hp : ∀ inner program, (E.program inner program).Grows) :
    (evaluate E c loader path span).Grows := by
  unfold evaluate
  split
  · exact .stop _
  · next program _ =>
    -- from here on the state has the new scope
    intro s
    have hopen : rootScope c s = .done s.newScope
        (s.withScope (.fresh none (s.scopes.task c) none)) := rfl
    have hroot : (s.withScope (.fresh none (s.scopes.task c) none)).scopes.IsRoot s.newScope :=
      ⟨_, ScopeTree.node?_add _ _, rfl⟩
    rw [bind_of_done hopen]
    refine .after (t := s.withScope (.fresh none (s.scopes.task c) none)) (.withScope s _) ?_
    -- whatever the program does, and whoever else runs, the scope keeps its parent
    refine bind_along (Grows.attempt (hp _ program) _) fun result t ht => ?_
    cases result with
    | ok v => exact .done (.keep (m := ⟨_, _, _⟩) (hroot.of_extends ht.scopes))
    | error f =>
      obtain ⟨cause, place⟩ := f
      -- a module that fails leaves no package
      cases cause <;> exact .stop (.refl t)

/-- An import reads the registry, and evaluates a module that is not there yet. -/
theorem resolve_grows (hp : ∀ inner program, (E.program inner program).Grows) :
    (resolve E c path span).Grows := by
  refine .bind (.gets _) fun packages => ?_
  split
  · exact .stop _
  · split
    · exact .pure _
    · split
      · exact .stop _
      · -- marks change no package
        refine .bind (.modify fun s => .of_eq rfl rfl) fun _ => ?_
        exact Grows.ensuring (evaluate_grows _ hp) fun s => .of_eq rfl rfl

end Import

/-! ### Levels -/

/-- **What is built from activities that let the state grow lets it grow.** -/
theorem Eval.Built.grows (hE : E.Grows) {x : Site} {m : Eval α} {K : Knowledge}
    (h : Built E K x c m) : m.Grows := by
  -- by induction on how the computation is built
  induction h with
  | pure a => exact .pure a
  | raise f => exact .stop (.fault f)
  | abort message => exact .stop (.abort message)
  | gets f => exact .gets f
  | await w => exact .await w
  | yieldTurn => exact .yieldTurn
  | bind _ _ ihm ihf => exact .bind ihm ihf
  | knowing _ _ _ ihm ihf => exact .bind ihm ihf
  | attempt _ ih => exact .attempt ih
  | ensuring _ hf ih =>
    exact Grows.ensuring ih fun s => .of_eq (hf s).scopes (congrArg Packages.table (hf s).packages)
  | modifyGet hf =>
    exact .modifyGet fun s => .of_eq (hf s).scopes (congrArg Packages.table (hf s).packages)
  | change hf _ =>
    exact .modifyGet fun s => .of_eq (hf s).scopes (congrArg Packages.table (hf s).packages)
  | newBound receiver method span => exact .modifyGet fun s => .of_eq rfl rfl
  | statement line => exact .notify _
  | writeName span _ hf => exact .writeName span hf
  | rebindName name v span _ => exact .bind (.gets _) fun _ => .writeName span (.bind v)
  | within hm _ ih => exact .within hm ih
  | block hm _ ih => exact .within hm ih
  | run _ _ ih => exact Function.run_grows hE _ fun inner => ih inner _ _
  | method _ _ _ _ ihchecks ih =>
    -- the checks come first, then the call
    exact .bind ihchecks fun _ => Function.run_grows hE _ fun inner => ih inner _ _
  | resolve _ ih => exact Import.resolve_grows ih
  | defer _ ih => exact Capture.defer_grows ih
  | spawn _ ih => exact Capture.spawn_grows ih
  | packaged _ _ ihnone ihsome =>
    refine .bind (.gets _) fun found => ?_
    cases found with
    | none => exact ihnone
    | some b => exact ihsome b
  | expr e _ => exact hE.expr _ e
  | stmt stmt => exact hE.stmt _ stmt
  | call callee args span => exact hE.call _ callee args span
  | invoke receiver name args span => exact hE.invoke _ receiver name args span
  | cycle condition body => exact hE.cycle _ condition body
  | drain vars r index body => exact hE.drain _ vars r index body

/-- Without levels left there is nothing to do. -/
theorem Engine.idle_grows : Engine.idle.Grows where
  expr _ _ := .stop .exhausted
  stmt _ _ := .stop .exhausted
  call _ _ _ _ := .stop .exhausted
  invoke _ _ _ _ _ := .stop .exhausted
  cycle _ _ _ := .stop .exhausted
  drain _ _ _ _ _ := .stop .exhausted

/-- **Whatever an engine of any level does lets the state grow.** -/
theorem Engine.level_grows : ∀ n, (Engine.level n).Grows
  | 0 => idle_grows
  | n + 1 =>
    have hn := level_grows n
    { expr := fun scope e => (Expr.eval_built (x := .expr scope) rfl e).grows hn
      stmt := fun scope stmt => (Stmt.run_built scope stmt).grows hn
      call := fun scope callee args span =>
        (Dispatch.call_built (x := .away) scope args callee span).grows hn
      invoke := fun scope receiver name args span =>
        (Dispatch.invoke_built (x := .away) scope name args receiver span).grows hn
      cycle := fun scope condition body => (Stmt.cycle_built scope condition body).grows hn
      drain := fun scope vars r index body =>
        (Stmt.drain_built scope vars r index body).grows hn }

/-! ### Sessions -/

/-- So schedules let the state grow. -/
theorem Schedule.rules_grows : Rules State.Grows State.Grows fun _ => True where
  kept _ _ := trivial
  idle := .of_idle
  handedOver _ := .of_eq rfl rfl
  -- the program of a session, and what it has spawned
  program p s _ :=
    (Engine.program_built (K := .nothing) State.root p).grows (Engine.level_grows _) s
  spawned d _ s _ :=
    (Dispatch.call_built (E := .top) (x := .away) d.scope d.args d.callee d.span).grows
      (Engine.level_grows _) s

/-- **In every session, the scopes of the packages have no parents.** -/
theorem Session.rooted_runAll (setup : Setup) (programs : List Program) :
    ((Session.start setup).runAll programs).2.state.Rooted := by
  have hgrows := (Schedule.rules_grows.runAll (σ := .start setup) trivial nofun programs).1
  exact hgrows.rooted (State.rooted_initial setup)

end ScriptEngine
