import ScriptEngine.Proofs.Imports.Registry
import ScriptEngine.Proofs.Run.Calls
import ScriptEngine.Proofs.Run.Statements
import ScriptEngine.Proofs.Run.Watched

/-!
# Modules are evaluated once

A module that is imported is evaluated under its mark: its path is on the list of imports in
progress until the evaluation is over. The bodies of modules import others, fail, catch failures
and import again, and all of that recurs through the engine. So the statement is about everything
that an engine does: `Eval.Orderly m` says that the registry is in order wherever a run of `m` can
be seen, that it has only gained imports in progress there, and that it is settled when the run is
over. It is the third reading of `Eval.Built`, and holds of every engine that is watched
(`Engine.watched_orderly`).

An import itself ends in one of three ways (`Import.resolve_throughout`): what is loaded is given
out at once, what is being evaluated is refused at once, and everything else is evaluated. It is
loaded afterwards if and only if its evaluation succeeded.
-/

namespace ScriptEngine

variable {p q : Packages} {α β : Type}

/-! ### Orderly runs -/

/-- What was loaded at `s` is loaded at `t`. -/
def State.Keeps (s t : State) : Prop := s.packages.Kept t.packages

instance : IsTrans State State.Keeps := ⟨fun _ _ _ => Packages.Kept.trans⟩

/-- The run of a lone task develops the registry from `p` on: it keeps what is loaded from each
state that is seen to the next, and leaves the registry settled. -/
abbrev Run.Orderly (p : Packages) (s : State) (r : Run α) : Prop :=
  r.Throughout State.Keeps (fun t => p.Onward t.packages) (fun _ t => p.Settled t.packages) s

/-- What comes after something that is over is part of the same. -/
theorem Run.Orderly.after {s : State} {r : Run α} (hpq : p.Settled q) (h : r.Orderly q s) :
    r.Orderly p s :=
  h.mono (fun _ _ => id) (fun _ ht => hpq.toOnward.trans ht) fun _ _ ht => hpq.trans ht

namespace Eval

/-- Wherever the registry is in order, the computation keeps it so. -/
def Orderly (m : Eval α) : Prop :=
  ∀ s : State, s.packages.Sound → (m s).Orderly s.packages s

namespace Orderly

/-- A computation that starts with the registry of another state. -/
theorem apply_of_eq {m : Eval α} (hm : m.Orderly) {s t : State} (hs : s.packages.Sound)
    (h : t.packages = s.packages) : (m t).Orderly s.packages s := by
  have ht := hm t (h.symm ▸ hs)
  rw [h] at ht
  have hkept : s.Keeps t := by
    rw [State.Keeps, h]
    exact .refl _
  exact .preceded hkept ht

/-- A value at once leaves the registry as it is. -/
theorem pure (a : α) : Orderly (Pure.pure a : Eval α) := fun _ hs => .done (.refl _) (.refl hs)

/-- So does a run that stops at once. -/
theorem stop (why : Stop) : Orderly (fun s => .stop why s : Eval α) :=
  fun _ hs => .stop (.refl _) (.refl hs)

/-- So does reading the state. -/
theorem gets (f : State → α) : Orderly (Eval.gets f) := fun _ hs => .done (.refl _) (.refl hs)

/-- So does a known result. -/
theorem conclude (r : Except Fault α) : Orderly (Eval.conclude r) := by
  cases r with
  | ok a => exact pure a
  | error f => exact stop (.fault f)

/-- A wait leaves it as it is, and nothing is imported meanwhile. -/
theorem await (w : Wait) : Orderly (Eval.await w) := by
  intro s hs
  refine .wait (.refl _) (.refl hs) fun a t hidle => ?_
  obtain ⟨_, _, _, rfl⟩ := hidle
  exact .done (.refl _) (.refl hs)

/-- One computation after the other. -/
theorem bind {m : Eval α} {f : α → Eval β} (hm : m.Orderly) (hf : ∀ a, (f a).Orderly) :
    (m >>= f).Orderly := by
  intro s hs
  rw [bind_apply]
  refine (hm s hs).andThen (fun a t ht => ?_) fun _ _ ht => ht
  -- the first part has left the registry settled, so the second one starts in order
  exact Run.Orderly.after ht (hf a t ht.sound)

/-- A fault that is caught has left the registry settled. -/
theorem attempt {m : Eval α} (hm : m.Orderly) : (Eval.attempt m).Orderly := by
  intro s hs
  rw [attempt_apply]
  -- a fault has left the registry as settled as a value
  have hdone : ∀ (r : Except Fault α) (t : State), s.packages.Settled t.packages →
      (Run.done r t).Orderly s.packages t := fun _ _ ht => .done (.refl _) ht
  exact (hm s hs).settle (fun _ _ => hdone _ _) (fun _ _ => hdone _ _)
    fun _ _ _ ht => ht

/-- At the end of a run something else than the registry may change. -/
theorem ensuring {m : Eval α} {f : State → State} (hm : m.Orderly)
    (hf : ∀ s, (f s).packages = s.packages) : (Eval.ensuring m f).Orderly := by
  intro s hs
  refine (hm s hs).ensuring fun _ u t hstep ht => ?_
  rw [State.Keeps, hf t]
  exact ⟨hstep, ht⟩

/-- A change of anything but the registry. -/
theorem modifyGet {f : State → α × State} (hf : ∀ s, (f s).2.packages = s.packages) :
    Orderly (Eval.modifyGet f) := by
  intro s hs
  have hkept : s.Keeps (f s).2 := by
    rw [State.Keeps, hf s]
    exact .refl _
  have hsettled : s.packages.Settled (f s).2.packages := by
    rw [hf s]
    exact .refl hs
  exact .done hkept hsettled

/-- A notice is told to the listener. -/
theorem notify (e : Notice) : Orderly (Eval.notify e) := by
  refine modifyGet (f := fun s => ((), _)) fun s => ?_
  split <;> rfl

/-- A turn that is handed on may be a wait. -/
theorem yieldTurn : Orderly Eval.yieldTurn := by
  intro s hs
  unfold Eval.yieldTurn
  split
  · exact bind (await _) (fun _ => pure _) s hs
  · exact pure _ s hs

/-- Showing the state to an observer is a wait. -/
theorem reveal (watched : Bool) : Orderly (Eval.reveal watched) := by
  cases watched with
  | false => exact pure ()
  | true => exact bind (await _) fun _ => pure _

/-- A name is written into a scope, or refused. -/
theorem writeName (scope : Ref .scope) (name : String) (f : Scope → Scope) (span : Span) :
    Orderly (Eval.writeName scope name f span) := by
  intro s hs
  unfold Eval.writeName
  split
  · exact .stop (.refl _) (.refl hs)
  · exact .done (.refl _) (.refl hs)

/-- Work in a new scope. -/
theorem within {task : State → Nat} {m : Eval (Ref .scope)} (hm : Opens task m)
    {f : Ref .scope → Eval α} (hf : ∀ inner, (f inner).Orderly) : (m >>= f).Orderly := by
  intro s hs
  obtain ⟨parent, owner, hopen⟩ := hm s
  rw [bind_of_done hopen]
  exact (hf s.newScope).apply_of_eq hs rfl

end Orderly

end Eval

open Eval

variable {E : Engine} {c : Ref .scope}

/-- The activities of an engine keep the registry in order. -/
structure Engine.Orderly (E : Engine) : Prop where
  expr (scope : Ref .scope) (e : Expr) : (E.expr scope e).Orderly
  stmt (scope : Ref .scope) (stmt : Stmt) : (E.stmt scope stmt).Orderly
  call (scope : Ref .scope) (callee : Value) (args : List Value) (span : Span) :
    (E.call scope callee args span).Orderly
  invoke (scope : Ref .scope) (receiver : Value) (name : String) (args : List Value)
    (span : Span) : (E.invoke scope receiver name args span).Orderly
  cycle (scope : Ref .scope) (condition : Expr) (body : List Stmt) :
    (E.cycle scope condition body).Orderly
  drain (scope : Ref .scope) (vars : LoopVars) (r : Ref .channel) (index : Nat)
    (body : List Stmt) : (E.drain scope vars r index body).Orderly

/-! ### Calls -/

namespace Function

variable {caller : Ref .scope} {f : Closure} {args : List Value} {span : Span}

/-- The calls that were deferred keep the registry in order one by one. -/
theorem runDeferred_orderly (hE : E.Orderly) (ds : List Deferred) (body : Except Fault Value) :
    (runDeferred E c ds body).Orderly := by
  induction ds generalizing body with
  | nil => exact .pure body
  | cons d ds ih =>
    rw [runDeferred_cons]
    exact .bind (.attempt (hE.call c d.callee d.args d.span)) fun r => ih _

/-- A frame that comes down has no part in the registry. -/
theorem popFrame_orderly : (popFrame c).Orderly := by
  refine .modifyGet fun s => ?_
  split <;> rfl

/-- Up to its body a call imports nothing. -/
theorem entry_packages (binding : Binding) (s : State) :
    (entry f caller span binding s).packages = s.packages := by
  simp only [entry, State.entered, State.notified]
  split <;> rfl

/-- The body of a call, and the calls it has deferred, find the registry as the call does. -/
theorem run_orderly (hE : E.Orderly) (binding : Binding)
    (hbody : ∀ inner, (runBody E inner f args span).Orderly) :
    (run E caller f args span binding).Orderly := by
  intro s hs
  rw [run_apply]
  cases refusal? f args caller span s with
  | some e => exact .stop (.refl _) (.refl hs)
  | none =>
    -- the frame and the scope of the call are no matter of the registry
    simp only
    refine Eval.Orderly.apply_of_eq ?_ hs (entry_packages binding s)
    refine .bind (.attempt (hbody s.newScope)) fun body => ?_
    refine .bind popFrame_orderly fun deferred => ?_
    refine .bind (runDeferred_orderly hE deferred body) fun result => ?_
    exact .bind (.notify _) fun _ => .conclude result

end Function

/-! ### Calls that happen later -/

namespace Capture

variable {e : Expr} {span : Span}

/-- Nothing is imported while a call is deferred. -/
theorem defer_orderly (hc : (callable E c e .badDefer span).Orderly) :
    (defer E c e span).Orderly := by
  refine .bind (.gets _) fun task => .bind (.gets _) fun frame => ?_
  split
  · exact .stop _
  · refine .bind hc fun ⟨callee, args⟩ => .bind (.gets _) fun stack => ?_
    cases stack with
    | some k => exact .modifyGet (f := fun s => ((), _)) fun _ => rfl
    | none => exact .stop _

/-- A task that is spawned has imported nothing yet. -/
theorem spawn_orderly (hc : (callable E c e .badSpawn span).Orderly) :
    (spawn E c e span).Orderly := by
  refine .bind hc fun ⟨callee, args⟩ => ?_
  refine .bind (.modifyGet fun _ => rfl) fun inner => ?_
  exact .bind (.modifyGet (f := fun s => ((), _)) fun _ => rfl) fun _ => .pure _

end Capture

/-! ### Imports -/

namespace Import

variable {s : State} {path : String} {span : Span}

/-- The state in which a module is evaluated: its path is marked. -/
def marked (s : State) (path : String) : State :=
  { s with packages := s.packages.enter path }

/-- A new package is stored under its path. -/
theorem newPackage_apply (path : String) (scope : Ref .scope) (s : State) :
    newPackage path scope s = .done (s.packages.table.add ⟨Package.nameOf path, path, scope⟩).1
      { s with packages := s.packages.keep ⟨Package.nameOf path, path, scope⟩ } := rfl

/-- What an import has come to: the list of imports in progress is what it was before, and the path
is loaded if and only if the import has succeeded. -/
structure Concluded (p : Packages) (path : String) (o : Except Stop (Ref .package))
    (q : Packages) : Prop where
  settled : p.Settled q
  loaded : q.loaded.get? path = o.toOption

/-- **The evaluation of a module.** Its path is on the list of imports in progress wherever it can
be seen. Once the mark is taken away, the import is concluded. -/
theorem evaluate_throughout {loader : Loader}
    (hp : ∀ inner program, (E.program inner program).Orderly) (hs : s.packages.Sound)
    (hloader : s.packages.loader = some loader) (hnone : s.packages.loaded.get? path = none)
    (hfresh : path ∉ s.packages.resolving) :
    (evaluate E c loader path span (marked s path)).Throughout
      State.Keeps (fun t => (s.packages.enter path).Onward t.packages)
      (fun o t => Concluded s.packages path o (t.packages.leave path)) (marked s path) := by
  unfold evaluate
  cases hprogram : loader path with
  | error message =>
    -- nothing has been evaluated, and the mark is all that there is to take away
    refine .stop (.refl _) ?_
    rw [marked, Packages.leave_enter]
    exact ⟨.refl hs, hnone⟩
  | ok program =>
    have hprovided : s.packages.Provides path := ⟨loader, program, hloader, hprogram⟩
    have henter : s.packages.Onward (marked s path).packages :=
      hs.onward_enter hfresh hnone hprovided
    -- the body runs in a scope of its own, and whatever it ends with settles its imports
    obtain ⟨parent, owner, hopen⟩ := rootScope_opens c (marked s path)
    have hbody : (attempt (E.program (marked s path).newScope program)
        ((marked s path).withScope (.fresh parent ((marked s path).scopes.task c) owner))).Orderly
        (marked s path).packages (marked s path) :=
      (Orderly.attempt (hp _ program)).apply_of_eq henter.sound rfl
    have hover : ∀ {o : Except Stop (Ref .package)} {t : State}, o.toOption = none →
        (marked s path).packages.Settled t.packages →
        Concluded s.packages path o (t.packages.leave path) :=
      fun ho ht => ⟨.leave ht, ht.loaded_leave.trans ho.symm⟩
    simp only
    rw [bind_of_done hopen, bind_apply]
    refine hbody.andThen (fun result t ht => ?_) fun _ _ ht => hover rfl ht
    cases result with
    | ok v =>
      -- the package is kept under a path that is neither loaded nor marked any more
      have hleft : s.packages.Settled (t.packages.leave path) := .leave ht
      have hfresh' : path ∉ (t.packages.leave path).resolving := by
        rw [hleft.restored]
        exact hfresh
      have hunloaded : t.packages.loaded.get? path = none := ht.loaded_leave
      simp only [newPackage_apply]
      refine .done (Packages.kept_keep hunloaded) ⟨?_, Assoc.get?_insert_self _ _ _⟩
      exact hleft.keep hfresh' hunloaded (hleft.provides_iff.mpr hprovided)
    | error f =>
      -- the fault of an import keeps its message, every other one is told with the path
      obtain ⟨cause, place⟩ := f
      cases cause <;> exact .stop (.refl _) (hover rfl ht)

/-- What is loaded is given out at once, whatever the engine. -/
theorem resolve_of_loaded (hs : s.packages.Sound) {r : Ref .package}
    (hr : s.packages.loaded.get? path = some r) : resolve E c path span s = .done r s := by
  -- it came from a loader, so the interpreter has one
  obtain ⟨⟨loader, _, hloader, _⟩, _⟩ := hs.stored path r hr
  simp only [resolve, gets_bind_apply, hloader, hr]
  rfl

/-- What is being evaluated is refused at once, whatever the engine. -/
theorem resolve_of_resolving (hs : s.packages.Sound) (hpath : path ∈ s.packages.resolving) :
    ∃ message, resolve E c path span s = .stop (.fault ⟨.importFailed message, span⟩) s := by
  obtain ⟨loader, _, hloader, _⟩ := hs.provided path hpath
  have hnone := hs.unloaded path hpath
  -- being on the list, the path closes a circle
  cases hcycle : s.packages.cycle? path with
  | none => exact absurd hpath (Packages.cycle?_eq_none_iff.mp hcycle)
  | some cycle =>
    simp only [resolve, gets_bind_apply, hloader, hnone, hcycle]
    exact ⟨_, rfl⟩

/-- **An import** is concluded whatever it ends with. -/
theorem resolve_throughout (hp : ∀ inner program, (E.program inner program).Orderly)
    (hs : s.packages.Sound) :
    (resolve E c path span s).Throughout State.Keeps
      (fun t => s.packages.Onward t.packages)
      (fun o t => Concluded s.packages path o t.packages) s := by
  -- loaded, being evaluated, or neither
  cases hloaded : s.packages.loaded.get? path with
  | some r =>
    rw [resolve_of_loaded hs hloaded]
    exact .done (.refl _) ⟨.refl hs, hloaded⟩
  | none =>
    by_cases hpath : path ∈ s.packages.resolving
    · obtain ⟨message, hrefused⟩ : ∃ message, resolve E c path span s =
          .stop (.fault ⟨.importFailed message, span⟩) s := resolve_of_resolving hs hpath
      rw [hrefused]
      exact .stop (.refl _) ⟨.refl hs, hloaded⟩
    · simp only [resolve, gets_bind_apply, hloaded, Packages.cycle?_eq_none_iff.mpr hpath]
      cases hloader : s.packages.loader with
      | none => exact .stop (.refl _) ⟨.refl hs, hloaded⟩
      | some loader =>
        -- the mark is taken away again, however the evaluation ends
        have hunmark : ∀ u t : State, u.Keeps t →
            u.Keeps { t with packages := t.packages.leave path } :=
          fun _ _ h => Packages.Kept.trans h (Packages.kept_leave _ _)
        refine .preceded (t := marked s path) (Packages.kept_enter _ path) ?_
        refine Run.Throughout.ensuring ?_ fun _ u t hstep ht => ⟨hunmark u t hstep, ht⟩
        exact (evaluate_throughout hp hs hloader hloaded hpath).mono (fun _ _ => id)
          (fun t ht => ht.of_enter) fun _ _ => id

/-- An import keeps the registry in order. -/
theorem resolve_orderly (hp : ∀ inner program, (E.program inner program).Orderly) :
    (resolve E c path span).Orderly :=
  fun _ hs => (resolve_throughout hp hs).mono (fun _ _ => id) (fun _ => id) fun _ _ ht =>
    ht.settled

end Import

/-! ### Levels -/

/-- **What is built from activities that keep the registry in order keeps it in order.** -/
theorem Eval.Built.orderly (hE : E.Orderly) {x : Site} {m : Eval α} {K : Knowledge}
    (h : Built E K x c m) :
    m.Orderly := by
  -- one case a constructor; only an import changes the registry
  induction h with
  | pure a => exact .pure a
  | raise f => exact .stop (.fault f)
  | abort message => exact .stop (.abort message)
  | gets f => exact .gets f
  | await w => exact .await w
  | yieldTurn => exact .yieldTurn
  | bind _ _ ihm ihf => exact .bind ihm ihf
  | knowing _ _ _ ihm ihf => exact .bind ihm ihf
  | attempt _ ih => exact .attempt ih
  | ensuring _ hf ih => exact .ensuring ih fun s => (hf s).packages
  | modifyGet hf => exact .modifyGet fun s => (hf s).packages
  | change hf _ => exact .modifyGet fun s => (hf s).packages
  | newBound receiver method span => exact .modifyGet fun _ => rfl
  | statement line => exact .notify _
  | writeName span _ _ => exact .writeName _ _ _ span
  | rebindName name v span _ => exact .bind (.gets _) fun _ => .writeName _ name _ span
  | within hm _ ih => exact .within hm ih
  | block hm _ ih => exact .within hm ih
  | run _ _ ih => exact Function.run_orderly hE _ fun inner => ih inner _ _
  | method _ _ _ _ ihchecks ih =>
    -- the checks come first, then the call
    exact .bind ihchecks fun _ => Function.run_orderly hE _ fun inner => ih inner _ _
  | resolve _ ih => exact Import.resolve_orderly ih
  | defer _ ih => exact Capture.defer_orderly ih
  | spawn _ ih => exact Capture.spawn_orderly ih
  | packaged _ _ ihnone ihsome =>
    -- the registry does not care for whom a method was packaged
    refine .bind (.gets _) fun found => ?_
    cases found with
    | none => exact ihnone
    | some b => exact ihsome b
  | expr e _ => exact hE.expr _ e
  | stmt stmt => exact hE.stmt _ stmt
  | call callee args span => exact hE.call _ callee args span
  | invoke receiver name args span => exact hE.invoke _ receiver name args span
  | cycle condition body => exact hE.cycle _ condition body
  | drain vars r index body => exact hE.drain _ vars r index body

/-- An engine of no level imports nothing. -/
theorem Engine.idle_orderly : Engine.idle.Orderly where
  expr _ _ := .stop .exhausted
  stmt _ _ := .stop .exhausted
  call _ _ _ _ := .stop .exhausted
  invoke _ _ _ _ _ := .stop .exhausted
  cycle _ _ _ := .stop .exhausted
  drain _ _ _ _ _ := .stop .exhausted

/-- **Whatever an engine of any level does, the registry is in order wherever it can be seen.** -/
theorem Engine.watched_orderly (w : Bool) : ∀ n, (Engine.watched w n).Orderly
  | 0 => idle_orderly
  | n + 1 =>
    -- by induction on the level: the activities of a level are built from those of the one below
    have hn := watched_orderly w n
    { expr := fun scope e =>
        .bind (.reveal w) fun _ => (Expr.eval_built (x := .expr scope) rfl e).orderly hn
      stmt := fun scope stmt => .bind (.reveal w) fun _ => (Stmt.run_built scope stmt).orderly hn
      call := fun scope callee args span => .bind (.reveal w) fun _ =>
        (Dispatch.call_built (x := .away) scope args callee span).orderly hn
      invoke := fun scope receiver name args span => .bind (.reveal w) fun _ =>
        (Dispatch.invoke_built (x := .away) scope name args receiver span).orderly hn
      cycle := fun scope condition body =>
        .bind (.reveal w) fun _ => (Stmt.cycle_built scope condition body).orderly hn
      drain := fun scope vars r index body =>
        .bind (.reveal w) fun _ => (Stmt.drain_built scope vars r index body).orderly hn }

/-- A program is a list of statements, so it keeps the registry in order. -/
theorem Engine.program_orderly (hE : E.Orderly) (scope : Ref .scope) (program : Program) :
    (E.program scope program).Orderly :=
  (program_built (K := .nothing) scope program).orderly hE

/-! ### The registry over a run -/

namespace Import

variable {s t : State} {path : String}

/-- What is being evaluated is not entered again: its import fails, for that reason, at once. -/
theorem run_of_resolving (hs : s.packages.Sound) (hpath : path ∈ s.packages.resolving)
    (names : ImportNames) (span : Span) : ∃ f : Fault,
    run E c path names span s = .stop (.fault f) s ∧ f.cause.code = "IMPORT_ERROR" := by
  obtain ⟨message, h⟩ : ∃ message, resolve E c path span s =
      .stop (.fault ⟨.importFailed message, span⟩) s := resolve_of_resolving hs hpath
  exact ⟨_, bind_of_stop h _, rfl⟩

/-- **Modules are evaluated once.** The registry of a fresh interpreter is in order, whatever its
loader; and wherever the registry is in order, for a lone task at any level:

* every statement, an import among them, and every program keeps it in order wherever it can be
  seen, keeps what is loaded from each state that is seen to the next, and leaves the list of
  imports in progress as it was, whatever the end;
* an import leaves its path loaded if and only if it has succeeded, so failures are not kept;
* while the body of a module is evaluated, its path is on the list, above those that were there;
* a path that is loaded is never on the list again, and an import of it gives the same package,
  without evaluating anything;
* an import of a path on the list fails at once;
* the list is no longer than the paths that the loader knows are many. -/
theorem modules_evaluated_once (w : Bool) (n : Nat) :
    (∀ loader, (Packages.ofLoader loader).Sound) ∧
    ∀ (s : State) (scope : Ref .scope), s.packages.Sound →
      (∀ stmt, ((Engine.watched w n).stmt scope stmt s).Orderly s.packages s) ∧
      (∀ program, ((Engine.watched w n).program scope program s).Orderly s.packages s) ∧
      (∀ path span, (resolve (Engine.watched w n) scope path span s).Throughout
        State.Keeps (fun t => s.packages.Onward t.packages)
        (fun o t => Concluded s.packages path o t.packages) s) ∧
      (∀ loader path span, s.packages.loader = some loader →
        s.packages.loaded.get? path = none → path ∉ s.packages.resolving →
        (evaluate (Engine.watched w n) scope loader path span (marked s path)).Throughout
          State.Keeps
          (fun t => s.packages.resolving ++ [path] <+: t.packages.resolving)
          (fun _ _ => True) (marked s path)) ∧
      (∀ path r t, s.packages.loaded.get? path = some r → s.packages.Kept t.packages →
        t.packages.Sound → path ∉ t.packages.resolving ∧
          ∀ E scope span, resolve E scope path span t = .done r t) ∧
      (∀ path ∈ s.packages.resolving, ∀ E scope names span, ∃ f : Fault,
        run E scope path names span s = .stop (.fault f) s ∧ f.cause.code = "IMPORT_ERROR") ∧
      ∀ paths : Finset String, (∀ path, s.packages.Provides path → path ∈ paths) →
        s.packages.resolving.length ≤ paths.card := by
  have hE := Engine.watched_orderly w n
  have hp := Engine.program_orderly hE
  refine ⟨Packages.sound_ofLoader, fun s scope hs => ⟨fun stmt => ?_, fun program => ?_,
    fun path span => ?_, fun loader path span hloader hnone hfresh => ?_,
    fun path r t hr hkept ht => ?_, fun path hpath E scope names span => ?_,
    fun paths hpaths => ?_⟩⟩
  · exact hE.stmt scope stmt s hs
  · exact hp scope program s hs
  · exact resolve_throughout hp hs
  · exact (evaluate_throughout hp hs hloader hnone hfresh).mono (fun _ _ => id)
      (fun t ht => ht.resolving) fun _ _ _ => trivial
  · refine ⟨hkept.not_mem_resolving ht hr, fun E scope span => ?_⟩
    exact resolve_of_loaded ht (hkept.loaded path r hr)
  · exact run_of_resolving hs hpath names span
  · exact hs.length_resolving_le hpaths

/-- The statement that imports all of a module. -/
def importing (path : String) : Stmt := .mk (.importFrom path .all) .unknown

/-- Two modules that import each other. -/
def circle : Assoc String Program := .ofList [("a", [importing "b"]), ("b", [importing "a"])]

/-- An interpreter that can import the two. -/
def outsideCircle : State := .initial ⟨.empty, .default, some circle, .empty, false, 0, 0⟩

/-- The second module is being evaluated, for the first one. -/
def inCircle : State := marked (marked outsideCircle "a") "b"

/-- The second module has been loaded. -/
def besideCircle : State :=
  { outsideCircle with packages := outsideCircle.packages.keep ⟨"b", "b", State.root⟩ }

/-- In the circle the first module is imported in vain; once the second one is loaded, it is there
for good. -/
theorem modules_evaluated_once_circle :
    outsideCircle.packages.Sound ∧ inCircle.packages.Sound ∧ besideCircle.packages.Sound ∧
    ((Engine.watched true 9).program State.root [importing "a"] outsideCircle).Orderly
      outsideCircle.packages outsideCircle ∧
    (evaluate (Engine.watched true 9) State.root (.ofPrograms circle) "a" .unknown
      (marked outsideCircle "a")).Throughout State.Keeps
        (fun t => ["a"] <+: t.packages.resolving) (fun _ _ => True) (marked outsideCircle "a") ∧
    resolve (Engine.watched true 9) State.root "b" .unknown besideCircle =
      .done ⟨0⟩ besideCircle ∧
    (∃ f : Fault, run (Engine.watched true 9) State.root "a" .all .unknown inCircle =
      .stop (.fault f) inCircle ∧ f.cause.code = "IMPORT_ERROR") ∧
    inCircle.packages.resolving.length ≤ circle.keys.toFinset.card := by
  obtain ⟨hfresh, once⟩ := modules_evaluated_once true 9
  have houtside : outsideCircle.packages.Sound := hfresh _
  have ha : outsideCircle.packages.Provides "a" := ⟨_, _, rfl, rfl⟩
  have hb : outsideCircle.packages.Provides "b" := ⟨_, _, rfl, rfl⟩
  have hfirst : (marked outsideCircle "a").packages.Sound :=
    (houtside.onward_enter (by decide) rfl ha).sound
  have hinside : inCircle.packages.Sound := (hfirst.onward_enter (by decide) rfl hb).sound
  have hbeside : besideCircle.packages.Sound :=
    ((Packages.Settled.refl houtside).keep (by decide) rfl hb).sound
  obtain ⟨-, hprogram, -, hmarked, -⟩ := once outsideCircle State.root houtside
  obtain ⟨-, -, -, -, hloaded, -⟩ := once besideCircle State.root hbeside
  obtain ⟨-, -, -, -, -, hrefused, hbound⟩ := once inCircle State.root hinside
  refine ⟨houtside, hinside, hbeside, hprogram _, ?_, ?_, ?_, ?_⟩
  · exact hmarked _ "a" _ rfl rfl (by decide)
  · exact (hloaded "b" ⟨0⟩ besideCircle rfl (.refl _) hbeside).2 _ _ _
  · exact hrefused "a" (by decide) _ _ _ _
  · exact hbound _ fun path h => List.mem_toFinset.mpr (Packages.mem_keys_of_provides rfl h)

end Import

end ScriptEngine
