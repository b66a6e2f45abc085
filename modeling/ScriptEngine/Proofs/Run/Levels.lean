import ScriptEngine.Proofs.Run.Calls
import ScriptEngine.Proofs.Run.Statements

/-!
# Every level of the engine follows paths

The first reading of `Eval.Built`: a computation that is put together from steps of an engine
follows a path if the activities of the engine do (`Eval.Built.traced`). What is deferred, what is
spawned and what is imported has an argument here. An induction on the level closes the circle
(`Engine.level_traced`).
-/

namespace ScriptEngine

open Eval

variable {E : Engine} {x : Site}

/-! ### Calls that happen later -/

namespace Capture

variable {scope : Ref .scope} {e : Expr} {span : Span}

/-- A captured call that is callable was captured. -/
theorem call?_ends_of_callable {otherwise : Cause} {callee : Value} {args : List Value}
    {s t : State} (h : (callable E scope e otherwise span s).Ends (.ok (callee, args)) t) :
    (call? E scope e s).Ends (.ok (some (callee, args))) t := by
  obtain ⟨found, s', hf, h⟩ | ⟨e, he, -⟩ := ends_bind_iff.mp h
  · -- what was found is refused, unless it is there and callable
    cases found with
    | none => cases (ends_fail_iff.mp h).1
    | some found =>
      obtain ⟨callee', args'⟩ := found
      by_cases hc : callee'.isCallable
      · simp only [hc, if_true, ends_pure_iff] at h
        obtain ⟨heq, rfl⟩ := h
        obtain ⟨rfl, rfl⟩ := Prod.mk.inj (Except.ok.inj heq)
        exact hf
      · simp only [hc] at h
        cases (ends_fail_iff.mp h).1
  · cases he

/-- A call is deferred at its statement, with what its capture found. -/
theorem defer_traced (hE : E.Traced)
    (hc : Traced (.expr scope) (callable E scope e .badDefer span)) :
    Traced (.stmt scope) (defer E scope e span) := by
  obtain ⟨n, rfl⟩ := hE.isLevel
  intro s o t hx h
  unfold defer at h
  -- the task is looked up first, and that it has a frame
  rw [gets_bind_apply, gets_bind_apply] at h
  split at h
  · obtain ⟨-, rfl⟩ := ends_fail_iff.mp h
    exact ⟨[], .refl _ t⟩
  obtain ⟨⟨callee, args⟩, s₁, hcap, h⟩ | ⟨e, -, he⟩ := ends_bind_iff.mp h
  · -- the callee and the arguments are those that were found now
    obtain ⟨ds, hpath⟩ := hc hx hcap
    obtain rfl | ⟨c, h'⟩ := hpath.eq_nil_or_stmt
    · -- meanwhile the scope has kept its task, so the frame is looked for under the same one
      have htask : s₁.scopes.task scope = s.scopes.task scope := hpath.task_eq hx
      simp only [gets_bind_apply, ← htask] at h
      generalize hk : s₁.stack.edit _ _ = k at h
      cases k with
      | some k =>
        obtain ⟨-, rfl⟩ := ends_modify_iff.mp h
        exact ⟨_, .defer (call?_ends_of_callable hcap) hpath hk⟩
      | none =>
        obtain ⟨-, rfl⟩ := ends_fail_iff.mp h
        exact ⟨[], hpath.expr_stmt⟩
    · exact nomatch h'
  · -- nothing is deferred if the capture fails
    obtain ⟨ds, hpath⟩ := hc hx he
    exact ⟨ds, hpath.expr_stmt⟩

/-- A call is handed to a task that starts in a new scope. -/
theorem spawn_traced (hc : Traced x (callable E scope e .badSpawn span)) :
    Traced x (spawn E scope e span) := by
  refine .bind hc fun ⟨callee, args⟩ => ?_
  intro s o t _ h
  -- the scope of the new task is new as well, and the rest is bookkeeping
  simp only [taskScope, modifyGet_bind_apply, modify_bind_apply] at h
  obtain ⟨-, rfl⟩ := ends_pure_iff.mp h
  exact ⟨[], .within (some scope) s.nextTask none (.data ⟨rfl, rfl, rfl, rfl, rfl⟩)⟩

end Capture

namespace Import

variable {scope : Ref .scope} {path : String} {span : Span}

/-- What a program defers outside of its functions is deferred where it is imported. -/
theorem evaluate_traced (loader : Loader)
    (hp : ∀ inner program, Traced (.stmt inner) (E.program inner program)) :
    Traced (.stmt scope) (evaluate E scope loader path span) := by
  unfold evaluate
  split
  · exact .raise _
  · refine .block (rootScope_opens scope) fun inner => ?_
    refine .bind (.attempt (hp inner _)) fun result => ?_
    split
    · exact newPackage_traced path inner
    · split <;> exact .raise _

/-- A package is evaluated under its mark. -/
theorem resolve_traced
    (hp : ∀ inner program, Traced (.stmt inner) (E.program inner program)) :
    Traced (.stmt scope) (resolve E scope path span) := by
  intro s o t hx h
  simp only [resolve, gets_bind_apply] at h
  cases hloader : s.packages.loader with
  | none =>
    simp only [hloader] at h
    obtain ⟨-, rfl⟩ := ends_fail_iff.mp h
    exact ⟨[], .refl _ t⟩
  | some loader =>
    cases hloaded : s.packages.loaded.get? path with
    | some r =>
      simp only [hloader, hloaded] at h
      obtain ⟨-, rfl⟩ := ends_pure_iff.mp h
      exact ⟨[], .refl _ t⟩
    | none =>
      cases hcycle : s.packages.cycle? path with
      | some cycle =>
        simp only [hloader, hloaded, hcycle] at h
        obtain ⟨-, rfl⟩ := ends_fail_iff.mp h
        exact ⟨[], .refl _ t⟩
      | none =>
        -- the mark is taken away again, however the evaluation ends
        simp only [hloader, hloaded, hcycle, modify_bind_apply] at h
        obtain ⟨u, hu, rfl⟩ := ends_ensuring_iff.mp h
        have hmarked : (Site.stmt scope).Valid { s with packages := s.packages.enter path } := hx
        obtain ⟨ds, hd⟩ := evaluate_traced loader hp hmarked hu
        exact ⟨ds, .package hloaded hcycle hd⟩

end Import

/-! ### Levels -/

/-- **What is built from traced activities is traced.** -/
theorem Eval.Built.traced (hE : E.Traced) {c : Ref .scope} {α : Type} {m : Eval α}
    {K : Knowledge} (h : Built E K x c m) : Traced x m := by
  induction h with
  | pure a => exact .pure a
  | raise f => exact .raise f
  | abort message => exact .abort message
  | gets f => exact .gets f
  | await w => exact await_traced w
  | yieldTurn => exact yieldTurn_traced
  | bind _ _ ihm ihf => exact .bind ihm ihf
  | knowing _ _ _ ihm ihf => exact .bind ihm ihf
  | attempt _ ih => exact .attempt ih
  | ensuring _ hf ih => exact .ensuring ih fun s => (hf s).toDataStep
  | modifyGet hf => exact .modifyGet fun s => (hf s).toDataStep
  | change hf _ => exact .modifyGet fun s => (hf s).toDataStep
  | newBound receiver method span => exact newBound_traced ..
  | statement line => exact notify_statement_traced line
  | writeName span hx hf => exact fun _ _ _ _ h => ⟨[], writeName_ends hf (.inl hx) h⟩
  | rebindName name v span hx => exact rebindName_traced hx name v span
  | within hm _ ih => exact .within hm ih
  | block hm _ ih => exact .block hm ih
  | run _ _ ih => exact Function.run_traced hE _ fun inner => ih inner _ _
  | method _ _ _ _ ihchecks ih =>
    -- the checks come first, then the call
    exact .bind ihchecks fun _ => Function.run_traced hE _ fun inner => ih inner _ _
  | resolve _ ih => exact Import.resolve_traced ih
  | defer _ ih => exact Capture.defer_traced hE ih
  | spawn _ ih => exact Capture.spawn_traced ih
  | packaged _ _ ihnone ihsome =>
    refine .bind (.gets _) fun found => ?_
    cases found with
    | none => exact ihnone
    | some b => exact (ihsome b).weaken
  | expr e hx => exact (hE.expr _ e).of_expr hx
  | stmt stmt => exact hE.stmt _ stmt
  | call callee args span => exact (hE.call _ callee args span).weaken
  | invoke receiver name args span => exact (hE.invoke _ receiver name args span).weaken
  | cycle condition body => exact hE.cycle _ condition body
  | drain vars r index body => exact hE.drain _ vars r index body

/-- The body of a call runs on top of its frame and leaves it there, with the calls deferred on
the way. -/
theorem Function.body_path (hE : E.Traced) {caller : Ref .scope} {f : Closure}
    {args : List Value} {span : Span} {binding : Binding} {s finished : State}
    {body : Except Fault Value}
    (h : (runBody E s.newScope f args span (entry f caller span binding s)).Ends body finished) :
    ∃ registered, Path (.stmt s.newScope) registered (entry f caller span binding s) finished ∧
      finished.stack = s.stack.push { frameOf f caller span s with deferred := registered } ∧
      lowered s.newScope finished = (registered, { finished with stack := s.stack }) :=
  body_path_of_traced ((runBody_built (K := .nothing) s.newScope f args span).traced hE) h

/-- **Whatever an engine of any level evaluates, it follows a path.** -/
theorem Engine.level_traced : ∀ n, (Engine.level n).Traced
  | 0 => idle_traced
  | n + 1 =>
    have hn := level_traced n
    { isLevel := ⟨n + 1, rfl⟩
      expr := fun _ e => (Expr.eval_built rfl e).traced hn
      stmt := fun scope stmt => (Stmt.run_built scope stmt).traced hn
      call := fun scope callee args span => (Dispatch.call_built scope args callee span).traced hn
      invoke := fun scope receiver name args span =>
        (Dispatch.invoke_built scope name args receiver span).traced hn
      cycle := fun scope condition body => (Stmt.cycle_built scope condition body).traced hn
      drain := fun scope vars r index body =>
        (Stmt.drain_built scope vars r index body).traced hn }

end ScriptEngine
