import ScriptEngine.Proofs.Run.Levels

/-!
# The call stack across evaluations and calls

Whatever is evaluated, and however it ends, the frames are afterwards the ones that were there
before, in the same order. The scope of an evaluation is an argument of it, so what comes next
is evaluated in that scope again; it still has the same parent, the same task and the same
class, as every scope has.

A call that is deferred waits on the frame of the function it stands in, with the callee and
the arguments that were found when it was deferred (`Path.defer`). When the body of the
function has ended, in whatever way, the frame comes down and its deferred calls are made, the
latest first, each of them once and whatever the others end with. What functions called on the
way have deferred was on their own frames, and is not made again.

Every call of a script function goes through `Function.run`: those of methods, of accessors and
of functions that built-in functions call back.
-/

namespace ScriptEngine.Engine

/-- **Evaluation keeps the stack.** Started in any state and in any scope of it, at any level,
an expression, a call and a method leave the stack as it was when they end with a value or with a
fault. A statement leaves the same frames in the same order; all it may have done to them is
to defer calls on the innermost frame of its task. The scopes that existed keep their place. -/
theorem level_keeps_stack (n : Nat) (scope : Ref .scope) (s : State)
    (hscope : (s.scopes.node? scope).isSome) :
    (∀ e o t, ((level n).expr scope e s).Ends o t →
      t.stack = s.stack ∧ s.scopes.Extends t.scopes) ∧
    (∀ callee args span o t, ((level n).call scope callee args span s).Ends o t →
      t.stack = s.stack ∧ s.scopes.Extends t.scopes) ∧
    (∀ receiver name args span o t, ((level n).invoke scope receiver name args span s).Ends o t →
      t.stack = s.stack ∧ s.scopes.Extends t.scopes) ∧
    (∀ stmt o t, ((level n).stmt scope stmt s).Ends o t →
      (∃ ds, t.stack = s.stack.withDeferred (s.scopes.task scope) ds) ∧
        s.scopes.Extends t.scopes) := by
  have hE := level_traced n
  refine ⟨fun e o t h => ?_, fun callee args span o t h => ?_,
    fun receiver name args span o t h => ?_, fun stmt o t h => ?_⟩
  · exact (hE.expr scope e).keeps_stack (fun c hc => by cases hc; exact hscope) nofun h
  · exact (hE.call scope callee args span).keeps_stack nofun nofun h
  · exact (hE.invoke scope receiver name args span).keeps_stack nofun nofun h
  · have hx : (Site.stmt scope).Valid s := fun c hc => by cases hc; exact hscope
    obtain ⟨ds, hd⟩ := hE.stmt scope stmt hx h
    exact ⟨⟨ds, hd.stack_eq hx⟩, hd.scopes_extend⟩

/-- A state in which a function of the main task is being called. -/
def inCall (function : String) : State :=
  { State.initial ⟨.empty, .default, none, .empty, false, 0, 0⟩ with
    stack := ⟨[⟨function, 0, .unknown, []⟩]⟩ }

/-- The statement that leaves an empty function to the end. -/
def leaveEmpty : Stmt := .mk (.defer (.mk (.function none [] []) .unknown)) .unknown

/-- A call is deferred in a function, and one of a built-in function is made there. -/
theorem level_keeps_stack_inCall :
    ((inCall "f").scopes.node? State.root).isSome ∧
    (∃ t, ((level 2).stmt State.root leaveEmpty (inCall "f")).Ends (.ok Stmt.done) t ∧
      ∃ ds, t.stack = (inCall "f").stack.withDeferred 0 ds) ∧
    ∃ t, ((level 2).call State.root (.native ⟨"newList", .newList⟩) [] .unknown
      (inCall "f")).Ends (.ok (.list ⟨0⟩)) t ∧ t.stack = (inCall "f").stack := by
  have keeps := level_keeps_stack 2 State.root (inCall "f") rfl
  obtain ⟨t, ht⟩ : ∃ t, ((level 2).stmt State.root leaveEmpty (inCall "f")).Ends
      (.ok Stmt.done) t := ⟨_, .done _ _⟩
  obtain ⟨u, hu⟩ : ∃ u, ((level 2).call State.root (.native ⟨"newList", .newList⟩) [] .unknown
      (inCall "f")).Ends (.ok (.list ⟨0⟩)) u := ⟨_, .done _ _⟩
  exact ⟨rfl, ⟨t, ht, (keeps.2.2.2 _ _ _ ht).1⟩, ⟨u, hu, (keeps.2.1 _ _ _ _ _ hu).1⟩⟩

end ScriptEngine.Engine

namespace ScriptEngine.Function

/-- **Deferred calls are made once, in reverse, after the body.** A call of a script function
ends exactly like this. It is refused before it has a frame, and the state is as it was. Or its
body ends, on a path that defers the calls `registered` at the scope of the body, the latest in
front; then, with the frame gone, these calls are made in turn, and the call ends with the fault
of the body, else with the first fault of a deferred call, else with the value of the body. -/
theorem run_level_ends_iff {n : Nat} {caller : Ref .scope} {f : Closure} {args : List Value}
    {span : Span} {binding : Binding} {s t : State} {o : Except Fault Value} :
    (run (.level n) caller f args span binding s).Ends o t ↔
      (∃ e, refusal? f args caller span s = some e ∧ o = .error e ∧ t = s) ∨
      refusal? f args caller span s = none ∧ ∃ body registered finished outcomes left,
        (runBody (.level n) s.newScope f args span (entry f caller span binding s)).Ends
          body finished ∧
        Path (.stmt s.newScope) registered (entry f caller span binding s) finished ∧
        finished.stack = s.stack.push { frameOf f caller span s with deferred := registered } ∧
        MadeInTurn (.level n) caller registered { finished with stack := s.stack }
          outcomes left ∧
        left.stack = s.stack ∧
        o = verdict body outcomes ∧ t = left.notified (returnEvent f caller span s) := by
  have hE := Engine.level_traced n
  rw [run_ends_iff]
  refine or_congr_right (and_congr_right fun _ => ?_)
  constructor
  · rintro ⟨body, finished, outcomes, left, hbody, hmade, ho, ht⟩
    obtain ⟨registered, hpath, hstack, hlow⟩ := body_path hE hbody
    rw [hlow] at hmade
    have hleft : left.stack = s.stack := by
      simpa using (hmade.path hE).stack_eq nofun
    exact ⟨body, registered, finished, outcomes, left, hbody, hpath, hstack, hmade, hleft, ho, ht⟩
  · rintro ⟨body, registered, finished, outcomes, left, hbody, -, hstack, hmade, -, ho, ht⟩
    refine ⟨body, finished, outcomes, left, hbody, ?_, ho, ht⟩
    -- the frame that comes down is the one on top, so what it has deferred is `registered`
    obtain ⟨registered', -, hstack', hlow⟩ := body_path hE hbody
    obtain rfl : registered = registered' := by
      simpa [CallStack.push] using hstack.symm.trans hstack'
    rw [hlow]
    exact hmade

end ScriptEngine.Function
