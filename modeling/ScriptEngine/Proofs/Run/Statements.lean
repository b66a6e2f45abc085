import ScriptEngine.Proofs.Run.Expressions

/-!
# How statements are built

An import marks its path while it evaluates a package, and loops, branches and handlers run
statements in scopes of their own. With these the last activities of an engine are covered: each
activity of a level is built from those of the level below.
-/

namespace ScriptEngine

open Eval

variable {E : Engine} {K : Knowledge} {x : Site} {c : Ref .scope} {α : Type}

/-! ### Imports -/

namespace Import

variable (path : String) (span : Span) (scope : Ref .scope)

/-- A module is evaluated under its mark. -/
theorem resolve_built : Built E K (.stmt scope) scope (resolve E scope path span) :=
  .resolve Engine.program_built

/-- An import, with the names it binds. -/
@[grind ←] theorem run_built (names : ImportNames) :
    Built E K (.stmt scope) scope (run E scope path names span) := by
  unfold run
  refine .bind (resolve_built path span scope) fun r => ?_
  split
  -- the package is bound as a whole, or all of its exports, or those that are named
  · grind
  · exact .bind (.gets _) fun items => .forList (fun (name, v) => by grind) items
  · refine .forList (fun (name, binder) => ?_) _
    grind

end Import

/-! ### Forms of statements -/

namespace Stmt

variable (scope : Ref .scope)

/-- A value is thrown. -/
@[grind ←] theorem throwValue_built (v : Value) (span : Span) :
    Built E K x c (throwValue v span : Eval α) := by
  unfold throwValue
  split <;> grind

/-- A value that may be left out. -/
@[grind ←] theorem valueOf_built (hx : x.home? = some scope) (e : Option Expr) :
    Built E K x scope (valueOf E scope e) := by
  cases e <;> grind [valueOf]

/-- One round of a loop with a condition, and the rest of it. -/
theorem cycle_built (condition : Expr) (body : List Stmt) :
    Built E .nothing (.stmt scope) scope (cycle E scope condition body) := by
  unfold cycle
  -- the turn is handed over before the condition is looked at
  refine .bind .yieldTurn fun _ => ?_
  refine .bind (Engine.condition_built rfl condition) fun holds => ?_
  grind

/-- One round of a loop over a collection, in a scope of its own. -/
@[grind ←] theorem round_built (vars : LoopVars) (key value : Value) (body : List Stmt) :
    Built E K (.stmt scope) scope (round E scope vars key value body) := by
  refine .block (childScope_opens scope) fun inner => ?_
  grind

/-- All rounds, by induction on what is left to go through. -/
@[grind ←] theorem rounds_built (vars : LoopVars) (body : List Stmt)
    (items : List (Value × Value)) :
    Built E K (.stmt scope) scope (rounds E scope vars body items) := by
  induction items with
  | nil => exact .pure done
  | cons item rest ih => grind [rounds]

/-- A loop over a channel. -/
theorem drain_built (vars : LoopVars) (r : Ref .channel) (index : Nat) (body : List Stmt) :
    Built E .nothing (.stmt scope) scope (drain E scope vars r index body) := by
  grind [drain]

/-- A loop over a collection of any kind. -/
@[grind ←] theorem forIn_built (key : Option String) (value : String) (items : Expr)
    (body : List Stmt) : Built E K (.stmt scope) scope (forIn E scope key value items body) := by
  unfold forIn
  -- a channel is drained round by round, everything else is gone through as it is at first
  refine .bind (Engine.operand_built rfl items) fun collection => ?_
  extract_lets vars
  split <;> grind

/-- A guarded body, with its handler and what is done in any case. -/
@[grind ←] theorem guarded_built (body : List Stmt) (handler : Option (String × List Stmt))
    (last : Option (List Stmt)) (span : Span) :
    Built E K (.stmt scope) scope (guarded E scope body handler last span) := by
  -- the handler runs in a scope of its own
  have handled : ∀ name f stmts, Built E K (.stmt scope) scope (do
      let inner ← childScope scope
      bindName inner name (caught f) span
      E.body inner stmts) := by
    intro name f stmts
    refine .block (childScope_opens scope) fun inner => ?_
    grind
  unfold guarded
  -- the body first, then the handler if it has failed, then what is done in any case
  refine .bind (.attempt (Engine.block_built scope body)) fun result => ?_
  extract_lets rest
  have hrest : ∀ result, Built E K (.stmt scope) scope (rest result) := by
    intro result
    unfold rest
    split <;> grind
  split
  · exact .bind (.attempt (handled _ _ _)) hrest
  · exact .bind (.pure _) hrest

/-- A statement acts for the scope it stands in. -/
theorem run_built (stmt : Stmt) : Built E .nothing (.stmt scope) scope (run E scope stmt) := by
  unfold run
  -- the listener is told of the line before anything else
  refine .bind (.statement _) fun _ => ?_
  split <;> grind

end Stmt

end ScriptEngine
