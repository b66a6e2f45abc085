import ScriptEngine.Eval.Expression
import ScriptEngine.Eval.Statement

/-!
# The engine, level by level

An engine of level `n + 1` does each of its activities once and leaves everything deeper to
the engine of level `n`; the engine of level zero can do nothing. So the level bounds the
depth of an evaluation, and raising it changes nothing about an evaluation that ends.
-/

namespace ScriptEngine

/-- The engine that evaluates to a given depth. -/
def Engine.level : Nat → Engine
  | 0 => .idle
  | n + 1 => {
      expr := fun scope e s => Expr.eval (level n) scope e s
      stmt := fun scope stmt s => Stmt.run (level n) scope stmt s
      call := fun scope f args span s => Dispatch.call (level n) scope f args span s
      invoke := fun scope v name args span s => Dispatch.invoke (level n) scope v name args span s
      cycle := fun scope condition body s => Stmt.cycle (level n) scope condition body s
      drain := fun scope vars r i body s => Stmt.drain (level n) scope vars r i body s }

/-- The level at which programs run: more steps than any of them takes. -/
def Engine.top : Engine := .level (1152921504606846976)

end ScriptEngine
