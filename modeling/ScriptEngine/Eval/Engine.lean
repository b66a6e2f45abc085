import ScriptEngine.Machine.Alloc

/-!
# The engine

Evaluating an expression evaluates others, runs statements, calls functions. An `Engine`
bundles the activities that recur; everything else is a plain function that is handed the
engine to recur with. `Engine.idle` can do nothing, and the modules that follow say how an
engine that can go one level deeper is made from one that can go so deep.
-/

namespace ScriptEngine

/-- How a statement ends. -/
inductive Flow where
  | normal (v : Value)
  | return (v : Value)
  | break
  | continue
deriving Inhabited

/-- What a function body is run with besides its arguments. -/
structure Binding where
  /-- The value of `self` and `this`. -/
  receiver : Option Value
  /-- The class the method was declared in. -/
  owner : Option (Ref .classDef)

def Binding.none : Binding := ⟨.none, .none⟩

/-- The names a loop binds in each round. -/
structure LoopVars where
  key : Option String
  value : String
  /-- Whether a single name stands for the keys. -/
  walksKeys : Bool
  span : Span

/-- The place a built-in function or method is called from. -/
structure CallSite where
  scope : Ref .scope
  span : Span
  /-- The name the function goes by in messages. -/
  name : String

/-- The activities that evaluation recurs to. -/
structure Engine where
  expr : Ref .scope → Expr → Eval Value
  stmt : Ref .scope → Stmt → Eval Flow
  /-- Calls any callable value. -/
  call : Ref .scope → Value → List Value → Span → Eval Value
  /-- Calls a method of a value by name. -/
  invoke : Ref .scope → Value → String → List Value → Span → Eval Value
  /-- Runs statements again and again as long as a condition is true. -/
  cycle : Ref .scope → Expr → List Stmt → Eval Flow
  /-- Runs statements for each value of a channel, counting from an index. -/
  drain : Ref .scope → LoopVars → Ref .channel → Nat → List Stmt → Eval Flow

namespace Engine

/-- Ends for lack of steps. -/
def stuck {α : Type} : Eval α := fun s => .stop .exhausted s

/-- The engine that cannot take a step. -/
def idle : Engine where
  expr _ _ := stuck
  stmt _ _ := stuck
  call _ _ _ _ := stuck
  invoke _ _ _ _ _ := stuck
  cycle _ _ _ := stuck
  drain _ _ _ _ _ := stuck

/-- The values of expressions, from the left. -/
def exprs (E : Engine) (scope : Ref .scope) (es : List Expr) : Eval (List Value) :=
  Eval.mapList (E.expr scope) es

/-- The value of an operand. A fault that is held as a value is no operand. -/
def operand (E : Engine) (scope : Ref .scope) (e : Expr) : Eval Value := do
  match ← E.expr scope e with
  | .error f => Eval.fail (.general ("error value used as an operand: " ++ f.message)) e.span
  | v => return v

/-- Runs statements until one ends otherwise than normally. Without any, the value is
`last`. -/
def bodyFrom (E : Engine) (scope : Ref .scope) : Value → List Stmt → Eval Flow
  | last, [] => return .normal last
  | _, stmt :: rest => do
    match ← E.stmt scope stmt with
    | .normal v => E.bodyFrom scope v rest
    | flow => return flow

/-- Runs statements in a scope. -/
def body (E : Engine) (scope : Ref .scope) (stmts : List Stmt) : Eval Flow :=
  E.bodyFrom scope .nil stmts

/-- Runs statements in a scope of their own. -/
def block (E : Engine) (scope : Ref .scope) (stmts : List Stmt) : Eval Flow := do
  E.body (← Eval.childScope scope) stmts

/-- Runs statements as a program. Its value is that of the last statement or of a `return`. -/
def program (E : Engine) (scope : Ref .scope) (stmts : List Stmt) : Eval Value := do
  match ← E.body scope stmts with
  | .normal v => return v
  | .return v => return v
  | .break => Eval.fail (.general "'break' outside of a loop") .unknown
  | .continue => Eval.fail (.general "'continue' outside of a loop") .unknown

/-- Whether the value of a condition counts as true. -/
def condition (E : Engine) (scope : Ref .scope) (e : Expr) : Eval Bool := do
  let v ← E.operand scope e
  Eval.gets (·.isTrue v)

end Engine

namespace CallSite

variable {α : Type}

/-- Ends with a cause at the call. -/
def fail (site : CallSite) (cause : Cause) : Eval α := Eval.fail cause site.span

/-- Calls a callable value from within a built-in function. -/
def call (E : Engine) (site : CallSite) (callee : Value) (args : List Value) : Eval Value :=
  E.call site.scope callee args site.span

end CallSite

end ScriptEngine
