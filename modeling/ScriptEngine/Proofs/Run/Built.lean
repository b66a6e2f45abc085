import ScriptEngine.Proofs.Classes.Lawful
import ScriptEngine.Proofs.Run.Path

/-!
# What the evaluator is made of

Every function of the evaluator is put together from a few steps on the state, the activities of the
engine, and sequencing. `Eval.Built E K x c m` says so of a computation `m`, over the engine `E`. It
records for what the steps are taken: `c` is the scope the computation acts for, whose task pushes
the frames and makes the calls, and the site `x` says what may be bound and deferred.

The predicate is inductive, so what is to hold of everything the evaluator does is shown once for
each constructor, not once for each function. Six readings are given. Two are about what scopes and
frames come to: every run that ends follows a `Path`; every run, whatever other tasks do while it
waits, goes by steps of the tasks it acts for. The run of a lone task keeps the registry of modules
in order, and nests its calls. Bodies leave the names of their own scope alone. And a run in a
lawful state goes by moves, so that classes and objects stay lawful and only admitted calls start.

Some constructors stand for functions that do something around a computation of their own: `within`
and `block` open a scope for it, `run` pushes a frame, `method` checks annotations before it does
so, `resolve` marks a path as being imported, `defer` and `spawn` keep the call it finds for later.
`packaged` is the one place where the acting scope changes: a packaged method is called from the
scope it was packaged in. What classes and objects allow is looked up before they are used or
changed, which is what `K` is for: `knowing` adds to it what has been found, `change`, `run` and
`method` rely on it.
-/

namespace ScriptEngine

/-- A step that changes data only, and packages no method. -/
structure PlainStep (s s' : State) : Prop extends DataStep s s' where
  bounds : s'.heap.bounds = s.heap.bounds

/-- A plain step that leaves classes, objects and functions alone. -/
structure QuietStep (s s' : State) : Prop extends PlainStep s s' where
  classes : s'.classes = s.classes
  objects : s'.heap.objects = s.heap.objects
  closures : s'.heap.closures = s.heap.closures

/-- A quiet step, by the parts of the state that it leaves alone. -/
@[grind ←] theorem QuietStep.of_eq {s t : State} (hscopes : t.scopes = s.scopes)
    (hstack : t.stack = s.stack) (hpackages : t.packages = s.packages)
    (hevents : t.events = s.events) (hlistening : t.listening = s.listening)
    (hbounds : t.heap.bounds = s.heap.bounds) (hclasses : t.classes = s.classes)
    (hobjects : t.heap.objects = s.heap.objects) (hclosures : t.heap.closures = s.heap.closures) :
    QuietStep s t :=
  ⟨⟨⟨hscopes, hstack, hpackages, hevents, hlistening⟩, hbounds⟩, hclasses, hobjects, hclosures⟩

namespace Eval

/-- The computation opens a new scope, for a task, and does nothing else. -/
def Opens (task : State → Nat) (m : Eval (Ref .scope)) : Prop :=
  ∀ s, ∃ parent owner, m s = .done s.newScope (s.withScope (.fresh parent (task s) owner))

/-- A scope inside another one. -/
theorem childScope_opens (scope : Ref .scope) :
    Opens (·.scopes.task scope) (childScope scope) :=
  fun _ => ⟨some scope, none, rfl⟩

/-- The scope of a call, inside the one the function was made in. -/
theorem enclosedScope_opens (outer caller : Ref .scope) (owner : Option (Ref .classDef)) :
    Opens (·.scopes.task caller) (enclosedScope outer caller owner) :=
  fun _ => ⟨some outer, owner, rfl⟩

/-- A scope without a parent. -/
theorem rootScope_opens (caller : Ref .scope) : Opens (·.scopes.task caller) (rootScope caller) :=
  fun _ => ⟨none, none, rfl⟩

/-- **A computation that is put together from steps of the evaluator,** acting for the scope `c`
at the site `x`, where `K` is known. -/
inductive Built (E : Engine) : Knowledge → Site → Ref .scope → {α : Type} → Eval α → Prop
  | pure {K : Knowledge} {x : Site} {c : Ref .scope} {α : Type} (a : α) :
      Built E K x c (Pure.pure a : Eval α)
  | raise {K : Knowledge} {x : Site} {c : Ref .scope} {α : Type} (f : Fault) :
      Built E K x c (Eval.raise f : Eval α)
  | abort {K : Knowledge} {x : Site} {c : Ref .scope} {α : Type} (message : String) :
      Built E K x c (Eval.abort message : Eval α)
  | gets {K : Knowledge} {x : Site} {c : Ref .scope} {α : Type} (f : State → α) :
      Built E K x c (Eval.gets f)
  | await {K : Knowledge} {x : Site} {c : Ref .scope} (w : Wait) : Built E K x c (Eval.await w)
  | yieldTurn {K : Knowledge} {x : Site} {c : Ref .scope} : Built E K x c Eval.yieldTurn
  | bind {K : Knowledge} {x : Site} {c : Ref .scope} {α β : Type} {m : Eval α}
      {f : α → Eval β} :
      Built E K x c m → (∀ a, Built E K x c (f a)) → Built E K x c (m >>= f)
  /-- What a computation has answered without waiting is known from then on. -/
  | knowing {K : Knowledge} {x : Site} {c : Ref .scope} {α β : Type} {m : Eval α}
      {f : α → Eval β} :
      Immediate m → Built E K x c m → (∀ a, Built E (K.after m a) x c (f a)) →
      Built E K x c (m >>= f)
  | attempt {K : Knowledge} {x : Site} {c : Ref .scope} {α : Type} {m : Eval α} :
      Built E K x c m → Built E K x c (Eval.attempt m)
  | ensuring {K : Knowledge} {x : Site} {c : Ref .scope} {α : Type} {m : Eval α}
      {f : State → State} :
      Built E K x c m → (∀ s, QuietStep s (f s)) → Built E K x c (Eval.ensuring m f)
  | modifyGet {K : Knowledge} {x : Site} {c : Ref .scope} {α : Type} {f : State → α × State} :
      (∀ s, QuietStep s (f s).2) → Built E K x c (Eval.modifyGet f)
  /-- Classes, objects or functions change. -/
  | change {K : Knowledge} {x : Site} {c : Ref .scope} {α : Type} {f : State → α × State} :
      (∀ s, PlainStep s (f s).2) → (∀ s, s.Lawful → K.holds s → ClassStep s (f s).2) →
      Built E K x c (Eval.modifyGet f)
  /-- A method is packaged with its receiver and the acting scope. -/
  | newBound {K : Knowledge} {x : Site} {c : Ref .scope} (receiver : Value) (method : String)
      (span : Span) : Built E K x c (Eval.newBound receiver method c span)
  | statement {K : Knowledge} {x : Site} {c : Ref .scope} (line : Nat) :
      Built E K x c (Eval.notify (.statement line))
  /-- A name is bound in the acting scope. -/
  | writeName {K : Knowledge} {x : Site} {c : Ref .scope} {name : String} {f : Scope → Scope}
      (span : Span) :
      x.home? = some c → NameWrite name f → Built E K x c (Eval.writeName c name f span)
  /-- A name changes where it is bound, or is bound in the acting scope. -/
  | rebindName {K : Knowledge} {x : Site} {c : Ref .scope} (name : String) (v : Value)
      (span : Span) : x.home? = some c → Built E K x c (Eval.rebindName c name v span)
  | within {K : Knowledge} {x : Site} {c : Ref .scope} {α : Type} {m : Eval (Ref .scope)}
      {f : Ref .scope → Eval α} :
      Opens (·.scopes.task c) m → (∀ inner, Built E K (.expr inner) inner (f inner)) →
      Built E K x c (m >>= f)
  | block {K : Knowledge} {c : Ref .scope} {α : Type} {m : Eval (Ref .scope)}
      {f : Ref .scope → Eval α} :
      Opens (·.scopes.task c) m → (∀ inner, Built E K (.stmt inner) inner (f inner)) →
      Built E K (.stmt c) c (m >>= f)
  /-- A script function is called from the acting scope. -/
  | run {K : Knowledge} {x : Site} {c : Ref .scope} {f : Closure} {args : List Value} {span : Span}
      {binding : Binding} :
      (∀ s, s.Lawful → K.holds s → Admitted s f args binding) →
      (∀ inner f args, Built E K (.stmt inner) inner (Function.runBody E inner f args span)) →
      Built E K x c (Function.run E c f args span binding)
  /-- A method is called from the acting scope. -/
  | method {K : Knowledge} {x : Site} {c : Ref .scope} {owner : Ref .classDef} {m : MethodDef}
      {args : List Value} {span : Span} (receiver : Option Value) :
      (∀ s, s.Lawful → K.holds s → s.classes.HasMethod owner m) →
      Built E K x c (forList (Object.checkMarking owner m.closure args span) m.annotations) →
      (∀ inner f args, Built E K (.stmt inner) inner (Function.runBody E inner f args span)) →
      Built E K x c (Object.runMethod E c receiver owner m args span)
  | resolve {K : Knowledge} {c : Ref .scope} {path : String} {span : Span} :
      (∀ inner program, Built E K (.stmt inner) inner (E.program inner program)) →
      Built E K (.stmt c) c (Import.resolve E c path span)
  | defer {K : Knowledge} {c : Ref .scope} {e : Expr} {span : Span} :
      Built E K (.expr c) c (Capture.callable E c e .badDefer span) →
      Built E K (.stmt c) c (Capture.defer E c e span)
  | spawn {K : Knowledge} {x : Site} {c : Ref .scope} {e : Expr} {span : Span} :
      Built E K x c (Capture.callable E c e .badSpawn span) →
      Built E K x c (Capture.spawn E c e span)
  /-- A packaged method acts for the scope it was packaged in. -/
  | packaged {K : Knowledge} {x : Site} {c : Ref .scope} {α : Type} {r : Ref .bound}
      {f : Option Bound → Eval α} :
      Built E K x c (f none) → (∀ b, Built E K .away b.scope (f (some b))) →
      Built E K x c (Eval.gets (·.heap.bounds.get? r) >>= f)
  | expr {K : Knowledge} {x : Site} {c : Ref .scope} (e : Expr) :
      x.home? = some c → Built E K x c (E.expr c e)
  | stmt {K : Knowledge} {c : Ref .scope} (stmt : Stmt) : Built E K (.stmt c) c (E.stmt c stmt)
  | call {K : Knowledge} {x : Site} {c : Ref .scope} (callee : Value) (args : List Value)
      (span : Span) : Built E K x c (E.call c callee args span)
  | invoke {K : Knowledge} {x : Site} {c : Ref .scope} (receiver : Value) (name : String)
      (args : List Value) (span : Span) : Built E K x c (E.invoke c receiver name args span)
  | cycle {K : Knowledge} {c : Ref .scope} (condition : Expr) (body : List Stmt) :
      Built E K (.stmt c) c (E.cycle c condition body)
  | drain {K : Knowledge} {c : Ref .scope} (vars : LoopVars) (r : Ref .channel) (index : Nat)
      (body : List Stmt) : Built E K (.stmt c) c (E.drain c vars r index body)

attribute [grind ←] Built.pure Built.raise Built.abort Built.gets
  Built.await Built.yieldTurn Built.bind Built.attempt Built.ensuring Built.modifyGet
  Built.newBound Built.statement Built.rebindName Built.defer Built.spawn
  Built.expr Built.stmt Built.call Built.invoke Built.cycle Built.drain

attribute [grind =] Site.home?

variable {α β : Type} {E : Engine} {K : Knowledge} {x : Site} {c : Ref .scope}

namespace Built

/-! ### Ends, sequences and steps -/

/-- A failure for a cause. -/
@[grind ←] theorem fail (cause : Cause) (span : Span) :
    Built E K x c (Eval.fail cause span : Eval α) := raise _

/-- An answer or a fault that is at hand. -/
@[grind ←] theorem conclude (r : Except Fault α) : Built E K x c (Eval.conclude r) := by
  -- an answer or a fault, as the result says
  cases r with
  | ok a => exact pure a
  | error f => exact raise f

/-- An answer, or a failure if there is none. -/
@[grind ←] theorem ofOption (o : Option α) (cause : Cause) (span : Span) :
    Built E K x c (Eval.ofOption o cause span) := by
  cases o with
  | none => exact fail cause span
  | some a => exact pure a

/-- An answer, or a failure for the cause at hand. -/
@[grind ←] theorem ofExcept (span : Span) (r : Except Cause α) :
    Built E K x c (Eval.ofExcept span r) := by
  cases r with
  | ok a => exact pure a
  | error cause => exact fail cause span

/-- An answer, or what a refusal comes to. -/
@[grind ←] theorem ofRefusal (span : Span) (r : Except Refusal α) :
    Built E K x c (Eval.ofRefusal span r) := by
  cases r with
  | ok a => exact pure a
  | error e =>
    -- a refusal is a fault, a trap ends the host
    cases e with
    | cause cause => exact fail cause span
    | trap t => exact abort _

/-- What is computed further from an answer. -/
@[grind ←] theorem map {m : Eval α} (f : α → β) (hm : Built E K x c m) : Built E K x c (f <$> m) :=
  bind hm fun a => pure (f a)

/-- An answer that nobody looks at. -/
@[grind ←] theorem discard {m : Eval α} (hm : Built E K x c m) :
    Built E K x c (Functor.discard m) :=
  map _ hm

/-- Over a list, by induction on it. -/
@[grind ←] theorem mapList {f : α → Eval β} (hf : ∀ a, Built E K x c (f a)) :
    ∀ as, Built E K x c (Eval.mapList f as)
  | [] => pure []
  | a :: rest => bind (hf a) fun _ => bind (mapList hf rest) fun _ => pure _

/-- Over a list, where it is enough to know of its members. -/
theorem forList_of_mem {f : α → Eval Unit} :
    ∀ {as : List α}, (∀ a ∈ as, Built E K x c (f a)) → Built E K x c (Eval.forList f as)
  | [], _ => pure ()
  | a :: _, hf => bind (hf a (.head _)) fun _ => forList_of_mem fun b hb => hf b (.tail _ hb)

/-- Over a list, for all values. -/
@[grind ←] theorem forList {f : α → Eval Unit} (hf : ∀ a, Built E K x c (f a)) (as : List α) :
    Built E K x c (Eval.forList f as) :=
  forList_of_mem fun a _ => hf a

/-- A plain step that changes classes or objects, if it is a class step. -/
theorem update {f : State → State} (hf : ∀ s, PlainStep s (f s))
    (hstep : ∀ s, s.Lawful → K.holds s → ClassStep s (f s)) : Built E K x c (Eval.modify f) :=
  change (f := fun s => ((), f s)) hf hstep

end Built

/-! ### Data -/

/-- Only what was written as a value becomes one. -/
@[grind ←] theorem newClosure_built {f : Closure} (hf : f.origin = .value) :
    Built E K x c (newClosure f) :=
  .change (fun _ => ⟨⟨rfl, rfl, rfl, rfl, rfl⟩, rfl⟩) fun _ _ _ => .newClosure hf rfl rfl rfl

/-- Objects are made of classes that are there. -/
theorem newObject_built {cls : Ref .classDef}
    (hcls : ∀ s, K.holds s → (s.classes.class? cls).isSome) : Built E K x c (newObject cls) :=
  .change (fun _ => ⟨⟨rfl, rfl, rfl, rfl, rfl⟩, rfl⟩) fun s _ hK =>
    .newObject (hcls s hK) rfl rfl rfl

/-- Classes are declared that are admitted. -/
theorem newClass_built {d : ClassDef} (hd : ∀ s, s.Lawful → K.holds s → s.classes.Admits d) :
    Built E K x c (newClass d) :=
  .change (fun _ => ⟨⟨rfl, rfl, rfl, rfl, rfl⟩, rfl⟩) fun s hs hK =>
    .newClass (hd s hs hK) rfl rfl rfl

/-- A field is read. -/
@[grind ←] theorem field?_built (r : Ref .object) (name : String) :
    Built E K x c (field? r name) :=
  .gets _

/-- The class of an object is read. -/
@[grind ←] theorem classOf_built (r : Ref .object) : Built E K x c (classOf r) := .gets _

/-- Fields are written to that are declared. -/
theorem setField_built {r : Ref .object} {name : String} (v : Value)
    (hname : ∀ s cls, s.Lawful → K.holds s → s.IsOf r cls → name ∈ s.classes.fieldNames cls) :
    Built E K x c (setField r name v) :=
  .update (fun _ => ⟨⟨rfl, rfl, rfl, rfl, rfl⟩, rfl⟩) fun s hs hK =>
    .setField v (fun cls => hname s cls hs hK) rfl rfl rfl

/-- A static field is written to, which no guard is needed for. -/
@[grind ←] theorem storeStatic_built (r : Ref .classDef) (name : String) (v : Value) :
    Built E K x c (storeStatic r name v) :=
  .update (fun _ => ⟨⟨rfl, rfl, rfl, rfl, rfl⟩, rfl⟩) fun _ _ _ =>
    .setStatic r name v rfl rfl rfl

/-! ### Names -/

/-- A name is bound in the acting scope. -/
@[grind ←] theorem bindName_built (hx : x.home? = some c) (name : String) (v : Value)
    (span : Span) : Built E K x c (bindName c name v span) :=
  .writeName span hx (.bind v)

/-- A constant is bound there. -/
@[grind ←] theorem bindConst_built (hx : x.home? = some c) (name : String) (v : Value)
    (span : Span) : Built E K x c (bindConst c name v span) :=
  .writeName span hx (.bindConst v)

/-- The receiver is bound there. -/
@[grind ←] theorem bindReceiver_built (hx : x.home? = some c) (receiver : Value) (span : Span) :
    Built E K x c (bindReceiver c receiver span) := by
  grind [bindReceiver]

end Eval

open Eval

variable {E : Engine} {K : Knowledge} {x : Site} {c : Ref .scope}

/-! ### Sequences of statements -/

namespace Engine

/-- Expressions one after the other. -/
@[grind ←] theorem exprs_built (hx : x.home? = some c) (es : List Expr) :
    Built E K x c (E.exprs c es) := by
  grind [exprs]

/-- An expression whose value is no error. -/
@[grind ←] theorem operand_built (hx : x.home? = some c) (e : Expr) :
    Built E K x c (E.operand c e) := by
  grind [operand]

/-- An expression that is asked for its truth. -/
@[grind ←] theorem condition_built (hx : x.home? = some c) (e : Expr) :
    Built E K x c (E.condition c e) := by
  grind [condition]

/-- Statements one after the other, by induction on them. -/
@[grind ←] theorem bodyFrom_built (c : Ref .scope) (last : Value) (stmts : List Stmt) :
    Built E K (.stmt c) c (E.bodyFrom c last stmts) := by
  induction stmts generalizing last with
  | nil => exact .pure _
  | cons stmt rest ih => grind [bodyFrom]

/-- A body, in the scope it is given. -/
@[grind ←] theorem body_built (c : Ref .scope) (stmts : List Stmt) :
    Built E K (.stmt c) c (E.body c stmts) :=
  bodyFrom_built c _ stmts

/-- A block, in a scope of its own. -/
@[grind ←] theorem block_built (c : Ref .scope) (stmts : List Stmt) :
    Built E K (.stmt c) c (E.block c stmts) :=
  .block (childScope_opens c) fun inner => body_built inner stmts

/-- A program. -/
@[grind ←] theorem program_built (c : Ref .scope) (stmts : List Stmt) :
    Built E K (.stmt c) c (E.program c stmts) := by
  grind [program]

end Engine

/-! ### Calls of script functions -/

namespace Function

/-- Parameters are bound to arguments, or to their defaults. -/
theorem bindParams_built (hx : x.home? = some c) (span : Span) (params : List Param)
    (args : List Value) : Built E K x c (bindParams E c span params args) := by
  -- by induction on the parameters, with the arguments that are left
  induction params generalizing args with
  | nil => exact .pure ()
  | cons p params ih => cases args <;> grind [bindParams]

/-- The body of a script function, in the scope of the call. -/
theorem runBody_built (c : Ref .scope) (f : Closure) (args : List Value) (span : Span) :
    Built E K (.stmt c) c (runBody E c f args span) := by
  -- the parameters are bound first, then the statements of the body follow
  refine .bind (bindParams_built rfl f.span f.params args) fun _ => ?_
  grind

/-- A call of a script function that is admitted. -/
theorem run_built {c : Ref .scope} {f : Closure} {args : List Value} {binding : Binding}
    (span : Span) (h : ∀ s, s.Lawful → K.holds s → Admitted s f args binding) :
    Built E K x c (run E c f args span binding) :=
  .run h fun inner f args => runBody_built inner f args span

end Function

end ScriptEngine
