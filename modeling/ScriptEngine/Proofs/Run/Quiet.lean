import ScriptEngine.Proofs.Run.Built

/-!
# Quiet computations

Most of what built-in functions and methods do is quiet: it changes data that is neither a class
nor an object nor a function, waits, and calls back into the program from the scope of the call.
It may also fail, but not because a method is missing: only the evaluator itself says that.

`Eval.Quiet E c m` says this of a computation `m` that acts for the scope `c`. Quiet computations are
built from steps of the evaluator at any site (`Quiet.built`).
-/

namespace ScriptEngine

/-- The cause says that there is no method of a name. -/
def Cause.DeniesMethod (cause : Cause) : Prop :=
  cause.code = "NO_METHOD" ∨ cause.code = "NO_METHOD_EX"

attribute [grind =] Cause.DeniesMethod Cause.code

namespace Eval

/-- **A quiet computation** that acts for the scope `c`. -/
inductive Quiet (E : Engine) (c : Ref .scope) : {α : Type} → Eval α → Prop
  | pure {α : Type} (a : α) : Quiet E c (Pure.pure a : Eval α)
  | fail {α : Type} {cause : Cause} (span : Span) :
      ¬ cause.DeniesMethod → Quiet E c (Eval.fail cause span : Eval α)
  | abort {α : Type} (message : String) : Quiet E c (Eval.abort message : Eval α)
  | gets {α : Type} (f : State → α) : Quiet E c (Eval.gets f)
  | await (w : Wait) : Quiet E c (Eval.await w)
  | yieldTurn : Quiet E c Eval.yieldTurn
  | bind {α β : Type} {m : Eval α} {f : α → Eval β} :
      Quiet E c m → (∀ a, Quiet E c (f a)) → Quiet E c (m >>= f)
  | ensuring {α : Type} {m : Eval α} {f : State → State} :
      Quiet E c m → (∀ s, QuietStep s (f s)) → Quiet E c (Eval.ensuring m f)
  | modifyGet {α : Type} {f : State → α × State} :
      (∀ s, QuietStep s (f s).2) → Quiet E c (Eval.modifyGet f)
  | call (callee : Value) (args : List Value) (span : Span) : Quiet E c (E.call c callee args span)

attribute [grind ←] Quiet.pure Quiet.fail Quiet.abort Quiet.gets Quiet.await Quiet.yieldTurn
  Quiet.bind Quiet.ensuring Quiet.modifyGet Quiet.call

variable {α β : Type} {E : Engine} {K : Knowledge} {x : Site} {c : Ref .scope}

namespace Quiet

/-- What is quiet is built from steps of the evaluator. -/
@[grind ←] theorem built {m : Eval α} (h : Quiet E c m) : Built E K x c m := by
  -- each step of a quiet computation is one of the evaluator's
  induction h with
  | pure a => exact .pure a
  | fail span _ => exact .fail _ span
  | abort message => exact .abort message
  | gets f => exact .gets f
  | await w => exact .await w
  | yieldTurn => exact .yieldTurn
  | bind _ _ hm hf => exact .bind hm hf
  | ensuring _ hstep hm => exact .ensuring hm hstep
  | modifyGet hstep => exact .modifyGet hstep
  | call callee args span => exact .call callee args span

/-- What is computed further from an answer. -/
@[grind ←] theorem map {m : Eval α} (f : α → β) (hm : Quiet E c m) : Quiet E c (f <$> m) :=
  bind hm fun a => pure (f a)

/-- An answer that nobody looks at. -/
@[grind ←] theorem discard {m : Eval α} (hm : Quiet E c m) : Quiet E c (Functor.discard m) :=
  map _ hm

/-- Over a list, with the answers. -/
@[grind ←] theorem mapList {f : α → Eval β} (hf : ∀ a, Quiet E c (f a)) :
    ∀ as, Quiet E c (Eval.mapList f as)
  | [] => pure []
  | a :: rest => bind (hf a) fun _ => bind (mapList hf rest) fun _ => pure _

/-- Over a list, without them. -/
@[grind ←] theorem forList {f : α → Eval Unit} (hf : ∀ a, Quiet E c (f a)) :
    ∀ as, Quiet E c (Eval.forList f as)
  | [] => pure ()
  | a :: rest => bind (hf a) fun _ => forList hf rest

/-- A quiet step without an answer. -/
@[grind ←] theorem modify {f : State → State} (hf : ∀ s, QuietStep s (f s)) :
    Quiet E c (Eval.modify f) :=
  modifyGet (f := fun s => ((), f s)) hf

end Quiet

/-! ### Data -/

/-- Printing. -/
@[grind ←] theorem print_quiet (text : String) : Quiet E c (print text) := by
  grind [print]

/-- A new array. -/
@[grind ←] theorem newArray_quiet (items : Array Value) : Quiet E c (newArray items) := by
  grind [newArray]

/-- A new array of the items of a list. -/
@[grind ←] theorem newArrayOf_quiet (items : List Value) : Quiet E c (newArrayOf items) :=
  newArray_quiet _

/-- A new tuple. -/
@[grind ←] theorem newTuple_quiet (items : Array Value) : Quiet E c (newTuple items) := by
  grind [newTuple]

/-- A new hash. -/
@[grind ←] theorem newHash_quiet (entries : Assoc Key Value) : Quiet E c (newHash entries) := by
  grind [newHash]

/-- A new list. -/
@[grind ←] theorem newList_quiet (items : Array Value) : Quiet E c (newList items) := by
  grind [newList]

/-- The items of an array are read. -/
@[grind ←] theorem arrayItems_quiet (r : Ref .array) : Quiet E c (arrayItems r) := .gets _

/-- Those of a tuple. -/
@[grind ←] theorem tupleItems_quiet (r : Ref .tuple) : Quiet E c (tupleItems r) := .gets _

/-- Those of a list. -/
@[grind ←] theorem listItems_quiet (r : Ref .list) : Quiet E c (listItems r) := .gets _

/-- The entries of a hash are read. -/
@[grind ←] theorem hashEntries_quiet (r : Ref .hash) : Quiet E c (hashEntries r) := .gets _

/-- The items of an array change. -/
@[grind ←] theorem modifyArray_quiet (r : Ref .array) (f : Array Value → Array Value) :
    Quiet E c (modifyArray r f) := by
  grind [modifyArray]

/-- Those of a list. -/
@[grind ←] theorem modifyList_quiet (r : Ref .list) (f : Array Value → Array Value) :
    Quiet E c (modifyList r f) := by
  grind [modifyList]

/-- The entries of a hash change. -/
@[grind ←] theorem modifyHash_quiet (r : Ref .hash) (f : Assoc Key Value → Assoc Key Value) :
    Quiet E c (modifyHash r f) := by
  grind [modifyHash]

end Eval

end ScriptEngine
