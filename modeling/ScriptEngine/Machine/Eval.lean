import ScriptEngine.Machine.State

/-!
# Computations

`Eval α` is a computation over the `State` that may stop for a fault or for a reason of the
host, and that may have to wait: for a lock, a value, a time. A computation that waits says
what for (`Wait`) and how it goes on; the scheduler decides when.
-/

namespace ScriptEngine

/-- Why a computation ended without a result. -/
inductive Stop where
  /-- The program failed. -/
  | fault (f : Fault)
  /-- The host cannot carry on. -/
  | abort (message : String)
  /-- The bound on the number of steps was reached. -/
  | exhausted

/-- What a task waits for. -/
inductive Wait where
  /-- Its next turn. -/
  | turn
  | mutex (r : Ref .mutex)
  | write (r : Ref .rwLock)
  | read (r : Ref .rwLock)
  | wakeup (r : Ref .cond)
  | gate (r : Ref .once)
  | zero (r : Ref .waitGroup)
  /-- That an offer is taken. -/
  | offer (r : Ref .channel) (ticket : Nat)
  | receive (r : Ref .channel)
  | chunkTaken (r : Ref .pipe) (ticket : Nat)
  | chunk (r : Ref .pipe)
  /-- A time on the clock. -/
  | clock (time : Nat)

/-- What a wait ends with. -/
inductive Answer where
  | done
  | first (isFirst : Bool)
  | value (v : Option Value)
  | text (t : Option String)
  | failed (e : Sync.Error)

/-- A computation that has been started. -/
inductive Run (α : Type) where
  | done (a : α) (s : State)
  | stop (why : Stop) (s : State)
  | wait (w : Wait) (s : State) (resume : Answer → State → Run α)

/-- A computation. -/
def Eval (α : Type) : Type := State → Run α

namespace Run

variable {α β : Type}

/-- Goes on with `f` once the run is done. -/
def andThen (f : α → State → Run β) : Run α → Run β
  | .done a s => f a s
  | .stop why s => .stop why s
  | .wait w s resume => .wait w s fun a s => (resume a s).andThen f

/-- Goes on with `f` once the run is done or has failed. -/
def settle (f : Except Fault α → State → Run β) : Run α → Run β
  | .done a s => f (.ok a) s
  | .stop (.fault e) s => f (.error e) s
  | .stop (.abort m) s => .stop (.abort m) s
  | .stop .exhausted s => .stop .exhausted s
  | .wait w s resume => .wait w s fun a s => (resume a s).settle f

/-- Changes the state at the end of the run, whichever end that is. -/
def ensuring (f : State → State) : Run α → Run α
  | .done a s => .done a (f s)
  | .stop why s => .stop why (f s)
  | .wait w s resume => .wait w s fun a s => (resume a s).ensuring f

end Run

namespace Eval

variable {α β : Type}

@[inline] protected def pure (a : α) : Eval α := fun s => .done a s

@[inline] protected def bind (m : Eval α) (f : α → Eval β) : Eval β := fun s =>
  match m s with
  | .done a s => f a s
  | .stop why s => .stop why s
  | .wait w s resume => .wait w s fun a s => (resume a s).andThen f

instance : Monad Eval where
  pure := Eval.pure
  bind := Eval.bind

/-- Ends with a fault. -/
@[inline] def raise (f : Fault) : Eval α := fun s => .stop (.fault f) s

/-- Ends with a cause at a place. -/
@[inline] def fail (cause : Cause) (span : Span) : Eval α := raise ⟨cause, span⟩

/-- Ends for a reason of the host. -/
def abort (message : String) : Eval α := fun s => .stop (.abort message) s

/-- The result, or the fault the computation ends with. -/
@[inline] def attempt (m : Eval α) : Eval (Except Fault α) := fun s =>
  match m s with
  | .done a s => .done (.ok a) s
  | .stop (.fault f) s => .done (.error f) s
  | .stop (.abort message) s => .stop (.abort message) s
  | .stop .exhausted s => .stop .exhausted s
  | .wait w s resume => .wait w s fun a s => (resume a s).settle fun r s => .done r s

/-- Ends as an attempt ended. -/
def conclude : Except Fault α → Eval α
  | .ok a => Eval.pure a
  | .error f => raise f

/-- Changes the state at the end of a computation, whichever end that is. -/
def ensuring (m : Eval α) (f : State → State) : Eval α := fun s => (m s).ensuring f

/-- Waits. -/
def await (w : Wait) : Eval Answer := fun s => .wait w s fun a s => .done a s

/-- A value computed from the state. -/
@[inline] def gets (f : State → α) : Eval α := fun s => .done (f s) s

/-- Changes the state. -/
@[inline] def modify (f : State → State) : Eval Unit := fun s => .done () (f s)

/-- Changes the state and answers with something. -/
@[inline] def modifyGet (f : State → α × State) : Eval α := fun s =>
  match f s with
  | (a, s) => .done a s

/-- A result that may be missing. -/
@[inline] def ofOption (o : Option α) (cause : Cause) (span : Span) : Eval α :=
  match o with
  | some a => Eval.pure a
  | none => fail cause span

/-- Applies a computation to every item, from the left. -/
def mapList (f : α → Eval β) : List α → Eval (List β)
  | [] => Eval.pure []
  | a :: rest => do
    let b ← f a
    let bs ← mapList f rest
    return b :: bs

/-- Runs a computation for every item, from the left. -/
def forList (f : α → Eval Unit) : List α → Eval Unit
  | [] => Eval.pure ()
  | a :: rest => do
    f a
    forList f rest

@[simp] theorem bind_apply (m : Eval α) (f : α → Eval β) (s : State) :
    (m >>= f) s = (m s).andThen f := by
  change Eval.bind m f s = _
  unfold Eval.bind
  cases m s <;> rfl

end Eval

end ScriptEngine
