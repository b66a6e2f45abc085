import Mathlib.Logic.Relation
import ScriptEngine.Proofs.Run.Calls
import ScriptEngine.Proofs.Run.Statements
import ScriptEngine.Proofs.Scopes
import ScriptEngine.Proofs.TaskStacks

/-!
# The steps of a task among others

The second reading of `Eval.Built`, for runs that wait. Between two waits a run takes steps of its
own, and while it waits the other tasks take theirs, so what it does is told stretch by stretch:
`Run.Along R rely s r` says that every stretch of `r` is in `R`, provided that what happens
during its waits is in `rely`.

The stretches of an evaluation consist of steps for the tasks it acts for (`Step T`). They change
the scopes by operations on the tree only, and push, pop and edit frames of tasks in `T` only. An
evaluation acts for the task of its scope, and through packaged methods for the tasks of the
scopes these were packaged in; so `T` has to contain them all (`State.Ready`). Of the others it is
relied on that they leave the tasks of scopes alone and package methods for tasks in `T` only
(`Others`).

`Engine.level_acts`: every activity of every level goes by such steps.
-/

namespace ScriptEngine

/-! ### Runs, stretch by stretch -/

namespace Run

variable {α β : Type} {R rely : State → State → Prop}

/-- Every stretch of a run is in `R`, provided that what happens during its waits is in `rely`. -/
inductive Along {α : Type} (R rely : State → State → Prop) : State → Run α → Prop
  | done {s t : State} {a : α} : R s t → Along R rely s (.done a t)
  | stop {s t : State} {why : Stop} : R s t → Along R rely s (.stop why t)
  | wait {s t : State} {w : Wait} {resume : Answer → State → Run α} : R s t →
      (∀ a u, rely t u → Along R rely u (resume a u)) → Along R rely s (.wait w t resume)

/-- Stretches in `R` can be put together, and what is in `R` may also be done by the others. -/
class Guarantees (R rely : State → State → Prop) : Prop where
  refl (s : State) : R s s
  trans {s t u : State} : R s t → R t u → R s u
  relied {s t : State} : R s t → rely s t
  rely_trans {s t u : State} : rely s t → rely t u → rely s u

/-- Where nothing has happened, the others have done nothing. -/
theorem Guarantees.rely_refl (R : State → State → Prop) [Guarantees R rely] (s : State) :
    rely s s :=
  have h : R s s := refl rely s
  relied h

namespace Along

/-- What is done before a run belongs to its first stretch. -/
theorem after [Guarantees R rely] {s t : State} {r : Run α} (hst : R s t)
    (h : r.Along R rely t) : r.Along R rely s := by
  cases h with
  | done h => exact .done (Guarantees.trans rely hst h)
  | stop h => exact .stop (Guarantees.trans rely hst h)
  | wait h hr => exact .wait (Guarantees.trans rely hst h) hr

/-- One run after another: the second one begins in the stretch in which the first ends. -/
theorem andThen [Guarantees R rely] {s : State} {r : Run α} {f : α → State → Run β}
    (h : r.Along R rely s) (hf : ∀ a t, rely s t → (f a t).Along R rely t) :
    (r.andThen f).Along R rely s := by
  -- by induction on the waits of the first run; what has led to the second one is what the others
  -- may do
  induction h with
  | done hst => exact after hst (hf _ _ (Guarantees.relied hst))
  | stop hst => exact .stop hst
  | wait hst _ ih =>
    refine .wait hst fun a u hu => ih a u hu fun b v hv => hf b v ?_
    exact Guarantees.rely_trans R (Guarantees.rely_trans R (Guarantees.relied hst) hu) hv

/-- A run goes on after a fault as it does after a value, unless the host has cut it off. -/
theorem settle [Guarantees R rely] {s : State} {r : Run α} {f : Except Fault α → State → Run β}
    (h : r.Along R rely s) (hf : ∀ a t, rely s t → (f a t).Along R rely t) :
    (r.settle f).Along R rely s := by
  induction h with
  | done hst => exact after hst (hf _ _ (Guarantees.relied hst))
  -- only a fault is caught
  | @stop _ _ why hst =>
    cases why with
    | fault e => exact after hst (hf _ _ (Guarantees.relied hst))
    | abort message => exact .stop hst
    | exhausted => exact .stop hst
  | wait hst _ ih =>
    refine .wait hst fun a u hu => ih a u hu fun b v hv => hf b v ?_
    exact Guarantees.rely_trans R (Guarantees.rely_trans R (Guarantees.relied hst) hu) hv

/-- What is done at the end, however the run ends, belongs to the last stretch. -/
theorem ensuring [Guarantees R rely] {s : State} {r : Run α} {f : State → State}
    (h : r.Along R rely s) (hf : ∀ s, R s (f s)) : (r.ensuring f).Along R rely s := by
  induction h with
  | done hst => exact .done (Guarantees.trans rely hst (hf _))
  | stop hst => exact .stop (Guarantees.trans rely hst (hf _))
  | wait hst _ ih => exact .wait hst ih

/-- Whatever a run ends with, the others may have done it, too. -/
theorem relied [Guarantees R rely] {s t : State} {r : Run α} {o : Except Fault α}
    (h : r.Along R rely s) (ho : r.EndsAmid rely o t) : rely s t := by
  induction ho generalizing s with
  | done a t =>
    cases h with
    | done hst => exact Guarantees.relied hst
  | fault f t =>
    cases h with
    | stop hst => exact Guarantees.relied hst
  -- the stretch before the wait, the wait and what comes behind it
  | wait hu _ ih =>
    cases h with
    | wait hst hr =>
      exact Guarantees.rely_trans R (Guarantees.rely_trans R (Guarantees.relied hst) hu)
        (ih (hr _ _ hu))

/-- What holds at first, and is kept by every stretch and by the others, holds at the end of
every stretch. -/
theorem always {I : State → Prop} (hR : ∀ {s t}, I s → R s t → I t)
    (hrely : ∀ {s t}, I s → rely s t → I t) {s : State} {r : Run α} (h : r.Along R rely s)
    (hs : I s) : r.Along (fun s t => R s t ∧ I t) rely s := by
  induction h with
  | done h => exact .done ⟨h, hR hs h⟩
  | stop h => exact .stop ⟨h, hR hs h⟩
  | wait h _ ih => exact .wait ⟨h, hR hs h⟩ fun a u hu => ih a u hu (hrely (hR hs h) hu)

/-- More may be allowed to a run, and less to the others. -/
theorem mono {R' rely' : State → State → Prop} (hR : ∀ {s t}, R s t → R' s t)
    (hrely : ∀ {s t}, rely' s t → rely s t) {s : State} {r : Run α} (h : r.Along R rely s) :
    r.Along R' rely' s := by
  induction h with
  | done h => exact .done (hR h)
  | stop h => exact .stop (hR h)
  | wait h _ ih => exact .wait (hR h) fun a u hu => ih a u (hrely hu)

/-- What is known of a run in two respects is known of it in both. -/
theorem and {R' rely' : State → State → Prop} {s : State} {r : Run α} (h : r.Along R rely s)
    (h' : r.Along R' rely' s) :
    r.Along (fun s t => R s t ∧ R' s t) (fun s t => rely s t ∧ rely' s t) s := by
  induction h with
  | done h =>
    cases h' with
    | done h' => exact .done ⟨h, h'⟩
  | stop h =>
    cases h' with
    | stop h' => exact .stop ⟨h, h'⟩
  | wait h _ ih =>
    cases h' with
    | wait h' hr' => exact .wait ⟨h, h'⟩ fun a u hu => ih a u hu.1 (hr' a u hu.2)

end Along

end Run

namespace Eval

variable {α β : Type} {R rely : State → State → Prop} {s : State}

/-- One computation after another, of which the second is known after what the first may have done. -/
theorem bind_along [Run.Guarantees R rely] {m : Eval α} {f : α → Eval β}
    (h : (m s).Along R rely s) (hf : ∀ a t, rely s t → (f a t).Along R rely t) :
    ((m >>= f) s).Along R rely s := by
  rw [bind_apply]
  exact h.andThen hf

/-- An attempt has the stretches of what is attempted. -/
theorem attempt_along [Run.Guarantees R rely] {m : Eval α} (h : (m s).Along R rely s) :
    (attempt m s).Along R rely s := by
  rw [attempt_apply]
  exact h.settle fun r t _ => .done (Run.Guarantees.refl rely t)

end Eval

/-! ### Who acts -/

/-- The scope acts for a task in `T`, whatever becomes of the tree. -/
def ScopeTree.ServedBy (T : Nat → Prop) (t : ScopeTree) (c : Ref .scope) : Prop :=
  ∀ u, t.Extends u → T (u.task c)

namespace ScopeTree.ServedBy

variable {T : Nat → Prop} {t u : ScopeTree} {c : Ref .scope}

/-- A scope that is there acts for its task for ever. -/
theorem of_isSome (hc : (t.node? c).isSome) (hT : T (t.task c)) : t.ServedBy T c := by
  intro u hu
  rw [hu.task_eq hc]
  exact hT

/-- The scope acts for a task in `T` now. -/
theorem task (h : t.ServedBy T c) : T (t.task c) := h t (.refl t)

/-- It does so in every tree to come. -/
theorem of_extends (h : t.ServedBy T c) (hu : t.Extends u) : u.ServedBy T c :=
  fun v hv => h v (hu.trans hv)

end ScopeTree.ServedBy

namespace State

/-- The methods that have been packaged were packaged in scopes of tasks in `T`. -/
def PackagedFor (T : Nat → Prop) (s : State) : Prop :=
  ∀ r b, s.heap.bounds.get? r = some b → s.scopes.ServedBy T b.scope

/-- What is evaluated in the scope acts for tasks in `T`. -/
structure Ready (T : Nat → Prop) (c : Ref .scope) (s : State) : Prop where
  served : s.scopes.ServedBy T c
  packaged : s.PackagedFor T

end State

/-! ### Steps -/

/-- A step for tasks in `T`. -/
inductive Step (T : Nat → Prop) : State → State → Prop
  /-- Everything but scopes, frames and packaged methods may change. -/
  | apart {s t : State} : t.scopes = s.scopes → t.stack = s.stack →
      t.heap.bounds = s.heap.bounds → Step T s t
  | scopes (s : State) (op : ScopeTree.Op) : Step T s { s with scopes := op.run s.scopes }
  /-- A method is packaged in a scope that acts for a task in `T`. -/
  | packaged {s : State} {b : Bound} : s.scopes.ServedBy T b.scope →
      Step T s { s with heap := { s.heap with bounds := (s.heap.bounds.add b).2 } }
  | push (s : State) {f : Frame} : T f.task → Step T s { s with stack := s.stack.push f }
  | pop {s : State} {task : Nat} {f : Frame} {k : CallStack} : T task →
      s.stack.pop task = some (f, k) → Step T s { s with stack := k }
  | edit {s : State} {task : Nat} {g : Frame → Frame} {k : CallStack} : T task →
      (∀ f, (g f).task = f.task) → s.stack.edit task g = some k → Step T s { s with stack := k }

/-- Steps for tasks in `T`. -/
abbrev Steps (T : Nat → Prop) : State → State → Prop := Relation.ReflTransGen (Step T)

/-- What the other tasks may do to the scopes and to the packaged methods. -/
structure Others (T : Nat → Prop) (s t : State) : Prop where
  scopes : s.scopes.Extends t.scopes
  packaged : s.PackagedFor T → t.PackagedFor T

variable {T : Nat → Prop} {s t u : State}

namespace Others

/-- The others may do nothing. -/
theorem refl (s : State) : Others T s s := ⟨.refl _, id⟩

/-- What the others do twice, they may do. -/
theorem trans (h : Others T s t) (h' : Others T t u) : Others T s u :=
  ⟨h.scopes.trans h'.scopes, h'.packaged ∘ h.packaged⟩

/-- The others may add to the tree, if they package nothing. -/
theorem of_extends (h : s.scopes.Extends t.scopes) (hb : t.heap.bounds = s.heap.bounds) :
    Others T s t :=
  ⟨h, fun hs r b hr => (hs r b (hb ▸ hr)).of_extends h⟩

/-- A scope that acts for tasks in `T` does so after what the others do. -/
theorem ready {c : Ref .scope} (h : Others T s t) (hs : s.Ready T c) : t.Ready T c :=
  ⟨hs.served.of_extends h.scopes, h.packaged hs.packaged⟩

end Others

namespace Step

/-- A step changes the scopes by operations on the tree. -/
theorem develops (h : Step T s t) : s.scopes.Develops t.scopes := by
  cases h with
  | apart hscopes => exact ⟨[], hscopes⟩
  | scopes op => exact .of_op op _
  | packaged | push | pop | edit => exact .refl _

/-- A step of one task is a step of another for every task. -/
theorem others (h : Step T s t) : Others T s t := by
  refine ⟨h.develops.extends, fun hs r b hr => ?_⟩
  suffices hb : s.scopes.ServedBy T b.scope from hb.of_extends h.develops.extends
  cases h with
  | apart hscopes hstack hbounds => exact hs r b (hbounds ▸ hr)
  | packaged hserved =>
    -- the method is one that was there, or the new one
    simp only [Table.get?, Table.add, Array.getElem?_push] at hr
    split at hr
    · cases hr
      exact hserved
    · exact hs r b hr
  | scopes | push | pop | edit => exact hs r b hr

/-- A step leaves the frames of all other tasks as they are. -/
theorem ofTask_eq (h : Step T s t) {other : Nat} (hother : ¬ T other) :
    t.stack.ofTask other = s.stack.ofTask other := by
  have hne : ∀ {task}, T task → task ≠ other := fun hT he => hother (he ▸ hT)
  cases h with
  | apart _ hstack => rw [hstack]
  | scopes | packaged => rfl
  | push hT => exact CallStack.ofTask_push_of_ne _ (hne hT)
  | pop hT hk => exact CallStack.ofTask_of_pop_of_ne hk (hne hT)
  | edit hT hg hk => exact CallStack.ofTask_of_edit_of_ne hg hk (hne hT)

end Step

namespace Steps

/-- Many steps of one task are what another one may see. -/
theorem others (h : Steps T s t) : Others T s t := by
  induction h with
  | refl => exact .refl s
  | tail _ hstep ih => exact ih.trans hstep.others

/-- Many steps change the scopes by operations on the tree. -/
theorem develops (h : Steps T s t) : s.scopes.Develops t.scopes := by
  induction h with
  | refl => exact .refl _
  | tail _ hstep ih => exact ih.trans hstep.develops

/-- Many steps leave the frames of all other tasks as they are. -/
theorem ofTask_eq (h : Steps T s t) {other : Nat} (hother : ¬ T other) :
    t.stack.ofTask other = s.stack.ofTask other := by
  induction h with
  | refl => rfl
  | tail _ hstep ih => rw [hstep.ofTask_eq hother, ih]

end Steps

/-! ### Courses -/

/-- A run goes by steps for tasks in `T`, whatever the others do while it waits. -/
abbrev Run.Course {α : Type} (T : Nat → Prop) : State → Run α → Prop :=
  Run.Along (Steps T) (Others T)

instance : Run.Guarantees (Steps T) (Others T) where
  refl _ := .refl
  trans := Relation.ReflTransGen.trans
  relied h := h.others
  rely_trans := Others.trans

namespace Eval

variable {α β : Type} {c : Ref .scope}

/-- Writing to a name is an operation on the tree, and a fault where that is refused. -/
theorem writeName_apply (scope : Ref .scope) (name : String) (f : Scope → Scope) (span : Span)
    (s : State) : writeName scope name f span s =
      match s.scopes.write scope name f with
      | .ok t => .done () { s with scopes := t }
      | .error e => .stop (.fault ⟨.constant e.name, span⟩) s := by
  unfold writeName ScopeTree.write
  split <;> rfl

/-- Wherever it starts, the computation goes by steps for tasks in `T`, provided that those are
the tasks which the scope acts for. -/
def Acts (T : Nat → Prop) (c : Ref .scope) (m : Eval α) : Prop :=
  ∀ s : State, s.Ready T c → (m s).Course T s

namespace Acts

/-- A value at once is a stretch in which nothing happens. -/
theorem pure (a : α) : Acts T c (Pure.pure a : Eval α) := fun _ _ => .done .refl

/-- So is a fault at once. -/
theorem raise (f : Fault) : Acts T c (Eval.raise f : Eval α) := fun _ _ => .stop .refl

/-- So is reading the state. -/
theorem gets (f : State → α) : Acts T c (Eval.gets f) := fun _ _ => .done .refl

/-- So is a known result. -/
theorem conclude (r : Except Fault α) : Acts T c (Eval.conclude r) := by
  cases r with
  | ok a => exact pure a
  | error f => exact raise f

/-- One computation after the other: the scope acts for tasks in `T` still when the second one
starts. -/
theorem bind {m : Eval α} {f : α → Eval β} (hm : Acts T c m) (hf : ∀ a, Acts T c (f a)) :
    Acts T c (m >>= f) :=
  fun s hs => bind_along (hm s hs) fun a t ht => hf a t (ht.ready hs)

/-- An attempt acts for the same tasks. -/
theorem attempt {m : Eval α} (hm : Acts T c m) : Acts T c (Eval.attempt m) :=
  fun s hs => attempt_along (hm s hs)

/-- A change of data. -/
theorem modifyGet {f : State → α × State} (hf : ∀ s, PlainStep s (f s).2) :
    Acts T c (Eval.modifyGet f) := by
  intro s _
  exact .done (.single (.apart (hf s).scopes (hf s).stack (hf s).bounds))

/-- A change that touches neither the scopes nor the frames nor the packaged methods. -/
theorem modify {f : State → State} (hscopes : ∀ s, (f s).scopes = s.scopes)
    (hstack : ∀ s, (f s).stack = s.stack)
    (hbounds : ∀ s, (f s).heap.bounds = s.heap.bounds) : Acts T c (Eval.modify f) :=
  fun s _ => .done (.single (.apart (hscopes s) (hstack s) (hbounds s)))

/-- A notice is told to the listener, which is apart from scopes and frames. -/
theorem notify (e : Notice) : Acts T c (Eval.notify e) := by
  refine .modify (fun s => ?_) (fun s => ?_) (fun s => ?_) <;> split <;> rfl

/-- A turn is handed on by a wait, or not at all. -/
theorem yieldTurn : Acts T c Eval.yieldTurn := by
  intro s _
  unfold Eval.yieldTurn
  split
  · exact .wait .refl fun _ _ _ => .done .refl
  · exact .done .refl

/-- The scope that packages a method is the acting one. -/
theorem newBound (receiver : Value) (method : String) (span : Span) :
    Acts T c (Eval.newBound receiver method c span) :=
  fun _ hs => .done (.single (.packaged hs.served))

/-! ### Names and scopes -/

/-- A name is written by an operation on the tree, or it is refused. -/
theorem writeName {scope : Ref .scope} {name : String} {f : Scope → Scope} (span : Span)
    (hf : NameWrite name f) : Acts T c (Eval.writeName scope name f span) := by
  intro s _
  rw [writeName_apply]
  cases hw : s.scopes.write scope name f with
  | error e => exact .stop .refl
  | ok t =>
    -- both ways of writing are operations that the tree has
    have hop : ∃ op : ScopeTree.Op, op.apply s.scopes = .ok t := by
      cases hf with
      | bind v => exact ⟨.set scope name v, hw⟩
      | bindConst v => exact ⟨.setConst scope name v, hw⟩
    obtain ⟨op, hop⟩ := hop
    rw [← ScopeTree.Op.run_of_ok hop]
    exact .done (.single (.scopes s op))

/-- A variable is written where it is bound. -/
theorem rebindName (scope : Ref .scope) (name : String) (v : Value) (span : Span) :
    Acts T c (Eval.rebindName scope name v span) := by
  intro s hs
  rw [Eval.rebindName, gets_bind_apply]
  exact writeName span (.bind v) s hs

/-- The receiver of a method is bound under its two names. -/
theorem bindReceiver (scope : Ref .scope) (receiver : Value) (span : Span) :
    Acts T c (Eval.bindReceiver scope receiver span) :=
  bind (writeName span (.bind receiver)) fun _ => writeName span (.bind receiver)

end Acts

/-- A new scope is a step. -/
theorem step_withScope (s : State) (parent : Option (Ref .scope)) (task : Nat)
    (owner : Option (Ref .classDef)) :
    Step T s (s.withScope (.fresh parent task owner)) :=
  .scopes s (.child parent task owner)

/-- A new scope acts for the task that it was opened for. -/
theorem ready_newScope {n : Scope} (hs : s.PackagedFor T) (hn : T n.task) :
    (s.withScope n).Ready T s.newScope := by
  refine ⟨.of_isSome (by simp [State.withScope, State.newScope]) (by simpa using hn), ?_⟩
  exact fun r b hr => (hs r b hr).of_extends (s.scopes.extends_add n)

namespace Acts

/-- Work in a new scope of the same task. -/
theorem within {m : Eval (Ref .scope)} (hm : Opens (·.scopes.task c) m)
    {f : Ref .scope → Eval α} (hf : ∀ inner, Acts T inner (f inner)) : Acts T c (m >>= f) := by
  intro s hs
  obtain ⟨parent, owner, hopen⟩ := hm s
  rw [bind_apply, hopen]
  refine .after (.single (step_withScope s parent (s.scopes.task c) owner)) ?_
  exact hf s.newScope _ (ready_newScope hs.packaged hs.served.task)

end Acts

end Eval

open Eval

variable {E : Engine} {c : Ref .scope} {α : Type}

/-- The activities of an engine act for the tasks of their scopes. -/
structure Engine.Acts (T : Nat → Prop) (E : Engine) : Prop where
  expr (scope : Ref .scope) (e : Expr) : Eval.Acts T scope (E.expr scope e)
  stmt (scope : Ref .scope) (stmt : Stmt) : Eval.Acts T scope (E.stmt scope stmt)
  call (scope : Ref .scope) (callee : Value) (args : List Value) (span : Span) :
    Eval.Acts T scope (E.call scope callee args span)
  invoke (scope : Ref .scope) (receiver : Value) (name : String) (args : List Value)
    (span : Span) : Eval.Acts T scope (E.invoke scope receiver name args span)
  cycle (scope : Ref .scope) (condition : Expr) (body : List Stmt) :
    Eval.Acts T scope (E.cycle scope condition body)
  drain (scope : Ref .scope) (vars : LoopVars) (r : Ref .channel) (index : Nat)
    (body : List Stmt) : Eval.Acts T scope (E.drain scope vars r index body)

/-! ### Calls -/

namespace Function

variable {caller : Ref .scope} {f : Closure} {args : List Value} {span : Span}

/-- The calls that were deferred act for the caller, one after the other. -/
theorem runDeferred_acts (hE : E.Acts T) (ds : List Deferred) (body : Except Fault Value) :
    Acts T c (runDeferred E c ds body) := by
  induction ds generalizing body with
  | nil => exact .pure body
  | cons d ds ih =>
    rw [runDeferred_cons]
    exact .bind (.attempt (hE.call c d.callee d.args d.span)) fun r => ih _

/-- A call gets to its body by steps of the caller's task: its scope is opened, the receiver is
bound there and the frame is pushed. -/
theorem steps_entry (binding : Binding) (hs : s.Ready T caller) :
    Steps T s (entry f caller span binding s) := by
  have hopen : Steps T s (s.withScope (.fresh (some f.scope) (s.scopes.task caller)
      binding.owner)) := .single (step_withScope s ..)
  have hscope : Steps T s (s.withScope (callScope f caller binding s)) := by
    unfold callScope
    cases binding.receiver with
    -- the receiver is bound in the new scope, before the frame is pushed
    | none => exact hopen
    | some v =>
      have hbind := Acts.bindReceiver s.newScope v span _ (hopen.others.ready hs)
      rw [bindReceiver_newScope] at hbind
      cases hbind with
      | done h => exact hopen.trans h
  have hpush := Step.push (T := T) (s.withScope (callScope f caller binding s))
    (f := frameOf f caller span s) hs.served.task
  refine (hscope.tail hpush).tail (.apart ?_ ?_ ?_)
  · simp [entry]
  · simp [entry]
  · simp only [entry, State.entered, State.notified]
    split <;> rfl

/-- The scope of the call acts for the caller's task. -/
theorem ready_entry (binding : Binding) (hs : s.Ready T caller) :
    (entry f caller span binding s).Ready T s.newScope := by
  have hentry : Steps T s (entry f caller span binding s) := steps_entry binding hs
  refine ⟨.of_isSome ?_ ?_, (hentry.others.ready hs).packaged⟩
  · simp [entry, State.withScope, State.newScope]
  · simpa [entry] using hs.served.task

/-- The frame that comes down is one of the scope's task. -/
theorem popFrame_acts : Acts T c (popFrame c) := by
  intro s hs
  rw [popFrame_apply, lowered]
  cases hk : s.stack.pop (s.scopes.task c) with
  | none => exact .done .refl
  | some found => exact .done (.single (.pop hs.served.task hk))

/-- The body acts for the new scope, and the deferred calls for the caller's. -/
theorem run_acts (hE : E.Acts T) (binding : Binding)
    (hbody : ∀ inner, Acts T inner (runBody E inner f args span)) :
    Acts T caller (run E caller f args span binding) := by
  intro s hs
  rw [run_apply]
  cases refusal? f args caller span s with
  | some e => exact .stop .refl
  | none =>
    have hentry : Steps T s (entry f caller span binding s) := steps_entry binding hs
    have hcaller := hentry.others.ready hs
    have hinner : (entry f caller span binding s).Ready T s.newScope := ready_entry binding hs
    refine .after hentry ?_
    -- the body acts for the scope of the call; its frame comes down, and the rest acts for the
    -- caller
    refine bind_along (attempt_along (hbody s.newScope _ hinner)) fun body t ht => ?_
    -- the caller's scope was there before, so it acts for the same tasks still
    refine bind_along (popFrame_acts t (ht.ready hinner)) fun deferred u hu => ?_
    have hu := (ht.trans hu).ready hcaller
    refine Acts.bind (runDeferred_acts hE deferred body) (fun result => ?_) u hu
    exact .bind (.notify _) fun _ => .conclude result

end Function

/-! ### Calls that happen later -/

namespace Capture

variable {e : Expr} {span : Span}

/-- The frame that a call is deferred on is one of the acting task. -/
theorem defer_acts (hc : Acts T c (callable E c e .badDefer span)) :
    Acts T c (defer E c e span) := by
  intro s hs
  rw [defer, gets_bind_apply, gets_bind_apply]
  split
  · exact .stop .refl
  · refine bind_along (hc s hs) fun ⟨callee, args⟩ t _ => ?_
    simp only [gets_bind_apply]
    -- whether the frame to which the call is deferred is still there
    generalize hk : t.stack.edit _ _ = k
    cases k with
    | some k =>
      refine .done (.single (.edit hs.served.task ?_ hk))
      exact fun _ => rfl
    | none => exact .stop .refl

/-- The scope of a new task is opened; nothing acts for it yet. -/
theorem spawn_acts (hc : Acts T c (callable E c e .badSpawn span)) :
    Acts T c (spawn E c e span) := by
  refine .bind hc fun ⟨callee, args⟩ s _ => ?_
  simp only [taskScope, modifyGet_bind_apply, modify_bind_apply]
  refine .done (.tail (.single (step_withScope s (some c) s.nextTask none)) (.apart ?_ ?_ ?_)) <;>
    rfl

end Capture

/-! ### Imports -/

namespace Import

variable {path : String} {span : Span}

/-- A package is evaluated for the task that imports it. -/
theorem evaluate_acts (loader : Loader)
    (hp : ∀ inner program, Acts T inner (E.program inner program)) :
    Acts T c (evaluate E c loader path span) := by
  unfold evaluate
  split
  · exact .raise _
  · refine .within (rootScope_opens c) fun inner => ?_
    refine .bind (.attempt (hp inner _)) fun result => ?_
    split
    · exact fun _ _ => .done (.single (.apart rfl rfl rfl))
    · split <;> exact .raise _

/-- A module is evaluated while it is on the list of those in progress, which is apart from scopes
and frames. -/
theorem resolve_acts (hp : ∀ inner program, Acts T inner (E.program inner program)) :
    Acts T c (resolve E c path span) := by
  refine .bind (.gets _) fun packages => ?_
  split
  · exact .raise _
  · next loader _ =>
    split
    · exact .pure _
    · split
      · exact .raise _
      · refine .bind (.modify (fun _ => rfl) (fun _ => rfl) fun _ => rfl) fun _ s hs => ?_
        exact (evaluate_acts loader hp s hs).ensuring fun t => .single (.apart rfl rfl rfl)

end Import

/-! ### Levels -/

/-- **What is built from activities for tasks in `T` acts for tasks in `T`.** -/
theorem Eval.Built.acts (hE : E.Acts T) {x : Site} {m : Eval α} {K : Knowledge}
    (h : Built E K x c m) :
    Acts T c m := by
  -- one case a constructor; scopes, frames and packaged methods are touched in the named lemmas
  -- only
  induction h with
  | pure a => exact .pure a
  | raise f => exact .raise f
  | abort message => exact fun _ _ => .stop .refl
  | gets f => exact .gets f
  | await w => exact fun _ _ => .wait .refl fun _ _ _ => .done .refl
  | yieldTurn => exact .yieldTurn
  | bind _ _ ihm ihf => exact .bind ihm ihf
  | knowing _ _ _ ihm ihf => exact .bind ihm ihf
  | attempt _ ih => exact .attempt ih
  | ensuring _ hf ih =>
    exact fun s hs => (ih s hs).ensuring fun t =>
      .single (.apart (hf t).scopes (hf t).stack (hf t).bounds)
  | modifyGet hf => exact .modifyGet fun s => (hf s).toPlainStep
  | change hf _ => exact .modifyGet hf
  | newBound receiver method span => exact .newBound receiver method span
  | statement line => exact .notify _
  | writeName span _ hf => exact .writeName span hf
  | rebindName name v span _ => exact .rebindName _ name v span
  | within hm _ ih => exact .within hm ih
  | block hm _ ih => exact .within hm ih
  | run _ _ ih => exact Function.run_acts hE _ fun inner => ih inner _ _
  | method _ _ _ _ ihchecks ih =>
    -- the checks come first, then the call
    exact .bind ihchecks fun _ => Function.run_acts hE _ fun inner => ih inner _ _
  | resolve _ ih => exact Import.resolve_acts ih
  | defer _ ih => exact Capture.defer_acts ih
  | spawn _ ih => exact Capture.spawn_acts ih
  | @packaged _ _ _ _ r _ _ _ ihnone ihsome =>
    intro s hs
    rw [gets_bind_apply]
    -- a packaged method is called in the scope that packaged it, which acts for tasks in `T`, as
    -- all do
    cases hb : s.heap.bounds.get? r with
    | none => exact ihnone s hs
    | some b => exact ihsome b s ⟨hs.packaged r b hb, hs.packaged⟩
  | expr e _ => exact hE.expr _ e
  | stmt stmt => exact hE.stmt _ stmt
  | call callee args span => exact hE.call _ callee args span
  | invoke receiver name args span => exact hE.invoke _ receiver name args span
  | cycle condition body => exact hE.cycle _ condition body
  | drain vars r index body => exact hE.drain _ vars r index body

/-- An engine of no level does nothing. -/
theorem Engine.idle_acts : Engine.idle.Acts T where
  expr _ _ _ _ := .stop .refl
  stmt _ _ _ _ := .stop .refl
  call _ _ _ _ _ _ := .stop .refl
  invoke _ _ _ _ _ _ _ := .stop .refl
  cycle _ _ _ _ _ := .stop .refl
  drain _ _ _ _ _ _ _ := .stop .refl

/-- **Whatever an engine of any level evaluates, it takes steps for the tasks it acts for only.** -/
theorem Engine.level_acts : ∀ n, (Engine.level n).Acts T
  -- by induction on the level: the activities of a level are built from those of the one below
  | 0 => idle_acts
  | n + 1 =>
    have hn := level_acts n
    { expr := fun scope e => (Expr.eval_built (x := .expr scope) rfl e).acts hn
      stmt := fun scope stmt => (Stmt.run_built scope stmt).acts hn
      call := fun scope callee args span =>
        (Dispatch.call_built (x := .away) scope args callee span).acts hn
      invoke := fun scope receiver name args span =>
        (Dispatch.invoke_built (x := .away) scope name args receiver span).acts hn
      cycle := fun scope condition body => (Stmt.cycle_built scope condition body).acts hn
      drain := fun scope vars r index body =>
        (Stmt.drain_built scope vars r index body).acts hn }

/-- What a spawned task does when it starts. -/
theorem Schedule.ofSpawned_acts (d : Spawned) (answer : Answer) :
    Acts T d.scope ((ofSpawned d).resume answer) :=
  (Dispatch.call_built (E := .top) (x := .away) d.scope d.args d.callee d.span).acts
    (Engine.level_acts _)

end ScriptEngine
