import ScriptEngine.Proofs.Listener.Notices
import ScriptEngine.Proofs.Run.Watched
import ScriptEngine.Session

/-!
# Calls are nested

Whatever a lone task evaluates, it goes on in the steps of `Listener.Tells`. `Eval.Nests task c m`
says so of a computation that acts for the scope `c`: wherever a run of `m` can be seen, such steps
have led there, and once the run is over, with a value or with a fault, every call that they have
opened is over. It is the fourth reading of `Eval.Built`, and holds of every engine that is watched
(`Engine.watched_nests`). Where the host cuts a run off, calls may be open still.

A call is the only thing that opens one (`Function.run_nests`). Its body runs under the open call,
which makes no difference to it (`Listener.Leads.under`). The frame that comes down after it is that
of the call, since the frames of a task are those of its open calls (`Listener.frames_eq`). Then the
deferred calls are made, in a call that is open without a frame, by induction on how many there are
(`Function.runDeferred_nests`).

With `Listener.reported`, everything that a listener is told of a run is nested, and its depths are
the numbers of frames. The trace of a program in a session is what the listener has been told
(`Session.traces`), as what the scheduler reports of a lone task has been seen of its run. The main
result is `Listener.calls_nest`.
-/

namespace ScriptEngine

open Listener

variable {task : Nat} {α β : Type} {s s₀ t u : State} {c : Ref .scope}

/-! ### What can be seen -/

/-- The listener may have heard more, and nothing of what it was told before is taken back. -/
def State.Hears (s t : State) : Prop := s.events <:+ t.events

instance : IsTrans State State.Hears := ⟨fun _ _ _ => List.IsSuffix.trans⟩

/-- A listener has heard what it has heard. -/
theorem State.Hears.refl (s : State) : s.Hears s := List.suffix_refl _

namespace Listener

/-- A notice is heard if anyone listens, and changes nothing otherwise. -/
theorem hears_notified (s : State) (e : Notice) : s.Hears (s.notified e) := by
  unfold State.Hears State.notified
  split
  · exact List.suffix_cons e s.events
  · exact List.suffix_refl _

/-- Each step of a task is heard or silent. -/
theorem Tells.hears {k k' : Config} {n : Option Notice} (h : Tells task k n k') :
    k.state.Hears k'.state := by
  cases h with
  | quiet hquiet => rw [State.Hears, hquiet.events_eq]
  | statement | finish => exact hears_notified _ _
  | @call s _ f => exact hears_notified { s with stack := s.stack.push f } _
  | lower => exact .refl _

/-- What many steps tell is heard too. -/
theorem Leads.hears {k k' : Config} (h : Leads task k k') : k.state.Hears k'.state := by
  obtain ⟨steps, hsteps⟩ := h
  induction hsteps with
  | nil => exact .refl _
  | cons hstep _ ih => exact trans_of State.Hears hstep.hears ih

/-- How a run ends that began at `s`: the calls that it has opened are over, unless the host has cut
it off. -/
def Ended (task : Nat) (s : State) : Except Stop α → State → Prop
  | .ok _, t => Leads task ⟨s, []⟩ ⟨t, []⟩
  | .error why, t => ∃ opened, Leads task ⟨s, []⟩ ⟨t, opened⟩ ∧ ((∃ f, why = .fault f) → opened = [])

end Listener

/-- What is seen of the run of a lone task, which began at `s₀` and goes on from `s`: wherever it
waits, steps of the task have led there, and it ends with no call open that it has opened. -/
abbrev Run.Nests (task : Nat) (s₀ s : State) (r : Run α) : Prop :=
  r.Throughout State.Hears (fun t => ∃ opened, Leads task ⟨s₀, []⟩ ⟨t, opened⟩) (Ended task s₀) s

namespace Run.Nests

variable {r : Run α} {opened : List OpenCall}

/-- A run that is done where all its calls are over. -/
theorem ofDone (a : α) (h : Leads task ⟨s₀, []⟩ ⟨t, []⟩) : (Run.done a t).Nests task s₀ t :=
  .done (.refl _) h

/-- A fault ends a run as a value does: with its calls over. -/
theorem ofFault (f : Fault) (h : Leads task ⟨s₀, []⟩ ⟨t, []⟩) :
    (Run.stop (.fault f) t : Run α).Nests task s₀ t :=
  .stop (.refl _) ⟨[], h, fun _ => rfl⟩

/-- What comes after something that is over is part of the same. -/
theorem after (hst : Leads task ⟨s₀, []⟩ ⟨s, []⟩) (h : r.Nests task s u) : r.Nests task s₀ u := by
  refine h.mono (fun _ _ => id) (fun t ht => ?_) fun o t ht => ?_
  · obtain ⟨opened, ht⟩ := ht
    exact ⟨opened, hst.trans ht⟩
  -- a value and a fault leave no call open; a run that the host has cut off may do
  · cases o with
    | ok a => exact hst.trans ht
    | error why =>
      obtain ⟨opened, ht, hover⟩ := ht
      exact ⟨opened, hst.trans ht, hover⟩

/-- What is done before a run, and is over there, belongs to it. -/
theorem preceded (hst : Leads task ⟨s, []⟩ ⟨t, []⟩) (h : r.Nests task t t) : r.Nests task s s :=
  Run.Throughout.preceded hst.hears (after hst h)

/-- What goes on from a value does so with no call open. -/
theorem andThen {f : α → State → Run β} (h : r.Nests task s₀ s)
    (hf : ∀ a t, Leads task ⟨s₀, []⟩ ⟨t, []⟩ → (f a t).Nests task s₀ t) :
    (r.andThen f).Nests task s₀ s :=
  Run.Throughout.andThen h hf fun _ _ => id

/-- An attempt can be made while calls are open further out; they are open still when it is over,
however it ends. -/
theorem settle {f : Except Fault α → State → Run β} (hu : Leads task ⟨s₀, []⟩ ⟨u, opened⟩)
    (h : r.Nests task u u)
    (hf : ∀ a t, Leads task ⟨u, []⟩ ⟨t, []⟩ → (f a t).Nests task s₀ t) :
    (r.settle f).Nests task s₀ u := by
  have inside : ∀ {t : State} {inner : List OpenCall}, Leads task ⟨u, []⟩ ⟨t, inner⟩ →
      Leads task ⟨s₀, []⟩ ⟨t, inner ++ opened⟩ := fun ht => hu.trans (ht.under opened)
  have hr : r.Throughout State.Hears (fun t => ∃ opened, Leads task ⟨s₀, []⟩ ⟨t, opened⟩)
      (Ended task u) u := by
    refine h.mono (fun _ _ => id) (fun t ht => ?_) fun _ _ => id
    obtain ⟨inner, ht⟩ := ht
    exact ⟨inner ++ opened, inside ht⟩
  refine hr.settle (fun a t ht => hf (.ok a) t ht) (fun e t ht => ?_) fun why t hwhy ht => ?_
  · obtain ⟨inner, ht, hover⟩ := ht
    obtain rfl := hover ⟨e, rfl⟩
    exact hf (.error e) t ht
  · -- the host has cut it off, and the calls further out with it
    obtain ⟨inner, ht, -⟩ := ht
    exact ⟨inner ++ opened, inside ht, fun ⟨f, hfault⟩ => absurd hfault (hwhy f)⟩

end Run.Nests

/-! ### Quiet steps -/

namespace Listener.Quiet

/-- What a listener knows of a state are its scopes, frames and packaged methods; the rest may
change without a word. -/
theorem apart (hscopes : t.scopes = s.scopes) (hstack : t.stack = s.stack)
    (hbounds : t.heap.bounds = s.heap.bounds) (hevents : t.events = s.events)
    (hlistening : t.listening = s.listening) : Quiet task s t := by
  refine ⟨.of_extends (hscopes ▸ .refl _) hbounds, ?_, hevents, hlistening⟩
  rw [framesOf, framesOf, hstack]

/-- A step that changes other parts of the state is quiet. -/
theorem plain (h : PlainStep s t) : Quiet task s t :=
  .apart h.scopes h.stack h.bounds h.events h.listening

/-- What happens while nothing runs is quiet. -/
theorem idle (h : Idle s t) : Quiet task s t := by
  obtain ⟨_, _, _, rfl⟩ := h
  exact .apart rfl rfl rfl rfl rfl

/-- More scopes are quiet. -/
theorem scopes {tree : ScopeTree} (h : s.scopes.Extends tree) :
    Quiet task s { s with scopes := tree } :=
  ⟨.of_extends h rfl, rfl, rfl, rfl⟩

/-- A new scope is quiet. -/
theorem withScope (s : State) (n : Scope) : Quiet task s (s.withScope n) :=
  .scopes (s.scopes.extends_add n)

/-- A frame to which a call is deferred is still the frame of its function. -/
theorem edit {g : Frame → Frame} {k : CallStack} (h : s.stack.edit task g = some k)
    (htask : ∀ f, (g f).task = f.task) (hfunction : ∀ f, (g f).function = f.function)
    (hspan : ∀ f, (g f).callSpan = f.callSpan) : Quiet task s { s with stack := k } := by
  refine ⟨.of_extends (.refl _) rfl, ?_, rfl, rfl⟩
  obtain ⟨f, outer, hs, hk⟩ := CallStack.ofTask_of_edit htask h
  simp only [framesOf, hs, hk, List.map_cons, hfunction, hspan]

end Listener.Quiet

/-! ### Computations -/

namespace Eval

/-- Wherever it starts, the computation goes on in steps of the task, provided that this is the task
that the scope acts for. -/
def Nests (task : Nat) (c : Ref .scope) (m : Eval α) : Prop :=
  ∀ s : State, s.Ready (· = task) c → (m s).Nests task s s

namespace Nests

/-- A value at once opens no call. -/
theorem pure (a : α) : Nests task c (Pure.pure a : Eval α) := fun _ _ => .ofDone a (.refl _)

/-- A fault at once opens no call. -/
theorem raise (f : Fault) : Nests task c (Eval.raise f : Eval α) := fun _ _ => .ofFault f (.refl _)

/-- The host may cut off a computation before it has begun. -/
theorem stop (why : Stop) : Nests task c (fun s => .stop why s : Eval α) :=
  fun _ _ => .stop (.refl _) ⟨[], .refl _, fun _ => rfl⟩

/-- Reading the state opens no call. -/
theorem gets (f : State → α) : Nests task c (Eval.gets f) := fun _ _ => .ofDone _ (.refl _)

/-- A known result opens no call. -/
theorem conclude (r : Except Fault α) : Nests task c (Eval.conclude r) := by
  cases r with
  | ok a => exact pure a
  | error f => exact raise f

/-- A wait opens no call, and what happens meanwhile is quiet. -/
theorem await (w : Wait) : Nests task c (Eval.await w) := by
  intro s _
  refine .wait (.refl _) ⟨[], .refl _⟩ fun a t hidle => ?_
  exact Run.Nests.ofDone a (Quiet.idle hidle).leads

/-- One computation after the other. -/
theorem bind {m : Eval α} {f : α → Eval β} (hm : Nests task c m) (hf : ∀ a, Nests task c (f a)) :
    Nests task c (m >>= f) := by
  intro s hs
  rw [bind_apply]
  refine (hm s hs).andThen fun a t ht => ?_
  -- the scope acts for the same task after the first part
  exact .after ht (hf a t (ht.others.ready hs))

/-- An attempt that fails has its calls over too. -/
theorem attempt {m : Eval α} (hm : Nests task c m) : Nests task c (Eval.attempt m) := by
  intro s hs
  rw [attempt_apply]
  exact .settle (.refl _) (hm s hs) fun r t ht => .ofDone r ht

/-- A quiet change at the end. -/
theorem ensuring {m : Eval α} {f : State → State} (hm : Nests task c m)
    (hf : ∀ s, Listener.Quiet task s (f s)) : Nests task c (Eval.ensuring m f) := by
  intro s hs
  refine Run.Throughout.ensuring (hm s hs) fun o u t hstep ht => ?_
  have hquiet : Leads task ⟨t, []⟩ ⟨f t, []⟩ := (hf t).leads
  refine ⟨trans_of State.Hears hstep hquiet.hears, ?_⟩
  cases o with
  | ok a => exact ht.trans hquiet
  | error why =>
    -- the change is made at the end of a run that was cut off, too, under the calls that are open
    obtain ⟨opened, ht, hover⟩ := ht
    exact ⟨opened, ht.trans (hf t).leads, hover⟩

/-- A quiet change. -/
theorem modifyGet {f : State → α × State} (hf : ∀ s, Listener.Quiet task s (f s).2) :
    Nests task c (Eval.modifyGet f) :=
  fun s _ => .preceded (hf s).leads (.ofDone _ (.refl _))

/-- A quiet change without an answer. -/
theorem modify {f : State → State} (hf : ∀ s, Listener.Quiet task s (f s)) :
    Nests task c (Eval.modify f) :=
  fun s _ => .preceded (hf s).leads (.ofDone _ (.refl _))

/-- A statement tells of its line and opens no call. -/
theorem statement (line : Nat) : Nests task c (Eval.notify (.statement line)) :=
  fun _ _ => .preceded (.single (.statement line)) (.ofDone _ (.refl _))

/-- A turn that is handed on may be a wait. -/
theorem yieldTurn : Nests task c Eval.yieldTurn := by
  intro s hs
  unfold Eval.yieldTurn
  split
  · exact bind (await _) (fun _ => pure _) s hs
  · exact pure _ s hs

/-- Showing the state to an observer is a wait. -/
theorem reveal (watched : Bool) : Nests task c (Eval.reveal watched) := by
  cases watched with
  | false => exact pure ()
  | true => exact bind (await _) fun _ => pure _

/-- The scope that packages a method is the acting one. -/
theorem newBound (receiver : Value) (method : String) (span : Span) :
    Nests task c (Eval.newBound receiver method c span) := by
  intro s hs
  let b : Bound := ⟨receiver, method, s.typeName receiver ++ "." ++ method, c, span⟩
  have hquiet : Listener.Quiet task s _ := ⟨(Step.packaged (b := b) hs.served).others, rfl, rfl, rfl⟩
  exact .preceded hquiet.leads (.ofDone _ (.refl _))

/-- A name is written into a scope, which is quiet, or refused. -/
theorem writeName {scope : Ref .scope} {name : String} {f : Scope → Scope} (span : Span)
    (hf : NameWrite name f) : Nests task c (Eval.writeName scope name f span) := by
  intro s _
  unfold Eval.writeName
  split
  · exact .ofFault _ (.refl _)
  · have hquiet : Listener.Quiet task s { s with scopes := s.scopes.modify scope f } :=
      .scopes (s.scopes.extends_modify scope hf)
    exact .preceded hquiet.leads (.ofDone _ (.refl _))

/-- Work in a new scope of the same task. -/
theorem within {m : Eval (Ref .scope)} (hm : Opens (·.scopes.task c) m) {f : Ref .scope → Eval α}
    (hf : ∀ inner, Nests task inner (f inner)) : Nests task c (m >>= f) := by
  intro s hs
  obtain ⟨parent, owner, hopen⟩ := hm s
  rw [bind_of_done hopen]
  have hready := ready_newScope (n := .fresh parent (s.scopes.task c) owner) hs.packaged
    hs.served.task
  -- the new scope acts for the task as the one around it does, so the inner work is that of the
  -- task
  exact .preceded (Quiet.withScope s _).leads (hf s.newScope _ hready)

end Nests

end Eval

open Eval

variable {E : Engine}

/-- The activities of an engine go on in steps of the task that their scope acts for. -/
structure Engine.Nests (task : Nat) (E : Engine) : Prop where
  expr (scope : Ref .scope) (e : Expr) : Eval.Nests task scope (E.expr scope e)
  stmt (scope : Ref .scope) (stmt : Stmt) : Eval.Nests task scope (E.stmt scope stmt)
  call (scope : Ref .scope) (callee : Value) (args : List Value) (span : Span) :
    Eval.Nests task scope (E.call scope callee args span)
  invoke (scope : Ref .scope) (receiver : Value) (name : String) (args : List Value)
    (span : Span) : Eval.Nests task scope (E.invoke scope receiver name args span)
  cycle (scope : Ref .scope) (condition : Expr) (body : List Stmt) :
    Eval.Nests task scope (E.cycle scope condition body)
  drain (scope : Ref .scope) (vars : LoopVars) (r : Ref .channel) (index : Nat)
    (body : List Stmt) : Eval.Nests task scope (E.drain scope vars r index body)

/-! ### Calls -/

namespace Function

variable {caller : Ref .scope} {f : Closure} {args : List Value} {span : Span}

/-- The calls that a call has deferred are made while it is open, and are over after that. -/
theorem runDeferred_nests (hE : E.Nests task) {opened : List OpenCall}
    {next : Except Fault Value → State → Run β} (hs : s.Ready (· = task) caller)
    (hnext : ∀ result u, Leads task ⟨s, []⟩ ⟨u, opened⟩ → (next result u).Nests task s u)
    (ds : List Deferred) (body : Except Fault Value) (ht : Leads task ⟨s, []⟩ ⟨t, opened⟩) :
    ((runDeferred E caller ds body t).andThen next).Nests task s t := by
  -- by induction on the calls that are left: each is made with `opened` open further out, and
  -- however it ends, the next one follows
  induction ds generalizing body t with
  | nil => exact hnext body t ht
  | cons d ds ih =>
    rw [runDeferred_cons, attempt_bind_apply, Run.settle_andThen]
    have hready : t.Ready (· = task) caller := ht.others.ready hs
    refine Run.Nests.settle ht (hE.call caller d.callee d.args d.span t hready) fun r u hu => ?_
    exact ih _ (ht.trans (hu.under opened))

/-- The call that a listener is told of when a script function is run. -/
def callInfo (f : Closure) (caller : Ref .scope) (span : Span) (s : State) : CallInfo :=
  ⟨f.name, span, s.stack.depth (s.scopes.task caller) + 1⟩

/-- A call that is not refused is within the bound of frames. -/
theorem depth_lt_of_refusal? (h : refusal? f args caller span s = none) :
    s.stack.depth (s.scopes.task caller) < maxDepth := by
  unfold refusal? at h
  split at h
  · cases h
  · split at h
    · cases h
    · next hdepth => exact Nat.lt_of_not_le hdepth

/-- A call opens where its body starts: its scope is there, and its frame is on the stack. -/
theorem leads_entry (binding : Binding) (hs : s.Ready (· = task) caller)
    (h : refusal? f args caller span s = none) :
    Leads task ⟨s, []⟩ ⟨entry f caller span binding s, [⟨callInfo f caller span s, true⟩]⟩ := by
  have htask : s.scopes.task caller = task := hs.served.task
  have hdepth := depth_lt_of_refusal? h
  rw [htask] at hdepth
  have hscope : Listener.Quiet task s (s.withScope (callScope f caller binding s)) := .withScope s _
  exact hscope.leads.trans (.single (.call (f := frameOf f caller span s) htask hdepth))

/-- What comes down after the body of a call is the frame of the call. -/
theorem leads_lowered {scope : Ref .scope} {info : CallInfo}
    (htask : t.scopes.task scope = task) (h : Leads task ⟨s, []⟩ ⟨t, [⟨info, true⟩]⟩) :
    Leads task ⟨t, [⟨info, true⟩]⟩ ⟨(lowered scope t).2, [⟨info, false⟩]⟩ := by
  have hframes : framesOf task t = (info.function, info.span) :: framesOf task s := frames_eq h
  unfold lowered
  rw [htask]
  cases hpop : t.stack.pop task with
  | none =>
    -- the frame of the call is there, so it can be taken
    rw [framesOf, CallStack.ofTask_of_pop_eq_none hpop, List.map_nil] at hframes
    cases hframes
  | some found =>
    obtain ⟨frame, k⟩ := found
    have htop := (framesOf_of_pop hpop).symm.trans hframes
    obtain ⟨hfunction, hspan⟩ := Prod.mk.inj (List.cons.inj htop).1
    exact .single (.lower hpop hfunction hspan)

/-- **A call is over when it ends,** and so is every call that was made in it. -/
theorem run_nests (hE : E.Nests task) (binding : Binding)
    (hbody : ∀ inner, Eval.Nests task inner (runBody E inner f args span)) :
    Eval.Nests task caller (run E caller f args span binding) := by
  intro s hs
  rw [run_apply]
  cases hrefusal : refusal? f args caller span s with
  | some e => exact .ofFault e (.refl _)
  | none =>
    have hentry := leads_entry binding hs hrefusal
    have hinner : (entry f caller span binding s).Ready (· = task) s.newScope :=
      ready_entry binding hs
    simp only
    rw [attempt_bind_apply]
    refine Run.Throughout.preceded hentry.hears ?_
    refine Run.Nests.settle hentry (hbody s.newScope _ hinner) fun body t ht => ?_
    -- the body is over, so nothing is open but the call, and its frame is on top
    have hdone := hentry.trans (ht.under [⟨callInfo f caller span s, true⟩])
    have hlowered := leads_lowered (ht.others.ready hinner).served.task hdone
    rw [bind_of_done (popFrame_apply _ _), bind_apply]
    refine Run.Throughout.preceded hlowered.hears ?_
    refine runDeferred_nests hE hs (fun result u hu => ?_) _ body (hdone.trans hlowered)
    have hover : Leads task ⟨u, [⟨callInfo f caller span s, false⟩]⟩
        ⟨u.notified (returnEvent f caller span s), []⟩ := .single .finish
    rw [bind_of_done (notify_apply _ _)]
    refine Run.Throughout.preceded hover.hears ?_
    have hu := hu.trans hover
    exact Run.Nests.after hu (Eval.Nests.conclude result _ (hu.others.ready hs))

end Function

/-! ### Calls that happen later -/

namespace Capture

variable {e : Expr} {span : Span}

/-- A call that is deferred changes the frame it waits on, but not whose frame that is. -/
theorem defer_nests (hc : Eval.Nests task c (callable E c e .badDefer span)) :
    Eval.Nests task c (defer E c e span) := by
  intro s hs
  have htask : s.scopes.task c = task := hs.served.task
  rw [defer, gets_bind_apply, gets_bind_apply, htask]
  split
  -- a call is deferred to the frame that is on top when the callee has been found
  · exact .ofFault _ (.refl _)
  · rw [bind_apply]
    refine (hc s hs).andThen fun found t ht => ?_
    obtain ⟨callee, args⟩ := found
    simp only [gets_bind_apply]
    generalize hk : t.stack.edit task _ = k
    cases k with
    | none => exact .ofFault _ ht
    | some k =>
      have hedit : Listener.Quiet task t { t with stack := k } :=
        .edit hk (fun _ => rfl) (fun _ => rfl) fun _ => rfl
      exact .after ht (.preceded hedit.leads (.ofDone _ (.refl _)))

/-- A call that is spawned is not made yet. -/
theorem spawn_nests (hc : Eval.Nests task c (callable E c e .badSpawn span)) :
    Eval.Nests task c (spawn E c e span) := by
  refine .bind hc fun ⟨callee, args⟩ => ?_
  refine .bind (.modifyGet fun s => ?_) fun inner => ?_
  · exact ⟨.of_extends (s.scopes.extends_add _) rfl, rfl, rfl, rfl⟩
  · exact .bind (.modify fun _ => .apart rfl rfl rfl rfl rfl) fun _ => .pure _

end Capture

/-! ### Imports -/

namespace Import

variable {path : String} {span : Span}

/-- A module is evaluated in a scope of its own, under the calls of the task that asks for it. -/
theorem evaluate_nests (loader : Loader)
    (hp : ∀ inner program, Eval.Nests task inner (E.program inner program)) :
    Eval.Nests task c (evaluate E c loader path span) := by
  unfold evaluate
  split
  · exact .raise _
  · refine .within (rootScope_opens c) fun inner => .bind (.attempt (hp inner _)) fun result => ?_
    split
    · exact .modifyGet fun _ => .apart rfl rfl rfl rfl rfl
    · split <;> exact .raise _

/-- The body of a module is no call, but calls are made in it. -/
theorem resolve_nests (hp : ∀ inner program, Eval.Nests task inner (E.program inner program)) :
    Eval.Nests task c (resolve E c path span) := by
  refine .bind (.gets _) fun packages => ?_
  split
  · exact .raise _
  · next loader _ =>
    split
    · exact .pure _
    · split
      · exact .raise _
      · refine .bind (.modify fun _ => .apart rfl rfl rfl rfl rfl) fun _ => ?_
        exact .ensuring (evaluate_nests loader hp) fun _ => .apart rfl rfl rfl rfl rfl

end Import

/-! ### Levels -/

/-- **What is built from activities that go on in steps of a task goes on so.** -/
theorem Eval.Built.nests (hE : E.Nests task) {x : Site} {m : Eval α} {K : Knowledge}
    (h : Built E K x c m) :
    Eval.Nests task c m := by
  -- one case a constructor: what changes no frames is quiet, and the calls, imports and captures
  -- have been dealt with above
  induction h with
  | pure a => exact .pure a
  | raise f => exact .raise f
  | abort message => exact .stop (.abort message)
  | gets f => exact .gets f
  | await w => exact .await w
  | yieldTurn => exact .yieldTurn
  | bind _ _ ihm ihf => exact .bind ihm ihf
  | knowing _ _ _ ihm ihf => exact .bind ihm ihf
  | attempt _ ih => exact .attempt ih
  | ensuring _ hf ih => exact .ensuring ih fun s => .plain (hf s).toPlainStep
  | modifyGet hf => exact .modifyGet fun s => .plain (hf s).toPlainStep
  | change hf _ => exact .modifyGet fun s => .plain (hf s)
  | newBound receiver method span => exact .newBound receiver method span
  | statement line => exact .statement line
  | writeName span _ hf => exact .writeName span hf
  | rebindName name v span _ => exact .bind (.gets _) fun _ => .writeName span (.bind v)
  | within hm _ ih => exact .within hm ih
  | block hm _ ih => exact .within hm ih
  | run _ _ ih => exact Function.run_nests hE _ fun inner => ih inner _ _
  | method _ _ _ _ ihchecks ih =>
    -- the checks come first, then the call
    exact .bind ihchecks fun _ => Function.run_nests hE _ fun inner => ih inner _ _
  | resolve _ ih => exact Import.resolve_nests ih
  | defer _ ih => exact Capture.defer_nests ih
  | spawn _ ih => exact Capture.spawn_nests ih
  -- the packaged method that is found acts for the task, since all those of the state do
  | @packaged _ _ _ _ r _ _ _ ihnone ihsome =>
    intro s hs
    rw [gets_bind_apply]
    cases hb : s.heap.bounds.get? r with
    | none => exact ihnone s hs
    | some b => exact ihsome b s ⟨hs.packaged r b hb, hs.packaged⟩
  | expr e _ => exact hE.expr _ e
  | stmt stmt => exact hE.stmt _ stmt
  | call callee args span => exact hE.call _ callee args span
  | invoke receiver name args span => exact hE.invoke _ receiver name args span
  | cycle condition body => exact hE.cycle _ condition body
  | drain vars r index body => exact hE.drain _ vars r index body

/-- An engine of no level is cut off at once. -/
theorem Engine.idle_nests : Engine.idle.Nests task where
  expr _ _ := .stop .exhausted
  stmt _ _ := .stop .exhausted
  call _ _ _ _ := .stop .exhausted
  invoke _ _ _ _ _ := .stop .exhausted
  cycle _ _ _ := .stop .exhausted
  drain _ _ _ _ _ := .stop .exhausted

/-- **Whatever an engine of any level does for a task, it goes on in steps of the task.** -/
theorem Engine.watched_nests (w : Bool) : ∀ n, (Engine.watched w n).Nests task
  -- by induction on the level: the activities of a level are built from those of the one below
  | 0 => idle_nests
  | n + 1 =>
    have hn := watched_nests w n
    { expr := fun scope e =>
        .bind (.reveal w) fun _ => (Expr.eval_built (x := .expr scope) rfl e).nests hn
      stmt := fun scope stmt => .bind (.reveal w) fun _ => (Stmt.run_built scope stmt).nests hn
      call := fun scope callee args span => .bind (.reveal w) fun _ =>
        (Dispatch.call_built (x := .away) scope args callee span).nests hn
      invoke := fun scope receiver name args span => .bind (.reveal w) fun _ =>
        (Dispatch.invoke_built (x := .away) scope name args receiver span).nests hn
      cycle := fun scope condition body =>
        .bind (.reveal w) fun _ => (Stmt.cycle_built scope condition body).nests hn
      drain := fun scope vars r index body =>
        .bind (.reveal w) fun _ => (Stmt.drain_built scope vars r index body).nests hn }

/-- A program is a list of statements, so it goes on in steps of the task. -/
theorem Engine.program_nests (hE : E.Nests task) (scope : Ref .scope) (program : Program) :
    Eval.Nests task scope (E.program scope program) :=
  (program_built (K := .nothing) scope program).nests hE

/-! ### What a listener is told of a run -/

/-- What a listener has been told is reported wherever the run of a lone task can be seen, and at
its end. No call is open then, unless the host has cut the run off. -/
abbrev Run.Reports (task : Nat) (s : State) (r : Run α) : Prop :=
  r.Throughout State.Hears (fun t => ∃ notices opened, Reported task s t notices opened)
    (fun o t => match o with
      | .ok _ | .error (.fault _) => ∃ notices, Reported task s t notices []
      | .error _ => ∃ notices opened, Reported task s t notices opened) s

namespace Listener

/-- What a run does in steps of the task is reported, since those steps tell the listener. -/
theorem reports (hlistening : s.listening = true)
    (hdepth : s.stack.depth task ≤ Function.maxDepth) {r : Run α} (h : r.Nests task s s) :
    r.Reports task s := by
  refine h.mono (fun _ _ => id) (fun t ht => ?_) fun o t ht => ?_
  · obtain ⟨opened, ht⟩ := ht
    obtain ⟨notices, ht⟩ := reported hlistening hdepth ht
    exact ⟨notices, opened, ht⟩
  · cases o with
    | ok a => exact reported hlistening hdepth ht
    | error why =>
      obtain ⟨opened, ht, hover⟩ := ht
      obtain ⟨notices, hnotices⟩ := reported hlistening hdepth ht
      cases why with
      | fault f =>
        obtain rfl := hover ⟨f, rfl⟩
        exact ⟨notices, hnotices⟩
      | abort message => exact ⟨notices, opened, hnotices⟩
      | exhausted => exact ⟨notices, opened, hnotices⟩

end Listener

/-! ### Sessions -/

namespace Session

/-- Programs can be run with a listener, which has been told nothing yet. -/
structure Prepared (session : Session) : Prop where
  ready : session.state.Ready (· = 0) State.root
  listening : session.state.listening = true
  events_eq : session.state.events = []
  depth_le : session.state.stack.depth 0 ≤ Function.maxDepth

/-- What a listener has been told of a program is in its trace. No call is open at the end, unless
the host has cut the program off. -/
def Traces (session : Session) (program : Program) : Prop :=
  ∃ t notices opened, Reported 0 session.state t notices opened ∧
    (session.run program).1.events = notices.map .ofNotice ∧
    ((∃ e, (session.run program).1.outcome = .ofEnd e) → opened = [])

/-- A session that starts with a listener is prepared. -/
theorem prepared_start {setup : Setup} (h : setup.listening = true) : (start setup).Prepared := by
  refine ⟨⟨.of_isSome rfl rfl, fun r b hb => ?_⟩, h, rfl, Nat.zero_le _⟩
  simp [start, State.initial, Heap.empty, Table.empty, Table.get?] at hb

/-- **The run of a program is traced,** and prepares the session for the next one. -/
theorem traces {session : Session} {program : Program} (h : session.Prepared)
    (htasks : session.tasks = [])
    (hlone : (Engine.top.program State.root program session.state).Lone) :
    session.Traces program ∧ (session.run program).2.Prepared := by
  have htop : Engine.top.Nests 0 := by
    rw [Engine.top, ← Engine.watched_false]
    exact Engine.watched_nests false _
  have hmain : (Engine.top.program State.root program session.state).Reports 0 session.state :=
    reports h.listening h.depth_le (Engine.program_nests htop State.root program _ h.ready)
  obtain ⟨t, hidle, hseen⟩ := Schedule.seen_of_runMain Schedule.maxRounds hlone hmain.seen
  simp only [Traces, run, htasks]
  generalize Schedule.runMain Schedule.maxRounds _ [] = ended at hidle hseen
  obtain ⟨outcome, tasks, state⟩ := ended
  obtain ⟨_, _, _, rfl⟩ := hidle
  -- whatever the outcome is, there is a report of the state it was seen in
  obtain ⟨notices, opened, hreported, hover⟩ : ∃ notices opened,
      Reported 0 session.state t notices opened ∧ ((∃ e, outcome = .ofEnd e) → opened = []) := by
    cases outcome with
    | value v =>
      obtain ⟨notices, hreported⟩ := hseen
      exact ⟨notices, [], hreported, fun _ => rfl⟩
    | fault f =>
      obtain ⟨notices, hreported⟩ := hseen
      exact ⟨notices, [], hreported, fun _ => rfl⟩
    | abort message =>
      obtain ⟨notices, opened, hreported⟩ := hseen
      refine ⟨notices, opened, hreported, fun ⟨e, he⟩ => ?_⟩
      cases e <;> exact nomatch he
    | exhausted =>
      obtain ⟨notices, opened, hreported⟩ := hseen.elim id id
      refine ⟨notices, opened, hreported, fun ⟨e, he⟩ => ?_⟩
      cases e <;> exact nomatch he
  have hready := hreported.others.ready h.ready
  refine ⟨⟨t, notices, opened, hreported, ?_, hover⟩,
    ⟨⟨hready.served, hready.packaged⟩, hreported.listening, rfl, hreported.depth_le⟩⟩
  have hevents := hreported.events_eq
  rw [h.events_eq, List.append_nil] at hevents
  simp only [hevents, List.reverse_reverse]

end Session

namespace Listener

/-- **Calls are nested.** For every program of a session with a listener, if its run is that of a
lone task: the trace is what the listener has been told, whatever the program fails with and
catches, the session is prepared for the next program, and what has been told is reported. That is
(`Reported`):

* the notices of calls and returns are nested, each return with the function, the place and the
  depth of its call, and what is open are the calls whose returns are due: none, once the program
  has a value or has failed;
* the depth of a call is the number of frames of the task when its frame has just been pushed, and
  lies between 1 and the bound;
* the frames of the task are those of its open calls, and within the bound.

The same holds of every program, statement, expression, call and method, at any level and for any
task, from wherever it starts; and not only at the end, but wherever the run can be seen. -/
theorem calls_nest :
    (∀ setup : Setup, setup.listening = true → (Session.start setup).Prepared) ∧
    (∀ (session : Session) (program : Program), session.Prepared → session.tasks = [] →
      (Engine.top.program State.root program session.state).Lone →
      session.Traces program ∧ (session.run program).2.Prepared) ∧
    ∀ (w : Bool) (n task : Nat) (s : State) (scope : Ref .scope), s.Ready (· = task) scope →
      s.listening = true → s.stack.depth task ≤ Function.maxDepth →
      (∀ program, ((Engine.watched w n).program scope program s).Reports task s) ∧
      (∀ stmt, ((Engine.watched w n).stmt scope stmt s).Reports task s) ∧
      (∀ e, ((Engine.watched w n).expr scope e s).Reports task s) ∧
      (∀ callee args span, ((Engine.watched w n).call scope callee args span s).Reports task s) ∧
      ∀ receiver name args span,
        ((Engine.watched w n).invoke scope receiver name args span s).Reports task s := by
  refine ⟨fun setup => Session.prepared_start, fun session program => Session.traces,
    fun w n task s scope hs hlistening hdepth => ?_⟩
  have hE : (Engine.watched w n).Nests task := Engine.watched_nests w n
  have hreports : ∀ {α : Type} {m : Eval α}, Eval.Nests task scope m → (m s).Reports task s :=
    fun hm => reports hlistening hdepth (hm s hs)
  refine ⟨fun program => ?_, fun stmt => ?_, fun e => ?_, fun callee args span => ?_,
    fun receiver name args span => ?_⟩
  · exact hreports (Engine.program_nests hE scope program)
  · exact hreports (hE.stmt scope stmt)
  · exact hreports (hE.expr scope e)
  · exact hreports (hE.call scope callee args span)
  · exact hreports (hE.invoke scope receiver name args span)

/-- A program that calls a function, which leaves another one to its end and then throws. -/
def throwing : Program :=
  let later : Stmt := .mk (.defer (.mk (.function (some "later") [] []) .unknown)) .unknown
  let throw : Stmt := .mk (.throw (.mk (.text "out") .unknown)) .unknown
  [.mk (.expr (.mk (.call (.mk (.function (some "outer") [] [later, throw]) .unknown) []) .unknown))
    .unknown]

/-- A session with a listener. -/
def attended : Session := .start ⟨.empty, .default, none, .empty, true, 0, 0⟩

/-- The program can be run, and again after it has failed; and while it runs, its calls can be
seen. -/
theorem calls_nest_throwing :
    attended.Prepared ∧ attended.tasks = [] ∧
    (Engine.top.program State.root throwing attended.state).Lone ∧
    attended.Traces throwing ∧ (attended.run throwing).2.Prepared ∧
    ((Engine.watched true 9).program State.root throwing attended.state).Reports 0
      attended.state := by
  obtain ⟨hstart, htraces, hseen⟩ := calls_nest
  have hprepared : attended.Prepared := hstart _ rfl
  have hlone : (Engine.top.program State.root throwing attended.state).Lone :=
    .of_rest (by decide +kernel)
  obtain ⟨htrace, hnext⟩ := htraces attended throwing hprepared rfl hlone
  obtain ⟨hprogram, -⟩ := hseen true 9 0 attended.state State.root hprepared.ready
    hprepared.listening hprepared.depth_le
  exact ⟨hprepared, rfl, hlone, htrace, hnext, hprogram throwing⟩

/-- The deferred call is made when the frame of the first one is down already, so its depth is the
same; but it is over before the first one is. -/
example : (attended.run throwing).1.events =
    [.statement 0, .call "outer" 0 1, .statement 0, .statement 0, .call "later" 0 1,
      .return "later" 0 1, .return "outer" 0 1] := by
  decide +kernel

end Listener

end ScriptEngine
