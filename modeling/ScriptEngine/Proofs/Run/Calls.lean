import ScriptEngine.Proofs.Run.Traced

/-!
# Calls follow paths

A call of a script function is taken apart here: the checks that can refuse it, the state in
which its body starts (`Function.entry`), the frame that comes down (`Function.lowered`), the
deferred calls made one after the other (`Function.MadeInTurn`), and the verdict on what the
body and the deferred calls ended with (`Function.verdict`). `Function.run_ends_iff` says that
a call ends in exactly this way. That the call follows a path is read off that equation.
-/

namespace ScriptEngine.Function

open Eval

variable {E : Engine} {x : Site}

/-! ### Deferred calls -/

/-- **Deferred calls, made in turn.** Each is called once, from the state that the one before
left, whatever that one ended with. -/
inductive MadeInTurn (E : Engine) (caller : Ref .scope) :
    List Deferred → State → List (Except Fault Value) → State → Prop
  | nil (s : State) : MadeInTurn E caller [] s [] s
  | cons {d : Deferred} {ds : List Deferred} {s s' s'' : State} {r : Except Fault Value}
      {rs : List (Except Fault Value)} :
      (E.call caller d.callee d.args d.span s).Ends r s' → MadeInTurn E caller ds s' rs s'' →
      MadeInTurn E caller (d :: ds) s (r :: rs) s''

/-- The first fault among several results. -/
def firstFault? : List (Except Fault Value) → Option Fault
  | [] => none
  | .error e :: _ => some e
  | .ok _ :: rest => firstFault? rest

/-- **The result of a call,** from that of its body and those of its deferred calls in the
order they were made. -/
def verdict (body : Except Fault Value) (outcomes : List (Except Fault Value)) :
    Except Fault Value :=
  match body, firstFault? outcomes with
  | .ok _, some e => .error e
  | _, _ => body

/-- Without deferred calls, the body decides. -/
@[simp] theorem verdict_nil (body : Except Fault Value) : verdict body [] = body := by
  cases body <;> rfl

/-- A fault of the body is not replaced. -/
@[simp] theorem verdict_error (e : Fault) (outcomes : List (Except Fault Value)) :
    verdict (.error e) outcomes = .error e := rfl

/-- A fault of a deferred call replaces a value. -/
@[simp] theorem verdict_ok_error (v : Value) (e : Fault) (rest : List (Except Fault Value)) :
    verdict (.ok v) (.error e :: rest) = .error e := rfl

/-- A deferred call that ends well replaces nothing. -/
@[simp] theorem verdict_ok_cons (body : Except Fault Value) (v : Value)
    (rest : List (Except Fault Value)) : verdict body (.ok v :: rest) = verdict body rest := by
  cases body <;> rfl

/-- The verdict may be taken call by call. -/
theorem verdict_verdict (body r : Except Fault Value) (rest : List (Except Fault Value)) :
    verdict (verdict body [r]) rest = verdict body (r :: rest) := by
  cases r <;> cases body <;> simp

/-- The first deferred call is attempted, and the others are made after it with the verdict so far. -/
theorem runDeferred_cons (caller : Ref .scope) (d : Deferred) (ds : List Deferred)
    (body : Except Fault Value) :
    runDeferred E caller (d :: ds) body = (do
      let r ← attempt (E.call caller d.callee d.args d.span)
      runDeferred E caller ds (verdict body [r])) := by
  unfold runDeferred
  congr 1
  funext r
  cases r <;> cases body <;> cases ds <;> rfl

/-- Deferred calls end once each of them has. -/
theorem runDeferred_ends_iff {caller : Ref .scope} {ds : List Deferred}
    {body : Except Fault Value} {s t : State} {o : Except Fault (Except Fault Value)} :
    (runDeferred E caller ds body s).Ends o t ↔
      ∃ outcomes, MadeInTurn E caller ds s outcomes t ∧ o = .ok (verdict body outcomes) := by
  induction ds generalizing body s with
  | nil =>
    constructor
    · intro h
      obtain ⟨rfl, rfl⟩ := ends_pure_iff.mp h
      exact ⟨[], .nil t, by simp⟩
    · rintro ⟨_, ⟨⟩, rfl⟩
      exact ends_pure_iff.mpr ⟨by simp, rfl⟩
  | cons d ds ih =>
    -- the induction is on the calls; the verdict so far is the body's result for the rest
    rw [runDeferred_cons, ends_bind_iff]
    constructor
    · rintro (⟨r, s', hr, h⟩ | ⟨e, -, he⟩)
      · obtain ⟨r', hr', hcall⟩ := ends_attempt_iff.mp hr
        obtain rfl := Except.ok.inj hr'
        obtain ⟨rs, hrs, rfl⟩ := ih.mp h
        exact ⟨r :: rs, .cons hcall hrs, by rw [verdict_verdict]⟩
      · obtain ⟨r, hr, -⟩ := ends_attempt_iff.mp he
        exact nomatch hr
    · rintro ⟨_, hmade, rfl⟩
      cases hmade with
      | @cons _ _ _ s' _ r rs hcall hrs =>
        refine .inl ⟨r, s', ends_attempt_iff.mpr ⟨r, rfl, hcall⟩, ?_⟩
        exact ih.mpr ⟨rs, hrs, by rw [verdict_verdict]⟩

/-! ### The parts of a call -/

/-- Why a call is refused before it has a frame. -/
def refusal? (f : Closure) (args : List Value) (caller : Ref .scope) (span : Span) (s : State) :
    Option Fault :=
  if !f.accepts args.length then some ⟨.argumentCount f.arityLabel args.length, span⟩
  else if maxDepth ≤ s.stack.depth (s.scopes.task caller) then
    some ⟨.general ("maximum call depth of " ++ toString maxDepth ++ " exceeded in '" ++ f.name ++
      "'"), span⟩
  else none

/-- The scope of a call before its parameters are bound. -/
def callScope (f : Closure) (caller : Ref .scope) (binding : Binding) (s : State) : Scope :=
  let fresh := Scope.fresh (some f.scope) (s.scopes.task caller) binding.owner
  match binding.receiver with
  | some receiver => (fresh.bind "self" receiver).bind "this" receiver
  | none => fresh

/-- The frame of a call. -/
def frameOf (f : Closure) (caller : Ref .scope) (span : Span) (s : State) : Frame :=
  ⟨f.name, s.scopes.task caller, span, []⟩

/-- The state in which the body of a call starts. -/
def entry (f : Closure) (caller : Ref .scope) (span : Span) (binding : Binding) (s : State) :
    State :=
  (s.withScope (callScope f caller binding s)).entered (frameOf f caller span s)

/-- What the end of a body leaves: the calls its frame has deferred, the latest first, and the
state without the frame. -/
def lowered (scope : Ref .scope) (s : State) : List Deferred × State :=
  match s.stack.pop (s.scopes.task scope) with
  | some (frame, stack) => (frame.deferred, { s with stack })
  | none => ([], s)

/-- What the listener hears when a call is over. -/
def returnEvent (f : Closure) (caller : Ref .scope) (span : Span) (s : State) : Notice :=
  .return ⟨f.name, span, s.stack.depth (s.scopes.task caller) + 1⟩

/-- The scope of a call belongs to the task of the caller. -/
@[simp] theorem task_callScope (f : Closure) (caller : Ref .scope) (binding : Binding)
    (s : State) : (callScope f caller binding s).task = s.scopes.task caller := by
  unfold callScope
  split <;> rfl

/-- A write to the scope that was just added could have been made before adding it. -/
theorem withScope_modify (s : State) (n : Scope) (g : Scope → Scope) :
    { s.withScope n with scopes := (s.withScope n).scopes.modify s.newScope g } =
      s.withScope (g n) := by
  simp only [State.withScope, ScopeTree.add, ScopeTree.modify, State.newScope]
  congr 2
  -- the write goes to the last scope, the one that was just added
  apply Array.ext
  · simp
  · intro i hi hi'
    by_cases h : i = s.scopes.nodes.size
    · subst h
      simp [Array.getElem_modify]
    · grind

/-- A name that a new scope does not hold for good can be bound there. -/
theorem bindName_newScope (s : State) (n : Scope) (name : String) (v : Value) (span : Span)
    (hn : n.isConst name = false) :
    bindName s.newScope name v span (s.withScope n) = .done () (s.withScope (n.bind name v)) := by
  have hconst : (s.withScope n).scopes.isConstIn s.newScope name = false := by
    simp [ScopeTree.isConstIn, State.withScope, State.newScope, hn]
  simp [bindName, writeName, hconst, withScope_modify]

/-- A method sees its receiver under two names. -/
theorem bindReceiver_newScope (s : State) (parent : Option (Ref .scope)) (task : Nat)
    (owner : Option (Ref .classDef)) (v : Value) (span : Span) :
    bindReceiver s.newScope v span (s.withScope (.fresh parent task owner)) =
      .done () (s.withScope (((Scope.fresh parent task owner).bind "self" v).bind "this" v)) := by
  rw [bindReceiver, bind_apply, bindName_newScope s _ _ _ _ rfl]
  exact bindName_newScope s _ _ _ _ rfl

/-- The last scope has the task that it was opened for. -/
@[simp] theorem task_newScope (s : State) (n : Scope) :
    (s.withScope n).scopes.task s.newScope = n.task := by
  simp [ScopeTree.task, State.withScope, State.newScope]

/-- Asking for the depth changes nothing. -/
theorem depth_apply (caller : Ref .scope) (s : State) :
    depth caller s = .done (s.stack.depth (s.scopes.task caller)) s := rfl

/-- The scope of a call is opened below that of the function. -/
theorem enclosedScope_apply (outer caller : Ref .scope) (owner : Option (Ref .classDef))
    (s : State) : enclosedScope outer caller owner s =
      .done s.newScope (s.withScope (.fresh (some outer) (s.scopes.task caller) owner)) := rfl

/-- The frame is pushed for the task of the scope. -/
theorem pushFrame_apply (scope : Ref .scope) (name : String) (span : Span) (s : State) :
    pushFrame scope name span s =
      .done () { s with stack := s.stack.push ⟨name, s.scopes.task scope, span, []⟩ } := rfl

/-- A notice is heard if the listener listens. -/
theorem notify_apply (e : Notice) (s : State) : notify e s = .done () (s.notified e) := rfl

/-- The entry, as the frame's push and the listener's word make it. -/
theorem entry_eq (f : Closure) (caller : Ref .scope) (span : Span) (binding : Binding)
    (s : State) :
    entry f caller span binding s =
      { s.withScope (callScope f caller binding s) with
        stack := s.stack.push ⟨f.name, s.scopes.task caller, span, []⟩ }.notified
        (.call ⟨f.name, span, s.stack.depth (s.scopes.task caller) + 1⟩) := rfl

/-- How a call goes on once its scope is ready. -/
theorem run_apply (E : Engine) (caller : Ref .scope) (f : Closure) (args : List Value)
    (span : Span) (binding : Binding) (s : State) :
    run E caller f args span binding s =
      match refusal? f args caller span s with
      | some e => .stop (.fault e) s
      | none => (do
          let body ← attempt (runBody E s.newScope f args span)
          let deferred ← popFrame s.newScope
          let result ← runDeferred E caller deferred body
          notify (returnEvent f caller span s)
          conclude result : Eval Value) (entry f caller span binding s) := by
  unfold run refusal?
  by_cases ha : f.accepts args.length = true
  · by_cases hd : maxDepth ≤ s.stack.depth (s.scopes.task caller)
    · simp [ha, hd, depth_apply, fail, raise, Run.andThen]
    · -- the new scope has the caller's task, so the frame is pushed for that task
      have htask := task_newScope s (callScope f caller binding s)
      rw [task_callScope] at htask
      rw [entry_eq]
      cases hr : binding.receiver with
      | none =>
        simp only [callScope, hr] at htask ⊢
        simp [ha, hd, depth_apply, enclosedScope_apply, pushFrame_apply, notify_apply, htask,
          Run.andThen]
        rfl
      | some v =>
        simp only [callScope, hr] at htask ⊢
        simp [ha, hd, depth_apply, enclosedScope_apply, bindReceiver_newScope, pushFrame_apply,
          notify_apply, htask, Run.andThen]
        rfl
  -- the arguments do not fit, and nothing is done
  · simp [ha, fail, raise, Run.andThen]

/-- The frame that comes down is that of the scope's task. -/
theorem popFrame_apply (scope : Ref .scope) (s : State) :
    popFrame scope s = .done (lowered scope s).1 (lowered scope s).2 := rfl

/-- **What a call ends with.** It is refused, and nothing has happened; or its body ends, and the
calls that its frame has deferred are made after that. -/
theorem run_ends_iff {caller : Ref .scope} {f : Closure} {args : List Value} {span : Span}
    {binding : Binding} {s t : State} {o : Except Fault Value} :
    (run E caller f args span binding s).Ends o t ↔
      (∃ e, refusal? f args caller span s = some e ∧ o = .error e ∧ t = s) ∨
      refusal? f args caller span s = none ∧ ∃ body finished outcomes left,
        (runBody E s.newScope f args span (entry f caller span binding s)).Ends body finished ∧
        MadeInTurn E caller (lowered s.newScope finished).1 (lowered s.newScope finished).2
          outcomes left ∧
        o = verdict body outcomes ∧ t = left.notified (returnEvent f caller span s) := by
  rw [run_apply]
  cases hr : refusal? f args caller span s with
  | some e => simp
  | none =>
    -- without a refusal only the second way is left
    simp only [reduceCtorEq, false_and, exists_false, false_or, true_and]
    -- the parts after the body, one after the other
    have rest : ∀ body finished,
        ((do
          let deferred ← popFrame s.newScope
          let result ← runDeferred E caller deferred body
          notify (returnEvent f caller span s)
          conclude result : Eval Value) finished).Ends o t ↔
        ∃ outcomes left,
          MadeInTurn E caller (lowered s.newScope finished).1 (lowered s.newScope finished).2
            outcomes left ∧
          o = verdict body outcomes ∧ t = left.notified (returnEvent f caller span s) := by
      intro body finished
      rw [bind_of_done (popFrame_apply _ _), ends_bind_iff]
      constructor
      · rintro (⟨r, left, hr, h⟩ | ⟨e, -, he⟩)
        · obtain ⟨outcomes, hmade, hr⟩ := runDeferred_ends_iff.mp hr
          obtain rfl := Except.ok.inj hr
          rw [bind_of_done (notify_apply _ _), ends_conclude_iff] at h
          exact ⟨outcomes, left, hmade, h⟩
        · obtain ⟨outcomes, -, hr⟩ := runDeferred_ends_iff.mp he
          exact nomatch hr
      · rintro ⟨outcomes, left, hmade, h⟩
        refine .inl ⟨_, left, runDeferred_ends_iff.mpr ⟨outcomes, hmade, rfl⟩, ?_⟩
        rw [bind_of_done (notify_apply _ _), ends_conclude_iff]
        exact h
    -- the body is attempted, so the call goes on whatever it ends with
    rw [ends_bind_iff]
    constructor
    · rintro (⟨body, finished, hbody, h⟩ | ⟨e, -, he⟩)
      · obtain ⟨r, hr, hbody⟩ := ends_attempt_iff.mp hbody
        obtain rfl := Except.ok.inj hr
        obtain ⟨outcomes, left, h⟩ := (rest body finished).mp h
        exact ⟨body, finished, outcomes, left, hbody, h⟩
      · obtain ⟨r, hr, -⟩ := ends_attempt_iff.mp he
        exact nomatch hr
    · rintro ⟨body, finished, outcomes, left, hbody, h⟩
      refine .inl ⟨body, finished, ends_attempt_iff.mpr ⟨body, rfl, hbody⟩, ?_⟩
      exact (rest body finished).mpr ⟨outcomes, left, h⟩

/-! ### The path of a call -/

/-- Deferred calls run away from the scope of their call. -/
theorem MadeInTurn.path (hE : E.Traced) {caller : Ref .scope} {ds : List Deferred} {s t : State}
    {outcomes : List (Except Fault Value)} (h : MadeInTurn E caller ds s outcomes t) :
    Path .away [] s t := by
  -- on the calls that are made
  induction h with
  | nil s => exact .refl _ s
  | cons hcall _ ih =>
    obtain ⟨ds, hd⟩ := hE.call caller _ _ _ nofun hcall
    obtain rfl | ⟨c, hc⟩ := hd.eq_nil_or_stmt
    · exact hd.trans ih
    · exact nomatch hc

/-- The body of a call runs on top of its frame and leaves it there, with the calls deferred on
the way. -/
theorem body_path_of_traced {caller : Ref .scope} {f : Closure} {args : List Value} {span : Span}
    {binding : Binding} {s finished : State} {body : Except Fault Value}
    (hbody : Traced (.stmt s.newScope) (runBody E s.newScope f args span))
    (h : (runBody E s.newScope f args span (entry f caller span binding s)).Ends body finished) :
    ∃ registered, Path (.stmt s.newScope) registered (entry f caller span binding s) finished ∧
      finished.stack = s.stack.push { frameOf f caller span s with deferred := registered } ∧
      lowered s.newScope finished = (registered, { finished with stack := s.stack }) := by
  have hvalid : (Site.stmt s.newScope).Valid (entry f caller span binding s) := by
    intro c hc
    simpa [entry] using Site.valid_newScope (n := callScope f caller binding s) rfl c hc
  have htask : Site.task (.stmt s.newScope) (entry f caller span binding s) =
      s.scopes.task caller := by
    simp [Site.task, Site.home?, entry]
  -- along the body's path, the frame on top gets the deferred calls and nothing else happens
  obtain ⟨registered, hpath⟩ := hbody hvalid h
  have hstack : finished.stack =
      s.stack.push { frameOf f caller span s with deferred := registered } := by
    rw [hpath.stack_eq hvalid, htask, entry, State.entered_stack]
    exact (CallStack.withDeferred_push s.stack (frameOf f caller span s) registered).trans
      (by simp [frameOf])
  refine ⟨registered, hpath, hstack, ?_⟩
  -- so it is that frame which comes down
  have hlast : finished.scopes.task s.newScope = s.scopes.task caller := by
    rw [← htask]
    exact hpath.task_eq hvalid
  have hpop : finished.stack.pop (finished.scopes.task s.newScope) =
      some ({ frameOf f caller span s with deferred := registered }, s.stack) := by
    rw [hlast, hstack]
    exact CallStack.pop_push _ _
  simp [lowered, hpop]

/-- The receiver is bound in the new scope. -/
theorem callScope_path (f : Closure) (caller : Ref .scope) (binding : Binding) (s : State) :
    Path (.expr s.newScope) []
      (s.withScope (.fresh (some f.scope) (s.scopes.task caller) binding.owner))
      (s.withScope (callScope f caller binding s)) := by
  have bind : ∀ (n : Scope) (name : String) (v : Value), n.isConst name = false →
      Path (.expr s.newScope) [] (s.withScope n) (s.withScope (n.bind name v)) := by
    intro n name v hn
    rw [← withScope_modify s n (·.bind name v)]
    refine .write (.inl rfl) ?_ (.bind v)
    simpa [ScopeTree.isConstIn, State.withScope, State.newScope] using hn
  unfold callScope
  cases binding.receiver with
  | none => exact .refl _ _
  | some v => exact (bind _ "self" v rfl).trans (bind _ "this" v rfl)

/-- **A call follows a path** if its body does, with the frame and the deferred calls as in its end. -/
theorem run_traced (hE : E.Traced) {caller : Ref .scope} {f : Closure} {args : List Value}
    {span : Span} (binding : Binding)
    (hrun : ∀ inner, Traced (.stmt inner) (runBody E inner f args span)) :
    Traced x (run E caller f args span binding) := by
  intro s o t _ h
  obtain ⟨e, -, -, rfl⟩ | ⟨hr, body, finished, outcomes, left, hbody, hmade, -, rfl⟩ :=
    run_ends_iff.mp h
  -- a refused call has done nothing
  · exact ⟨[], .refl x t⟩
  obtain ⟨registered, hpath, hstack, hlow⟩ := body_path_of_traced (hrun s.newScope) hbody
  rw [hlow] at hmade
  have hdepth : s.stack.depth (s.scopes.task caller) < maxDepth := by
    unfold refusal? at hr
    grind
  -- inside the new scope: its receiver is bound, then the call is made
  have hcall : Path (.expr s.newScope) [] (s.withScope (callScope f caller binding s))
      (left.notified (returnEvent f caller span s)) := by
    refine .call (f := frameOf f caller span s) rfl ?_ rfl hdepth hpath
      (hstack ▸ CallStack.pop_push _ _) (hmade.path hE)
    simp [frameOf]
  exact ⟨[], .within (some f.scope) (s.scopes.task caller) binding.owner
    ((callScope_path f caller binding s).trans hcall)⟩

end ScriptEngine.Function
