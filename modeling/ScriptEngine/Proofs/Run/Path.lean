import ScriptEngine.Eval.Level
import ScriptEngine.Proofs.Run.Ends

/-!
# Paths

What the evaluation of one piece of a program can do to the state, step by step. `Path x ds s s'`
is a course of steps from `s` to `s'` taken at the site `x`, in the order in which an evaluation
takes them; `ds` are the calls that were deferred on the way *at that site*, the latest in front.

A site says what the steps may do beyond changing data:

* `Site.away`: nothing. Calls and methods run away from the scopes of their callers.
* `Site.expr c`: bind names in the scope `c`, as the assignments in an expression can.
* `Site.stmt c`: besides that, defer calls until the function that `c` belongs to ends.

Three constructors hold a whole course inside: a scope that is new (`within`, `block`), a call
with the frame it pushes and takes down again (`call`), and the evaluation of a package
(`package`). So a course is bracketed as evaluations are, and what holds along it is an induction
over `Path`. The first such facts are here: scopes stay as they are but for their names
(`Path.scopes_extend`), and the call stack ends as it began, but for the calls deferred
(`Path.stack_eq`).
-/

namespace ScriptEngine

/-! ### Deferring on a stack -/

namespace CallStack

/-- Frames with more calls deferred on the first one of a task, if there is one. -/
def deferOnto (task : Nat) (ds : List Deferred) : List Frame → List Frame
  | [] => []
  | f :: rest =>
    if f.task = task then { f with deferred := ds ++ f.deferred } :: rest
    else f :: deferOnto task ds rest

/-- The stack with more calls deferred on the innermost frame of a task, if it has a frame. -/
def withDeferred (c : CallStack) (task : Nat) (ds : List Deferred) : CallStack :=
  ⟨deferOnto task ds c.frames⟩

/-- Deferring nothing leaves the stack. -/
@[simp] theorem withDeferred_nil (c : CallStack) (task : Nat) : c.withDeferred task [] = c := by
  obtain ⟨frames⟩ := c
  simp only [withDeferred, mk.injEq]
  induction frames with
  | nil => rfl
  | cons f rest ih =>
    obtain ⟨name, owner, span, waiting⟩ := f
    simp [deferOnto, ih]

/-- Calls that are deferred later are made earlier. -/
theorem withDeferred_withDeferred (c : CallStack) (task : Nat) (ds es : List Deferred) :
    (c.withDeferred task ds).withDeferred task es = c.withDeferred task (es ++ ds) := by
  obtain ⟨frames⟩ := c
  simp only [withDeferred, mk.injEq]
  induction frames with
  | nil => rfl
  | cons f rest ih => by_cases hf : f.task = task <;> simp [deferOnto, hf, ih]

/-- On top of the stack they go to the frame that was pushed. -/
@[simp] theorem withDeferred_push (c : CallStack) (f : Frame) (ds : List Deferred) :
    (c.push f).withDeferred f.task ds = c.push { f with deferred := ds ++ f.deferred } := by
  simp [withDeferred, push, deferOnto]

/-- Deferring one call is an edit of the innermost frame. -/
theorem eq_withDeferred_of_edit {c k : CallStack} {task : Nat} {d : Deferred}
    (h : c.edit task (fun f => { f with deferred := d :: f.deferred }) = some k) :
    k = c.withDeferred task [d] := by
  obtain ⟨frames⟩ := c
  obtain ⟨l, hl, rfl⟩ := Option.map_eq_some_iff.mp h
  simp only [withDeferred, mk.injEq]
  clear h
  -- on the frames: those of other tasks are passed by
  induction frames generalizing l with
  | nil => exact nomatch hl
  | cons f rest ih =>
    by_cases hf : f.task = task
    · simp only [editFirst, hf, if_true, Option.some.injEq] at hl
      simp [deferOnto, hf, ← hl]
    · simp only [editFirst, hf, if_false] at hl
      obtain ⟨l', hl', rfl⟩ := Option.map_eq_some_iff.mp hl
      simp [deferOnto, hf, ih l' hl']

end CallStack

/-! ### Scopes along a course -/

namespace ScopeTree

/-- The scopes of `t` are scopes of `u`, with the same parents, tasks and classes. -/
def Extends (t u : ScopeTree) : Prop :=
  ∀ (r : Ref .scope) (n : Scope), t.node? r = some n →
    ∃ m, u.node? r = some m ∧ m.parent = n.parent ∧ m.task = n.task ∧ m.owner = n.owner

/-- A tree extends itself. -/
theorem Extends.refl (t : ScopeTree) : t.Extends t := fun _ n hn => ⟨n, hn, rfl, rfl, rfl⟩

/-- Extensions follow each other. -/
theorem Extends.trans {t u v : ScopeTree} (h₁ : t.Extends u) (h₂ : u.Extends v) :
    t.Extends v := by
  intro r n hn
  obtain ⟨m, hm, hp, ht, ho⟩ := h₁ r n hn
  obtain ⟨l, hl, hp', ht', ho'⟩ := h₂ r m hm
  exact ⟨l, hl, hp'.trans hp, ht'.trans ht, ho'.trans ho⟩

/-- Scopes that are there stay there. -/
theorem Extends.isSome {t u : ScopeTree} (h : t.Extends u) {r : Ref .scope}
    (hr : (t.node? r).isSome) : (u.node? r).isSome := by
  obtain ⟨n, hn⟩ := Option.isSome_iff_exists.mp hr
  obtain ⟨m, hm, -⟩ := h r n hn
  exact Option.isSome_iff_exists.mpr ⟨m, hm⟩

/-- They stay with their task. -/
theorem Extends.task_eq {t u : ScopeTree} (h : t.Extends u) {r : Ref .scope}
    (hr : (t.node? r).isSome) : u.task r = t.task r := by
  obtain ⟨n, hn⟩ := Option.isSome_iff_exists.mp hr
  obtain ⟨m, hm, -, ht, -⟩ := h r n hn
  simp [task, hn, hm, ht]

/-- A scope that is added comes after all others. -/
theorem extends_add (t : ScopeTree) (n : Scope) : t.Extends (t.add n).2 := by
  intro r m hm
  refine ⟨m, ?_, rfl, rfl, rfl⟩
  obtain ⟨hr, -⟩ := Array.getElem?_eq_some_iff.mp hm
  simpa [node?, add, Array.getElem?_push, Nat.ne_of_lt hr] using hm

/-- It is found under the next reference. -/
@[simp] theorem node?_add (t : ScopeTree) (n : Scope) :
    (t.add n).2.node? ⟨t.nodes.size⟩ = some n := by
  simp [node?, add]

/-- What a search outwards finds is a scope that passes its test. -/
theorem node?_of_nearestWithin {t : ScopeTree} {p : Scope → Bool} {fuel : Nat}
    {r found : Ref .scope} {n : Scope} (h : t.nearestWithin p fuel r = some (found, n)) :
    t.node? found = some n ∧ p n = true := by
  -- on the steps of the search
  induction fuel generalizing r with
  | zero => exact nomatch h
  | succ fuel ih =>
    unfold nearestWithin at h
    split at h
    · exact nomatch h
    · next s hs =>
      split at h
      · next hp =>
        obtain ⟨rfl, rfl⟩ := Prod.mk.inj (Option.some.inj h)
        exact ⟨hs, hp⟩
      · split at h
        · exact nomatch h
        · exact ih h

end ScopeTree

/-- The writes to the bindings of a scope under one name. -/
inductive NameWrite (name : String) : (Scope → Scope) → Prop
  | bind (v : Value) : NameWrite name (·.bind name v)
  | bindConst (v : Value) : NameWrite name (·.bindConst name v)

/-- A write changes the bindings of a scope, and nothing else of it. -/
theorem ScopeTree.extends_modify (t : ScopeTree) (c : Ref .scope) {name : String}
    {f : Scope → Scope} (hf : NameWrite name f) : t.Extends (t.modify c f) := by
  intro r n hn
  have hn' : t.nodes[r.index]? = some n := hn
  by_cases hr : c.index = r.index
  · refine ⟨f n, by simp [node?, modify, Array.getElem?_modify, hr, hn'], ?_⟩
    cases hf <;> exact ⟨rfl, rfl, rfl⟩
  · exact ⟨n, by simp [node?, modify, Array.getElem?_modify, hr, hn'], rfl, rfl, rfl⟩

/-! ### Steps -/

namespace State

/-- The reference of the next scope. -/
def newScope (s : State) : Ref .scope := ⟨s.scopes.nodes.size⟩

/-- The state with one more scope. -/
def withScope (s : State) (n : Scope) : State := { s with scopes := (s.scopes.add n).2 }

/-- The state after the listener was told of an event. -/
def notified (s : State) (e : Notice) : State :=
  if s.listening then { s with events := e :: s.events } else s

/-- The state in which the body of a call starts: its frame is on the stack. -/
def entered (s : State) (f : Frame) : State :=
  { s with stack := s.stack.push f }.notified
    (.call ⟨f.function, f.callSpan, s.stack.depth f.task + 1⟩)

@[simp] theorem notified_scopes (s : State) (e : Notice) : (s.notified e).scopes = s.scopes := by
  unfold notified
  split <;> rfl

@[simp] theorem notified_stack (s : State) (e : Notice) : (s.notified e).stack = s.stack := by
  unfold notified
  split <;> rfl

@[simp] theorem entered_scopes (s : State) (f : Frame) : (s.entered f).scopes = s.scopes := by
  simp [entered]

@[simp] theorem entered_stack (s : State) (f : Frame) :
    (s.entered f).stack = s.stack.push f := by
  simp [entered]

end State

/-- A step that changes data only: neither scopes nor frames nor the packages, and the listener
hears nothing of it. -/
structure DataStep (s s' : State) : Prop where
  scopes : s'.scopes = s.scopes
  stack : s'.stack = s.stack
  packages : s'.packages = s.packages
  events : s'.events = s.events
  listening : s'.listening = s.listening

/-- Where in a program a course of steps is taken. -/
inductive Site where
  | away
  | expr (c : Ref .scope)
  | stmt (c : Ref .scope)

namespace Site

/-- The scope whose names may be bound. -/
def home? : Site → Option (Ref .scope)
  | away => none
  | expr c => some c
  | stmt c => some c

/-- The task on whose frame calls may be deferred. -/
def task (x : Site) (s : State) : Nat := (x.home?.map s.scopes.task).getD 0

/-- The scope of the site exists. -/
def Valid (x : Site) (s : State) : Prop := ∀ c, x.home? = some c → (s.scopes.node? c).isSome

/-- A site stays valid as scopes are added. -/
theorem Valid.extends {x : Site} {s s' : State} (hx : x.Valid s)
    (h : s.scopes.Extends s'.scopes) : x.Valid s' :=
  fun c hc => h.isSome (hx c hc)

/-- It stays one of its task. -/
theorem Valid.task_eq {x : Site} {s s' : State} (hx : x.Valid s)
    (h : s.scopes.Extends s'.scopes) : x.task s' = x.task s := by
  unfold task
  cases hc : x.home? with
  | none => rfl
  | some c => exact h.task_eq (hx c hc)

/-- The scope of a site is there once it has been opened. -/
theorem valid_newScope {s : State} {n : Scope} {x : Site} (hx : x.home? = some s.newScope) :
    x.Valid (s.withScope n) := by
  intro c hc
  obtain rfl : s.newScope = c := Option.some.inj (hx.symm.trans hc)
  simp [State.withScope, State.newScope]

end Site

/-- **A course of steps** at a site, with the calls it defers there. -/
inductive Path : Site → List Deferred → State → State → Prop
  | refl (x : Site) (s : State) : Path x [] s s
  | trans {x : Site} {ds es : List Deferred} {s s' s'' : State} :
      Path x ds s s' → Path x es s' s'' → Path x (es ++ ds) s s''
  | data {x : Site} {s s' : State} : DataStep s s' → Path x [] s s'
  /-- A statement starts. -/
  | statement {x : Site} (s : State) (line : Nat) : Path x [] s (s.notified (.statement line))
  /-- A name is bound at home, or changes where it is bound already. -/
  | write {x : Site} {s : State} {c : Ref .scope} {name : String} {f : Scope → Scope} :
      x.home? = some c ∨ s.scopes.hasLocal c name → s.scopes.isConstIn c name = false →
      NameWrite name f → Path x [] s { s with scopes := s.scopes.modify c f }
  /-- A course in a scope that is new. -/
  | within {x : Site} {s s' : State} (parent : Option (Ref .scope)) (task : Nat)
      (owner : Option (Ref .classDef)) :
      Path (.expr s.newScope) [] (s.withScope (.fresh parent task owner)) s' → Path x [] s s'
  /-- Statements in a scope that is new; what they defer is deferred here. -/
  | block {c : Ref .scope} {ds : List Deferred} {s s' : State} (parent : Option (Ref .scope))
      (owner : Option (Ref .classDef)) :
      Path (.stmt s.newScope) ds (s.withScope (.fresh parent (s.scopes.task c) owner)) s' →
      Path (.stmt c) ds s s'
  /-- A call is deferred: the evaluator finds its callee and arguments now, in a course of its
  own, and the call waits on the innermost frame. -/
  | defer {c : Ref .scope} {n : Nat} {e : Expr} {callee : Value} {args : List Value} {span : Span}
      {s s₁ : State} {k : CallStack} :
      (Capture.call? (.level n) c e s).Ends (.ok (some (callee, args))) s₁ →
      Path (.expr c) [] s s₁ →
      s₁.stack.edit (s₁.scopes.task c)
        (fun f => { f with deferred := ⟨callee, args, span⟩ :: f.deferred }) = some k →
      Path (.stmt c) [⟨callee, args, span⟩] s { s₁ with stack := k }
  /-- A call: its frame is pushed, the body runs, the frame comes down, and the course that
  follows has no frame of the call any more. -/
  | call {x : Site} {c : Ref .scope} {ds : List Deferred} {s s₁ s₂ : State} {f g : Frame}
      {k : CallStack} : x.home? = some c → f.task = s.scopes.task c → f.deferred = [] →
      s.stack.depth f.task < Function.maxDepth →
      Path (.stmt c) ds (s.entered f) s₁ → s₁.stack.pop f.task = some (g, k) →
      Path .away [] { s₁ with stack := k } s₂ →
      Path x [] s
        (s₂.notified (.return ⟨f.function, f.callSpan, s.stack.depth f.task + 1⟩))
  /-- A package is evaluated while its path is marked as being imported. -/
  | package {x : Site} {ds : List Deferred} {s s' : State} {path : String} :
      s.packages.loaded.get? path = none → s.packages.cycle? path = none →
      Path x ds { s with packages := s.packages.enter path } s' →
      Path x ds s { s' with packages := s'.packages.leave path }
  /-- A package is kept for later imports. -/
  | loaded {x : Site} (s : State) (path : String) (p : Package) :
      Path x [] s { s with packages := { s.packages with
        table := (s.packages.table.add p).2
        loaded := s.packages.loaded.insert path (s.packages.table.add p).1 } }

namespace Path

variable {x : Site} {ds : List Deferred} {s s' : State}

/-- Scopes stay, with their parents, tasks and classes. -/
theorem scopes_extend (h : Path x ds s s') : s.scopes.Extends s'.scopes := by
  -- every constructor keeps the scopes, or adds one
  induction h with
  | refl x s => exact .refl _
  | trans _ _ ih₁ ih₂ => exact ih₁.trans ih₂
  | data hd => exact hd.scopes ▸ .refl _
  | statement s line => exact (s.notified_scopes _).symm ▸ .refl _
  | write _ _ hf => exact ScopeTree.extends_modify _ _ hf
  | within _ _ _ _ ih => exact (ScopeTree.extends_add _ _).trans ih
  | block _ _ _ ih => exact (ScopeTree.extends_add _ _).trans ih
  | defer _ _ _ ih => exact ih
  | call _ _ _ _ _ _ _ ih₁ ih₂ =>
    rw [State.entered_scopes] at ih₁
    rw [State.notified_scopes]
    exact ih₁.trans ih₂
  | package _ _ _ ih => exact ih
  | loaded _ _ _ => exact .refl _

/-- A course leads to states in which its site is valid. -/
theorem valid (h : Path x ds s s') (hx : x.Valid s) : x.Valid s' := hx.extends h.scopes_extend

/-- It does not change the task of its site. -/
theorem task_eq (h : Path x ds s s') (hx : x.Valid s) : x.task s' = x.task s :=
  hx.task_eq h.scopes_extend

/-- Calls are deferred at statements only. -/
theorem eq_nil_or_stmt (h : Path x ds s s') : ds = [] ∨ ∃ c, x = .stmt c := by
  -- only three constructors have a list of their own, and all but one of these stand at statements
  induction h with
  | trans _ _ ih₁ ih₂ =>
    obtain rfl | hc := ih₁
    · obtain rfl | hc := ih₂
      · exact .inl rfl
      · exact .inr hc
    · exact .inr hc
  | block => exact .inr ⟨_, rfl⟩
  | defer => exact .inr ⟨_, rfl⟩
  | package _ _ _ ih => exact ih
  | _ => exact .inl rfl

/-- **The stack ends as it began,** but for the calls deferred at the site. -/
theorem stack_eq (h : Path x ds s s') (hx : x.Valid s) :
    s'.stack = s.stack.withDeferred (x.task s) ds := by
  induction h with
  | refl x s => simp
  -- the calls deferred by the second part come in front of those by the first
  | trans h₁ _ ih₁ ih₂ =>
    -- the task of the site is the same for both parts, as its scope exists
    rw [ih₂ (h₁.valid hx), ih₁ hx, h₁.task_eq hx, CallStack.withDeferred_withDeferred]
  | data hd => simp [hd.stack]
  | statement s line => simp
  | write => simp
  | within _ _ _ _ ih =>
    -- nothing is deferred in there, and a new scope leaves the stack alone
    rw [ih (Site.valid_newScope rfl), CallStack.withDeferred_nil, CallStack.withDeferred_nil]
    rfl
  | block _ _ _ ih =>
    -- the new scope belongs to the same task, so its calls are deferred on the same frame
    rw [ih (Site.valid_newScope rfl)]
    simp [Site.task, Site.home?, State.withScope, State.newScope, ScopeTree.task, Scope.fresh]
  | @defer c _ _ _ _ _ s s₁ _ _ hp hk ih =>
    -- finding the callee and the arguments has left the stack as it was
    have hs : s₁.stack = s.stack := by simpa using ih hx
    have ht : s₁.scopes.task c = s.scopes.task c := hp.task_eq hx
    rw [hs, ht] at hk
    exact CallStack.eq_withDeferred_of_edit hk
  | @call x c ds s s₁ s₂ f g k hc ht hd _ _ hpop _ ih₁ ih₂ =>
    -- the body runs on top of the frame that was pushed
    have hbody := ih₁ (fun r hr => by simpa using hx r (hc.trans hr))
    have htask : Site.task (.stmt c) (s.entered f) = f.task := by
      simp [Site.task, Site.home?, ht]
    rw [htask, State.entered_stack, CallStack.withDeferred_push] at hbody
    -- so what comes down is that frame, and the stack below it is left
    have hframe := CallStack.pop_push s.stack { f with deferred := ds ++ f.deferred }
    rw [← hbody] at hframe
    obtain ⟨rfl, rfl⟩ : _ = g ∧ _ = k := by simpa using hframe.symm.trans hpop
    -- the deferred calls run away from every scope
    have hrest := ih₂ nofun
    simpa using hrest
  | package _ _ _ ih => exact ih hx
  | loaded => simp

/-- What is done away from the scopes of a site can be done at the site. -/
theorem weaken (h : Path .away ds s s') : Path x ds s s' := by
  generalize ha : Site.away = a at h
  -- along the course, which has nothing that needs a home
  induction h with
  | refl _ s => exact .refl x s
  | trans _ _ ih₁ ih₂ => exact (ih₁ ha).trans (ih₂ ha)
  | data hd => exact .data hd
  | statement s line => exact .statement s line
  | write hc hconst hf =>
    subst ha
    exact .write (.inr (hc.resolve_left nofun)) hconst hf
  | within _ _ _ h _ => exact .within _ _ _ h
  | block => exact nomatch ha
  | defer => exact nomatch ha
  | call hc =>
    subst ha
    exact nomatch hc
  | package hl hc _ ih => exact .package hl hc (ih ha)
  | loaded s path p => exact .loaded s path p

/-- What an expression can do, a statement in the same scope can do. -/
theorem expr_stmt {c : Ref .scope} (h : Path (.expr c) ds s s') : Path (.stmt c) ds s s' := by
  generalize ha : Site.expr c = a at h
  -- along the course: what was bound at home is bound at the same home
  induction h with
  | refl _ s => exact .refl _ s
  | trans _ _ ih₁ ih₂ => exact (ih₁ ha).trans (ih₂ ha)
  | data hd => exact .data hd
  | statement s line => exact .statement s line
  | write hc hconst hf =>
    subst ha
    exact .write hc hconst hf
  | within _ _ _ h _ => exact .within _ _ _ h
  | block => exact nomatch ha
  | defer => exact nomatch ha
  | call hc ht hd hdepth h₁ hpop h₂ _ _ =>
    subst ha
    exact .call hc ht hd hdepth h₁ hpop h₂
  | package hl hc _ ih => exact .package hl hc (ih ha)
  | loaded s path p => exact .loaded s path p

end Path

end ScriptEngine
