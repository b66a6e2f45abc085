import ScriptEngine.Proofs.Classes.Annotations
import ScriptEngine.Proofs.Run.Sessions
import ScriptEngine.Proofs.Run.Watched

/-!
# Moves

The sixth reading of `Eval.Built`. A `Move` is a step that may change classes and objects
(`ClassStep`) but no frame, or the beginning of a call, or the end of one, or it defers a call.
`Move.enter` is the only move that pushes a frame, and the only one that the listener hears of as a
call: the call is admitted (`Admitted`), and its arguments are bound to the parameters in the state
that follows (`Function.started`).

What an engine of any level does in lawful states goes by moves, whatever class steps the others
take while it waits (`Engine.watched_abides`). As moves are class steps, all of its states are
lawful.
-/

namespace ScriptEngine

open Eval

/-! ### The state in which a call starts -/

namespace Function

variable {f : Closure} {caller : Ref .scope} {span : Span} {binding : Binding} {s : State}

/-- A scope with the arguments bound to the parameters. -/
def bindArgs (n : Scope) : List Param → List Value → Scope
  | p :: params, v :: args => bindArgs (n.bind p.name v) params args
  | _, _ => n

/-- The state in which a call starts: its frame is on the stack, and the arguments are bound to the
parameters. -/
def started (f : Closure) (args : List Value) (caller : Ref .scope) (span : Span)
    (binding : Binding) (s : State) : State :=
  (s.withScope (bindArgs (callScope f caller binding s) f.params args)).entered
    (frameOf f caller span s)

/-- In a scope without constants a name can be bound, before the frame of the call is pushed or
after. -/
theorem bindName_entered {n : Scope} {g : Frame} (hn : n.constants = []) (name : String)
    (v : Value) (span : Span) :
    bindName s.newScope name v span ((s.withScope n).entered g) =
      .done () ((s.withScope (n.bind name v)).entered g) := by
  have hconst : ¬ ((s.withScope n).entered g).scopes.isConstIn s.newScope name = true := by
    simp [ScopeTree.isConstIn, State.withScope, State.newScope, Scope.isConst, hn]
  -- frames and notices have nothing to do with the write
  have hcommute : { (s.withScope n).entered g with
      scopes := ((s.withScope n).entered g).scopes.modify s.newScope (·.bind name v) } =
      (s.withScope (n.bind name v)).entered g := by
    rw [← withScope_modify s n (·.bind name v)]
    unfold State.entered State.notified
    split <;> rfl
  unfold bindName writeName
  rw [if_neg hconst]
  exact congrArg (Run.done ()) hcommute

/-- The arguments are bound first. -/
theorem bindParams_entered (E : Engine) (g : Frame) (span : Span) {n : Scope}
    (hn : n.constants = []) (params : List Param) (args : List Value) :
    bindParams E s.newScope span params args ((s.withScope n).entered g) =
      bindParams E s.newScope span (params.drop args.length) []
        ((s.withScope (bindArgs n params args)).entered g) := by
  induction params generalizing n args with
  | nil => simp [bindParams, bindArgs]
  | cons p params ih =>
    cases args with
    | nil => rfl
    | cons v args =>
      rw [bindParams, bind_of_done (bindName_entered hn p.name v span)]
      exact ih (n := n.bind p.name v) hn args

/-- No name is a constant in the scope of a call. -/
theorem constants_callScope (f : Closure) (caller : Ref .scope) (binding : Binding) (s : State) :
    (callScope f caller binding s).constants = [] := by
  unfold callScope
  split <;> rfl

/-- A body goes on where the call has started, with the parameters that are left. -/
theorem runBody_entry (E : Engine) (args : List Value) :
    runBody E s.newScope f args span (entry f caller span binding s) =
      runBody E s.newScope { f with params := f.params.drop args.length } [] span
        (started f args caller span binding s) := by
  have hparams := bindParams_entered E (s := s) (frameOf f caller span s) f.span
    (constants_callScope f caller binding s) f.params args
  unfold runBody
  rw [bind_apply, bind_apply, entry, hparams, started]

end Function

/-! ### Moves -/

/-- A step that neither pushes a frame nor tells the listener of a call, or the beginning of a call
that is admitted. -/
inductive Move : State → State → Prop
  /-- Anything but frames and notices changes. -/
  | change {s t : State} : ClassStep s t → t.stack = s.stack → t.events = s.events →
      t.listening = s.listening → Move s t
  /-- The listener is told of a statement, or that a call is over. -/
  | told (s : State) {e : Notice} : (∀ c, e ≠ .call c) → Move s (s.notified e)
  /-- A call starts. -/
  | enter {s : State} {f : Closure} {args : List Value} {caller : Ref .scope} {span : Span}
      {binding : Binding} : Function.refusal? f args caller span s = none →
      Admitted s f args binding → Move s (Function.started f args caller span binding s)
  /-- A frame comes down. -/
  | leave {s : State} {task : Nat} {frame : Frame} {stack : CallStack} :
      s.stack.pop task = some (frame, stack) → Move s { s with stack }
  /-- A call is left to the end of a frame. -/
  | defer {s : State} {task : Nat} {d : Deferred} {stack : CallStack} :
      s.stack.edit task (fun f => { f with deferred := d :: f.deferred }) = some stack →
      Move s { s with stack }

/-- One move after another. -/
abbrev Moves : State → State → Prop := Relation.ReflTransGen Move

/-- Steps in which classes are declared, objects made and fields written to, as far as that is
allowed. -/
abbrev ClassSteps : State → State → Prop := Relation.ReflTransGen ClassStep

variable {s t : State}

/-- Only scopes change. -/
theorem Move.of_scopes (s : State) (scopes : ScopeTree) : Move s { s with scopes } :=
  .change (.apart rfl rfl rfl) rfl rfl rfl

/-- A move is a class step. -/
theorem Move.classStep (h : Move s t) : ClassStep s t := by
  cases h with
  | change h => exact h
  | told =>
    unfold State.notified
    split <;> exact .apart rfl rfl rfl
  | enter =>
    unfold Function.started State.entered State.notified
    split <;> exact .apart rfl rfl rfl
  | leave | defer => exact .apart rfl rfl rfl

/-- Moves are class steps. -/
theorem Moves.classSteps (h : Moves s t) : ClassSteps s t :=
  Relation.ReflTransGen.mono (fun _ _ => Move.classStep) _ _ h

namespace ClassSteps

/-- Class steps lead onward. -/
theorem onward (h : ClassSteps s t) : s.Onward t := by
  induction h with
  | refl => exact .refl s
  | tail _ hstep ih => exact ih.trans hstep.onward

/-- **Whatever steps are taken from a lawful state, the states are lawful.** -/
theorem lawful (h : ClassSteps s t) (hs : s.Lawful) : t.Lawful := by
  induction h with
  | refl => exact hs
  | tail _ hstep ih => exact hstep.lawful ih

end ClassSteps

/-- What happens while nothing runs is a move. -/
theorem Moves.of_idle (h : Idle s t) : Moves s t := by
  obtain ⟨_, _, _, rfl⟩ := h
  exact .single (.change (.apart rfl rfl rfl) rfl rfl rfl)

instance : Run.Guarantees Moves ClassSteps where
  refl _ := .refl
  trans := Relation.ReflTransGen.trans
  relied := Moves.classSteps
  rely_trans := Relation.ReflTransGen.trans

/-! ### Computations that go by moves -/

namespace Eval

variable {α β : Type} {K : Knowledge}

/-- In lawful states where `K` is known, the computation goes by moves, whatever class steps the
others take while it waits. -/
def Abides (K : Knowledge) (m : Eval α) : Prop :=
  ∀ s : State, s.Lawful → K.holds s → (m s).Along Moves ClassSteps s

namespace Abides

/-- A computation that needs to know nothing goes by moves whatever is known. -/
theorem of_nothing {m : Eval α} (hm : m.Abides .nothing) : m.Abides K :=
  fun s hs _ => hm s hs trivial

/-- A value at once is no move. -/
theorem pure (a : α) : Abides K (Pure.pure a : Eval α) := fun _ _ _ => .done .refl

/-- Nor is a run that stops at once. -/
theorem stop (why : Stop) : Abides K (fun s => .stop why s : Eval α) := fun _ _ _ => .stop .refl

/-- Nor is reading the state. -/
theorem gets (f : State → α) : Abides K (Eval.gets f) := fun _ _ _ => .done .refl

/-- Nor is a known result. -/
theorem conclude (r : Except Fault α) : Abides K (Eval.conclude r) := by
  cases r with
  | ok a => exact pure a
  | error f => exact stop (.fault f)

/-- A wait is no move; what happens meanwhile are class steps. -/
theorem await (w : Wait) : Abides K (Eval.await w) :=
  fun _ _ _ => .wait .refl fun _ _ _ => .done .refl

/-- What was known is known still, and the state is lawful still. -/
theorem bind {m : Eval α} {f : α → Eval β} (hm : m.Abides K) (hf : ∀ a, (f a).Abides K) :
    (m >>= f).Abides K :=
  fun s hs hK => bind_along (hm s hs hK) fun a t ht =>
    hf a t (ht.lawful hs) (K.lasts hK ht.onward)

/-- After a computation that does not wait, its answer is known, too. -/
theorem knowing {m : Eval α} {f : α → Eval β} (himm : m.Immediate) (hm : m.Abides K)
    (hf : ∀ a, (f a).Abides (K.after m a)) : (m >>= f).Abides K := by
  intro s hs hK
  have hrun := hm s hs hK
  -- the computation is over at once, so its answer is one that it gives in a lawful state
  obtain ⟨a, t, h⟩ | ⟨why, t, h⟩ := himm s
  · rw [h] at hrun
    rw [bind_of_done h]
    cases hrun with
    | done hst =>
      have ht : t.Lawful := hst.classSteps.lawful hs
      have hKt : K.holds t := K.lasts hK hst.classSteps.onward
      exact .after hst (hf a t ht ⟨hKt, s, t, hs, hK, h, ht, .refl t⟩)
  · rw [h] at hrun
    rw [bind_of_stop h]
    cases hrun with
    | stop hst => exact .stop hst

/-- An attempt goes by the moves of what is attempted. -/
theorem attempt {m : Eval α} (hm : m.Abides K) : (Eval.attempt m).Abides K :=
  fun s hs hK => attempt_along (hm s hs hK)

/-- What is changed keeps frames and notices as they are. -/
theorem modifyGet {f : State → α × State}
    (hf : ∀ s, s.Lawful → K.holds s → Move s (f s).2) : Abides K (Eval.modifyGet f) :=
  fun s hs hK => .done (.single (hf s hs hK))

/-- A change without an answer. -/
theorem modify {f : State → State} (hf : ∀ s, s.Lawful → K.holds s → Move s (f s)) :
    Abides K (Eval.modify f) :=
  modifyGet (f := fun s => ((), f s)) hf

/-- A quiet change is a move. -/
theorem quiet {f : State → α × State} (hf : ∀ s, QuietStep s (f s).2) :
    Abides K (Eval.modifyGet f) :=
  modifyGet fun s _ _ =>
    .change (.apart (hf s).classes (hf s).objects (hf s).closures) (hf s).stack (hf s).events
      (hf s).listening

/-- A notice other than that of a call is a move. -/
theorem notify {e : Notice} (he : ∀ c, e ≠ .call c) : Abides K (Eval.notify e) :=
  modify fun s _ _ => .told s he

/-- A turn is handed on by a wait, or not at all. -/
theorem yieldTurn : Abides K Eval.yieldTurn := by
  intro s hs hK
  unfold Eval.yieldTurn
  split
  · exact .wait .refl fun _ _ _ => .done .refl
  · exact .done .refl

/-- Showing the state to an observer is a wait. -/
theorem reveal (watched : Bool) : Abides K (Eval.reveal watched) := by
  cases watched with
  | false => exact pure ()
  | true => exact bind (await _) fun _ => pure _

/-! ### Names and scopes -/

/-- A name is written into a scope, or refused. -/
theorem writeName (c : Ref .scope) (name : String) (f : Scope → Scope) (span : Span) :
    Abides K (Eval.writeName c name f span) := by
  intro s _ _
  unfold Eval.writeName
  split
  · exact .stop .refl
  · exact .done (.single (.of_scopes s _))

/-- Work in a new scope, which is no matter of classes. -/
theorem within {task : State → Nat} {m : Eval (Ref .scope)} (hm : Opens task m)
    {f : Ref .scope → Eval α} (hf : ∀ inner, (f inner).Abides K) : (m >>= f).Abides K := by
  intro s hs hK
  obtain ⟨parent, owner, hopen⟩ := hm s
  have hmove : Moves s (s.withScope (.fresh parent (task s) owner)) := .single (.of_scopes s _)
  rw [bind_of_done hopen]
  exact .after hmove (hf _ _ (hmove.classSteps.lawful hs) (K.lasts hK hmove.classSteps.onward))

end Abides

end Eval

variable {E : Engine} {c : Ref .scope} {K : Knowledge} {α : Type}

/-- The activities of an engine go by moves. -/
structure Engine.Abides (E : Engine) : Prop where
  expr (scope : Ref .scope) (e : Expr) : (E.expr scope e).Abides .nothing
  stmt (scope : Ref .scope) (stmt : Stmt) : (E.stmt scope stmt).Abides .nothing
  call (scope : Ref .scope) (callee : Value) (args : List Value) (span : Span) :
    (E.call scope callee args span).Abides .nothing
  invoke (scope : Ref .scope) (receiver : Value) (name : String) (args : List Value)
    (span : Span) : (E.invoke scope receiver name args span).Abides .nothing
  cycle (scope : Ref .scope) (condition : Expr) (body : List Stmt) :
    (E.cycle scope condition body).Abides .nothing
  drain (scope : Ref .scope) (vars : LoopVars) (r : Ref .channel) (index : Nat)
    (body : List Stmt) : (E.drain scope vars r index body).Abides .nothing

/-! ### Calls -/

namespace Function

variable {caller : Ref .scope} {f : Closure} {args : List Value} {span : Span} {binding : Binding}

/-- The calls that were deferred go by moves, one after the other. -/
theorem runDeferred_abides (hE : E.Abides) (ds : List Deferred) (body : Except Fault Value) :
    (runDeferred E c ds body).Abides K := by
  induction ds generalizing body with
  | nil => exact .pure body
  | cons d ds ih =>
    rw [runDeferred_cons]
    exact .bind (.attempt (.of_nothing (hE.call c d.callee d.args d.span))) fun r => ih _

/-- The frame that comes down is a move, if there is one. -/
theorem popFrame_abides : (popFrame c).Abides K := by
  intro s _ _
  rw [popFrame_apply, lowered]
  cases hk : s.stack.pop (s.scopes.task c) with
  | none => exact .done .refl
  | some found => exact .done (.single (.leave hk))

/-- **A call that is admitted goes by moves:** it starts, its body runs, its frame comes down, and
what it has deferred is called. -/
theorem run_along (hE : E.Abides) {s : State} (hs : s.Lawful) (hK : K.holds s)
    (hadmitted : Admitted s f args binding)
    (hbody : ∀ inner f args, (runBody E inner f args span).Abides K) :
    (run E caller f args span binding s).Along Moves ClassSteps s := by
  rw [run_apply]
  cases hr : refusal? f args caller span s with
  | some e => exact .stop .refl
  | none =>
    have hstart : Moves s (started f args caller span binding s) :=
      .single (.enter hr hadmitted)
    have hstarted : (started f args caller span binding s).Lawful := hstart.classSteps.lawful hs
    have hKstarted : K.holds (started f args caller span binding s) :=
      K.lasts hK hstart.classSteps.onward
    dsimp only
    -- the parameters that have arguments are bound when the call starts, so the body begins behind
    -- them
    rw [bind_apply, attempt_apply, runBody_entry E args, ← attempt_apply]
    refine .after hstart (.andThen (attempt_along (hbody _ _ _ _ hstarted hKstarted)) ?_)
    intro body t ht
    -- the frame comes down whatever the body ended with
    have htail : Abides K (do
        let deferred ← popFrame s.newScope
        let result ← runDeferred E caller deferred body
        notify (returnEvent f caller span s)
        Eval.conclude result) := by
      refine .bind popFrame_abides fun deferred => ?_
      refine .bind (runDeferred_abides hE deferred body) fun result => ?_
      exact .bind (.notify nofun) fun _ => .conclude result
    exact htail t (ht.lawful hstarted) (K.lasts hKstarted ht.onward)

end Function

/-- **A method is called only with arguments that uphold its annotations.** -/
theorem Object.runMethod_abides (hE : E.Abides) {owner : Ref .classDef} {m : MethodDef}
    {args : List Value} {span : Span} (receiver : Option Value)
    (hmethod : ∀ s, s.Lawful → K.holds s → s.classes.HasMethod owner m)
    (hbody : ∀ inner f args, (Function.runBody E inner f args span).Abides K) :
    (runMethod E c receiver owner m args span).Abides K := by
  intro s hs hK
  -- arguments that break an annotation are refused before the call, and nothing has moved
  obtain ⟨hall, hrun⟩ | ⟨_, _, _, cause, -, -, -, hstop⟩ :=
    runMethod_cases span hs.classes E c receiver owner m args
  · rw [hrun]
    exact Function.run_along hE hs hK (.method rfl (hmethod s hs hK) hall) hbody
  · rw [hstop]
    exact .stop .refl

/-! ### Calls that happen later -/

namespace Capture

variable {e : Expr} {span : Span}

/-- A call is deferred by a move. -/
theorem defer_abides (hc : (callable E c e .badDefer span).Abides K) :
    (defer E c e span).Abides K := by
  refine .bind (.gets _) fun task => .bind (.gets _) fun frame => ?_
  split
  · exact .stop _
  · refine .bind hc fun ⟨callee, args⟩ s _ _ => ?_
    simp only [gets_bind_apply]
    generalize hk : s.stack.edit _ _ = k
    cases k with
    | some k => exact .done (.single (.defer hk))
    | none => exact .stop .refl

/-- A task is spawned by a move: it adds a scope and an entry to the list of tasks. -/
theorem spawn_abides (hc : (callable E c e .badSpawn span).Abides K) :
    (spawn E c e span).Abides K := by
  refine .bind hc fun ⟨callee, args⟩ s _ _ => ?_
  simp only [taskScope, modifyGet_bind_apply, modify_bind_apply]
  exact .done (.single (.change (.apart rfl rfl rfl) rfl rfl rfl))

end Capture

/-! ### Imports -/

namespace Import

variable {path : String} {span : Span}

/-- A module is evaluated in a scope of its own. -/
theorem evaluate_abides (loader : Loader)
    (hp : ∀ inner program, (E.program inner program).Abides K) :
    (evaluate E c loader path span).Abides K := by
  unfold evaluate
  split
  · exact .stop _
  · refine .within (rootScope_opens c) fun inner => .bind (.attempt (hp inner _)) fun result => ?_
    split
    · exact .modifyGet fun _ _ _ => .change (.apart rfl rfl rfl) rfl rfl rfl
    · split <;> exact .stop _

/-- A module is on the list of those in progress while it is evaluated, which is no matter of
classes. -/
theorem resolve_abides (hp : ∀ inner program, (E.program inner program).Abides K) :
    (resolve E c path span).Abides K := by
  refine .bind (.gets _) fun packages => ?_
  split
  · exact .stop _
  · next loader _ =>
    split
    · exact .pure _
    · split
      · exact .stop _
      · refine .bind (.modify fun _ _ _ => .change (.apart rfl rfl rfl) rfl rfl rfl) ?_
        intro _ s hs hK
        exact (evaluate_abides loader hp s hs hK).ensuring fun t =>
          .single (.change (.apart rfl rfl rfl) rfl rfl rfl)

end Import

/-! ### Levels -/

/-- **What is built from activities that go by moves goes by moves.** -/
theorem Eval.Built.abides (hE : E.Abides) {x : Site} {m : Eval α} (h : Built E K x c m) :
    m.Abides K := by
  -- one case a constructor; only `run` and `method` push frames, and both have admitted the call
  induction h with
  | pure a => exact .pure a
  | raise f => exact .stop (.fault f)
  | abort message => exact .stop (.abort message)
  | gets f => exact .gets f
  | await w => exact .await w
  | yieldTurn => exact .yieldTurn
  | bind _ _ ihm ihf => exact .bind ihm ihf
  | knowing himm _ _ ihm ihf => exact .knowing himm ihm ihf
  | attempt _ ih => exact .attempt ih
  | ensuring _ hf ih =>
    exact fun s hs hK => (ih s hs hK).ensuring fun t =>
      .single (.change (.apart (hf t).classes (hf t).objects (hf t).closures) (hf t).stack
        (hf t).events (hf t).listening)
  | modifyGet hf => exact .quiet hf
  | change hf hstep =>
    exact .modifyGet fun s hs hK =>
      .change (hstep s hs hK) (hf s).stack (hf s).events (hf s).listening
  | newBound receiver method span =>
    exact .modifyGet fun _ _ _ => .change (.apart rfl rfl rfl) rfl rfl rfl
  | statement line => exact .notify nofun
  | writeName span _ _ => exact .writeName _ _ _ span
  | rebindName name v span _ => exact .bind (.gets _) fun _ => .writeName _ _ _ span
  | within hm _ ih => exact .within hm ih
  | block hm _ ih => exact .within hm ih
  -- the call is admitted in every lawful state where `K` is known, so it is in this one
  | run hadmitted _ ih =>
    exact fun s hs hK => Function.run_along hE hs hK (hadmitted s hs hK) ih
  | method receiver hmethod _ _ _ ih => exact Object.runMethod_abides hE receiver hmethod ih
  | resolve _ ih => exact Import.resolve_abides ih
  | defer _ ih => exact Capture.defer_abides ih
  | spawn _ ih => exact Capture.spawn_abides ih
  | packaged _ _ ihnone ihsome =>
    refine .bind (.gets _) fun found => ?_
    cases found with
    | none => exact ihnone
    | some b => exact ihsome b
  | expr e _ => exact .of_nothing (hE.expr _ e)
  | stmt stmt => exact .of_nothing (hE.stmt _ stmt)
  | call callee args span => exact .of_nothing (hE.call _ callee args span)
  | invoke receiver name args span => exact .of_nothing (hE.invoke _ receiver name args span)
  | cycle condition body => exact .of_nothing (hE.cycle _ condition body)
  | drain vars r index body => exact .of_nothing (hE.drain _ vars r index body)

/-- An engine of no level makes no moves. -/
theorem Engine.idle_abides : Engine.idle.Abides where
  expr _ _ := .stop .exhausted
  stmt _ _ := .stop .exhausted
  call _ _ _ _ := .stop .exhausted
  invoke _ _ _ _ _ := .stop .exhausted
  cycle _ _ _ := .stop .exhausted
  drain _ _ _ _ _ := .stop .exhausted

/-- **Whatever an engine of any level does in lawful states, it goes by moves.** -/
theorem Engine.watched_abides (w : Bool) : ∀ n, (Engine.watched w n).Abides
  -- by induction on the level: the activities of a level are built from those of the one below
  | 0 => idle_abides
  | n + 1 =>
    have hn := watched_abides w n
    { expr := fun scope e =>
        .bind (.reveal w) fun _ => (Expr.eval_built (x := .expr scope) rfl e).abides hn
      stmt := fun scope stmt => .bind (.reveal w) fun _ => (Stmt.run_built scope stmt).abides hn
      call := fun scope callee args span => .bind (.reveal w) fun _ =>
        (Dispatch.call_built (x := .away) scope args callee span).abides hn
      invoke := fun scope receiver name args span => .bind (.reveal w) fun _ =>
        (Dispatch.invoke_built (x := .away) scope name args receiver span).abides hn
      cycle := fun scope condition body =>
        .bind (.reveal w) fun _ => (Stmt.cycle_built scope condition body).abides hn
      drain := fun scope vars r i body =>
        .bind (.reveal w) fun _ => (Stmt.drain_built scope vars r i body).abides hn }

/-- What class steps and lawful states come to is so at the end of every stretch. -/
theorem Eval.Abides.always {m : Eval α} (hm : m.Abides .nothing) (hs : s.Lawful)
    {P : State → State → Prop} (hP : ∀ {t u}, ClassSteps t u → u.Lawful → P t u) :
    (m s).Along P ClassSteps s := by
  have hlawful := (hm s hs trivial).always (I := State.Lawful)
    (fun ht htu => htu.classSteps.lawful ht) (fun ht htu => htu.lawful ht) hs
  exact hlawful.mono (fun htu => hP htu.1.classSteps htu.2) id

/-- The same without an observer. -/
theorem Engine.level_abides (n : Nat) : (Engine.level n).Abides :=
  watched_false n ▸ watched_abides false n

/-! ### Sessions -/

/-- A fresh interpreter is lawful: it has the built-in classes and nothing else. -/
theorem State.lawful_initial (setup : Setup) : (State.initial setup).Lawful :=
  ⟨ClassTable.sound_builtin, nofun, nofun, nofun⟩

/-- **Programs and tasks go by moves** when they start in lawful states. -/
theorem Schedule.rules_moves : Rules Moves ClassSteps State.Lawful where
  kept hs hst := hst.lawful hs
  idle := .of_idle
  handedOver _ := .single (.apart rfl rfl rfl)
  program p s hs := by
    have hbuilt := Engine.program_built (E := .top) (K := .nothing) State.root p
    exact hbuilt.abides (Engine.level_abides _) s hs trivial
  spawned d _ s hs := by
    have hbuilt := Dispatch.call_built (E := .top) (x := .away) d.scope d.args d.callee d.span
    exact hbuilt.abides (Engine.level_abides _) s hs trivial

namespace Session

variable (setup : Setup) (programs : List Program)

/-- A session leaves lawful states behind, and tasks that will go by moves. -/
theorem lawful_and_keep : ((start setup).runAll programs).2.state.Lawful ∧
    Task.AllKeep Moves ClassSteps ((start setup).runAll programs).2.state
      ((start setup).runAll programs).2.tasks := by
  have hstart : (start setup).state.Lawful := State.lawful_initial setup
  obtain ⟨hsteps, hkeep⟩ := Schedule.rules_moves.runAll hstart nofun programs
  exact ⟨hsteps.lawful hstart, hkeep⟩

/-- **A session leaves lawful states behind,** whatever programs it has run. -/
theorem lawful : ((start setup).runAll programs).2.state.Lawful :=
  (lawful_and_keep setup programs).1

/-- A session that goes on takes class steps. -/
theorem classSteps_runAll (later : List Program) :
    ClassSteps ((start setup).runAll programs).2.state
      (((start setup).runAll programs).2.runAll later).2.state := by
  obtain ⟨hlawful, hkeep⟩ := lawful_and_keep setup programs
  exact (Schedule.rules_moves.runAll hlawful hkeep later).1

end Session

end ScriptEngine
