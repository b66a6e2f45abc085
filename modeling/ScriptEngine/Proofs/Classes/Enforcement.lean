import ScriptEngine.Eval.Capture
import ScriptEngine.Proofs.Classes.Ancestors

/-!
# Annotations are enforced

There are several ways to get to a method: it is called on an object, through its class or through
`super`, with a packaged method that was deferred, spawned or passed around, or as `init` by `new`.
All of them come to the same call (`Object.WayIn.eq_run`, `Object.initialise_eq_run`), for which the
annotations are checked: if it upholds them it starts, otherwise it is over with nothing done
(`MethodCall.run_cases`).

That there is no other way is what the moves say. Frames are pushed by `Move.enter` only, so every
frame on the stack belongs to a call that was admitted when it started (`Moves.exists_entered`), and
whatever an engine does goes by moves. The function of a method is no value and no accessor, by what
it was written as, so a call of it is admitted as that of a method only (`Admitted.enforced`); and who
asks for a method as a value gets it packaged, which is one more way to the same call
(`Object.Taken.eq_newBound`). All of it together is `Engine.methods_enforce`.
-/

namespace ScriptEngine

open Eval

/-! ### The functions of methods -/

namespace ClassTable

variable {t : ClassTable} {owner : Ref .classDef}

/-- The function is that of a method of some class. -/
def HasCode (t : ClassTable) (f : Closure) : Prop :=
  ∃ owner m, t.HasMethod owner m ∧ m.closure = f

/-- A method was written as one. -/
theorem Sound.origin_of_hasMethod (h : t.Sound) {m : MethodDef} (hm : t.HasMethod owner m) :
    m.closure.origin = .method := by
  obtain ⟨c, hc, hget⟩ := hm
  exact (h.written hc).method hget

/-- So was an accessor. -/
theorem Sound.origin_of_hasAccessor (h : t.Sound) {f : Closure} (hf : t.HasAccessor owner f) :
    f.origin = .accessor := by
  cases hf with
  | getter hc hp hf => exact (h.written hc).property hp (.inl hf)
  | setter hc hp hf => exact (h.written hc).property hp (.inr hf)
  | indexGetter hc hi hf => exact (h.written hc).indexer hi (.inl hf)
  | indexSetter hc hi hf => exact (h.written hc).indexer hi (.inr hf)

/-- The function of a method was written as one. -/
theorem Sound.origin_of_hasCode (h : t.Sound) {f : Closure} (hf : t.HasCode f) :
    f.origin = .method := by
  obtain ⟨owner, m, hm, rfl⟩ := hf
  exact h.origin_of_hasMethod hm

/-- A class has one method for a function. -/
theorem HasMethod.eq_of_closure_eq {m m' : MethodDef} (hm : t.HasMethod owner m)
    (hm' : t.HasMethod owner m') (h : m'.closure = m.closure) : m' = m := by
  obtain ⟨c, hc, hget⟩ := hm
  obtain ⟨c', hc', hget'⟩ := hm'
  obtain rfl := Option.some.inj (hc.symm.trans hc')
  rw [h, hget] at hget'
  exact (Option.some.inj hget').symm

end ClassTable

/-- The function is called as a method of a class that declares it as one, with arguments that
uphold the annotations it has there. -/
def Enforced (s : State) (f : Closure) (args : List Value) (binding : Binding) : Prop :=
  ∃ owner, binding.owner = some owner ∧ (∃ m, s.classes.HasMethod owner m ∧ m.closure = f) ∧
    ∀ m, s.classes.HasMethod owner m → m.closure = f → ∀ a ∈ m.annotations, Upheld s owner f args a

/-- The function of a method is never a value by itself. -/
theorem State.Lawful.not_hasCode {s : State} (hs : s.Lawful) {r : Ref .closure} {f : Closure}
    (hr : s.heap.closures.get? r = some f) : ¬ s.classes.HasCode f := fun hcode =>
  nomatch (hs.functions hr).symm.trans (hs.classes.origin_of_hasCode hcode)

/-- **The code of a method starts as that of a method.** Of the calls that are admitted, those of
values and of accessors are of other functions. -/
theorem Admitted.enforced {s : State} (hs : s.Lawful) {f : Closure} {args : List Value}
    {binding : Binding} (h : Admitted s f args binding) (hcode : s.classes.HasCode f) :
    Enforced s f args binding := by
  -- by what it was written as, the function belongs to one of the three kinds of calls only
  cases h with
  | function hr => exact absurd hcode (hs.not_hasCode hr)
  | accessor hacc =>
    exact nomatch (hs.classes.origin_of_hasAccessor hacc).symm.trans
      (hs.classes.origin_of_hasCode hcode)
  | method hf hm hall =>
    subst hf
    exact ⟨_, rfl, ⟨_, hm, rfl⟩, fun m' hm' heq => hm.eq_of_closure_eq hm' heq ▸ hall⟩

/-! ### Frames that were pushed -/

/-- Frames of the same call, with the calls that are deferred on them aside. -/
structure Frame.SameCall (f g : Frame) : Prop where
  function : g.function = f.function
  task : g.task = f.task
  callSpan : g.callSpan = f.callSpan

/-- A frame is one of its own call. -/
theorem Frame.SameCall.refl (f : Frame) : f.SameCall f := ⟨rfl, rfl, rfl⟩

/-- Frames of the same call are so among each other. -/
theorem Frame.SameCall.trans {f g h : Frame} (hfg : f.SameCall g) (hgh : g.SameCall h) :
    f.SameCall h :=
  ⟨hgh.function.trans hfg.function, hgh.task.trans hfg.task, hgh.callSpan.trans hfg.callSpan⟩

/-- The frame was pushed on the way from `s` to `t`, for a call that was admitted; and if the
function is that of a method, it was called as one. -/
def Frame.Entered (s t : State) (g : Frame) : Prop :=
  ∃ (u : State) (f : Closure) (args : List Value) (caller : Ref .scope) (span : Span)
    (binding : Binding), Moves s u ∧ Admitted u f args binding ∧
      (u.classes.HasCode f → Enforced u f args binding) ∧
      (Function.frameOf f caller span u).SameCall g ∧
      Moves (Function.started f args caller span binding u) t

variable {s t : State}

/-- What a move does to frames: one of a call that starts is new, the others were there. -/
theorem Move.frame_cases (h : Move s t) {g : Frame} (hg : g ∈ t.stack.frames) :
    -- what is looked at is in what a move does to the stack; only `enter` adds a frame to it
    (∃ f ∈ s.stack.frames, f.SameCall g) ∨
    ∃ f args caller span binding, Admitted s f args binding ∧
      g = Function.frameOf f caller span s ∧ t = Function.started f args caller span binding s := by
  cases h with
  | change _ hstack => exact .inl ⟨g, hstack ▸ hg, .refl g⟩
  | told => exact .inl ⟨g, State.notified_stack s _ ▸ hg, .refl g⟩
  | @enter f args caller span binding _ hadmitted =>
    rw [Function.started, State.entered_stack] at hg
    obtain rfl | hg := List.mem_cons.mp hg
    · exact .inr ⟨f, args, caller, span, binding, hadmitted, rfl, rfl⟩
    · exact .inl ⟨g, hg, .refl g⟩
  | leave hpop =>
    obtain ⟨⟨f, rest⟩, hrest, he⟩ := Option.map_eq_some_iff.mp hpop
    cases he
    obtain ⟨-, front, back, hframes, rfl, -⟩ := CallStack.takeFirst_eq_some hrest
    refine .inl ⟨g, ?_, .refl g⟩
    rw [hframes]
    grind
  | defer hedit =>
    obtain ⟨edited, hedited, rfl⟩ := Option.map_eq_some_iff.mp hedit
    obtain ⟨f, front, back, -, hframes, rfl, -⟩ := CallStack.editFirst_eq_some hedited
    rw [hframes]
    -- the frame is the one that was edited, or another one
    obtain hg | hg := List.mem_append.mp hg
    · exact .inl ⟨g, by grind, .refl g⟩
    · obtain rfl | hg := List.mem_cons.mp hg
      · exact .inl ⟨f, by grind, rfl, rfl, rfl⟩
      · exact .inl ⟨g, by grind, .refl g⟩

/-- **Every frame was there before, or belongs to a call that was admitted when it started.** -/
theorem Moves.exists_entered (hs : s.Lawful) (h : Moves s t) {g : Frame}
    (hg : g ∈ t.stack.frames) : (∃ f ∈ s.stack.frames, f.SameCall g) ∨ g.Entered s t := by
  -- by induction on the moves: a frame of the last state was there before the last move, or the
  -- move has pushed it
  induction h generalizing g with
  | refl => exact .inl ⟨g, hg, .refl g⟩
  | @tail t u hst htu ih =>
    obtain ⟨f, hf, hfg⟩ | ⟨f, args, caller, span, binding, hadmitted, rfl, rfl⟩ :=
      htu.frame_cases hg
    · obtain ⟨f', hf', hsame⟩ | ⟨v, f', args, caller, span, binding, hsv, hadmitted, hcode, hsame,
        hvt⟩ := ih hf
      · exact .inl ⟨f', hf', hsame.trans hfg⟩
      · exact .inr ⟨v, f', args, caller, span, binding, hsv, hadmitted, hcode, hsame.trans hfg,
          hvt.tail htu⟩
    -- the state in which it was pushed has been reached by class steps, so it is lawful
    · have ht : t.Lawful := (Moves.classSteps hst).lawful hs
      exact .inr ⟨t, f, args, caller, span, binding, hst, hadmitted, hadmitted.enforced ht,
        .refl _, .refl⟩

/-! ### Ways in -/

/-- The call of a method that a class declares. -/
structure MethodCall where
  E : Engine
  scope : Ref .scope
  receiver : Option Value
  owner : Ref .classDef
  method : MethodDef
  args : List Value
  span : Span

namespace MethodCall

/-- What the call does. -/
def run (c : MethodCall) : Eval Value :=
  Object.runMethod c.E c.scope c.receiver c.owner c.method c.args c.span

/-- What the call does once its annotations have been checked. -/
def start (c : MethodCall) : Eval Value :=
  Function.run c.E c.scope c.method.closure c.args c.span ⟨c.receiver, some c.owner⟩

/-- The call does what the annotations of the method ask for. -/
def Upholds (s : State) (c : MethodCall) : Prop :=
  ∀ a ∈ c.method.annotations, Upheld s c.owner c.method.closure c.args a

/-- The call fails in the state, with the code of something that an annotation of the method asks
for and that it does not do. -/
def Refused (s : State) (c : MethodCall) (r : Run Value) : Prop :=
  ∃ a ∈ c.method.annotations, ∃ k cause, s.classes.Descends a (ClassTable.marking k) ∧
    Violation s c.owner c.method.closure c.args a cause ∧ cause.code = k.code ∧
    r = .stop (.fault ⟨cause, c.span⟩) s

/-- **A call that upholds the annotations starts, and any other is refused.** -/
theorem run_cases (hs : s.Lawful) (c : MethodCall) :
    (c.Upholds s → c.run s = c.start s) ∧ (¬ c.Upholds s → c.Refused s (c.run s)) := by
  -- all annotations are upheld, or the first one that is not is refused with its code
  obtain ⟨hall, hrun⟩ | ⟨before, a, after, cause, hsplit, -, hviolation, hstop⟩ :=
    Object.runMethod_cases c.span hs.classes c.E c.scope c.receiver c.owner c.method c.args
  · exact ⟨fun _ => hrun, fun hnot => absurd hall hnot⟩
  · have ha : a ∈ c.method.annotations := by
      rw [hsplit]
      simp
    obtain ⟨k, hdesc, hcode⟩ := hviolation.exists_code
    exact ⟨fun hall => absurd (hall a ha) hviolation.not_upheld,
      fun _ => ⟨a, ha, k, cause, hdesc, hviolation, hcode, hstop⟩⟩

end MethodCall

namespace Object

/-- **The ways into a method:** in the state `s`, the run is that of something that gets to the call
of a method. -/
inductive WayIn (s : State) : Run Value → MethodCall → Prop
  /-- The method is called on an object. -/
  | object {E : Engine} {scope : Ref .scope} {r : Ref .object} {cls owner : Ref .classDef}
      {name : String} {m : MethodDef} {args : List Value} {span : Span} : s.IsOf r cls →
      s.classes.findMethod cls name = some (owner, m) → m.isStatic = false →
      mayUse s scope owner m.visibility = true →
      WayIn s (invoke E scope r name args span s)
        ⟨E, scope, some (.object r), owner, m, args, span⟩
  /-- The method is called through a class. -/
  | classDef {E : Engine} {scope : Ref .scope} {cls owner : Ref .classDef} {name : String}
      {m : MethodDef} {args : List Value} {span : Span} :
      s.classes.findMethod cls name = some (owner, m) → m.isStatic = true →
      mayUse s scope owner m.visibility = true →
      WayIn s (invokeStatic E scope cls name args span s)
        ⟨E, scope, some (.classDef cls), owner, m, args, span⟩
  /-- The method is called through `super`, once the arguments are there. -/
  | inherited {E : Engine} {scope : Ref .scope} {current owner : Ref .classDef} {name : String}
      {receiver : Option Value} {m : MethodDef} {args : List Value} {span : Span} :
      s.classes.findInherited current name = some (owner, m) →
      mayUse s scope owner m.visibility = true →
      WayIn s (invokeInherited E scope current receiver name args span s)
        ⟨E, scope, receiver, owner, m, args, span⟩
  /-- A value is asked for the method. -/
  | ofObject {E : Engine} {scope : Ref .scope} {r : Ref .object} {name : String}
      {args : List Value} {span : Span} {c : MethodCall} :
      WayIn s (invoke E scope r name args span s) c →
      WayIn s (Dispatch.invoke E scope (.object r) name args span s) c
  | ofClass {E : Engine} {scope : Ref .scope} {r : Ref .classDef} {name : String}
      {args : List Value} {span : Span} {c : MethodCall} :
      WayIn s (invokeStatic E scope r name args span s) c →
      WayIn s (Dispatch.invoke E scope (.classDef r) name args span s) c
  /-- The method has been packaged, and is called as a value. -/
  | packaged {E : Engine} {scope : Ref .scope} {r : Ref .bound} {b : Bound} {args : List Value}
      {span : Span} {c : MethodCall} : s.heap.bounds.get? r = some b →
      WayIn s (E.invoke b.scope b.receiver b.method args b.span s) c →
      WayIn s (Dispatch.call E scope (.bound r) args span s) c
  /-- An engine is asked to do so, by a call that has been deferred for example. -/
  | invoke {n : Nat} {scope : Ref .scope} {receiver : Value} {name : String} {args : List Value}
      {span : Span} {c : MethodCall} :
      WayIn s (Dispatch.invoke (.level n) scope receiver name args span s) c →
      WayIn s ((Engine.level (n + 1)).invoke scope receiver name args span s) c
  | call {n : Nat} {scope : Ref .scope} {callee : Value} {args : List Value} {span : Span}
      {c : MethodCall} :
      WayIn s (Dispatch.call (.level n) scope callee args span s) c →
      WayIn s ((Engine.level (n + 1)).call scope callee args span s) c
  /-- The call has been spawned, and its task starts. -/
  | spawned {d : Spawned} {answer : Answer} {c : MethodCall} :
      WayIn s (Dispatch.call .top d.scope d.callee d.args d.span s) c →
      WayIn s ((Schedule.ofSpawned d).resume answer s) c

/-- **A method as a value:** in the state `s`, the run is that of something that is asked for a method
of the receiver without calling it. -/
inductive Taken (s : State) (scope : Ref .scope) (name : String) (span : Span) :
    Run Value → Value → Prop
  /-- An object has neither a field nor a property of the name, and its class has the method. -/
  | object {E : Engine} {r : Ref .object} {cls owner : Ref .classDef} {m : MethodDef} :
      s.IsOf r cls → s.classes.findField cls name = none → s.classes.findProperty cls name = none →
      s.classes.findMethod cls name = some (owner, m) → m.isStatic = false →
      mayUse s scope owner m.visibility = true →
      Taken s scope name span (get E scope r name span s) (.object r)
  /-- A class has no static field of the name, and the method is static. -/
  | classDef {cls owner : Ref .classDef} {m : MethodDef} : s.classes.findStatic cls name = none →
      s.classes.findMethod cls name = some (owner, m) → m.isStatic = true →
      Taken s scope name span (getStatic scope cls name span s) (.classDef cls)
  /-- A value is asked for its member. -/
  | ofObject {E : Engine} {r : Ref .object} :
      Taken s scope name span (get E scope r name span s) (.object r) →
      Taken s scope name span (Access.getMember E scope (.object r) name span s) (.object r)
  | ofClass {E : Engine} {r : Ref .classDef} :
      Taken s scope name span (getStatic scope r name span s) (.classDef r) →
      Taken s scope name span (Access.getMember E scope (.classDef r) name span s) (.classDef r)

variable {E : Engine} {scope : Ref .scope} {cls owner : Ref .classDef} {m : MethodDef}
  {name : String} {args : List Value} {span : Span}

/-- A method that may be used is not refused. -/
theorem requireMethod_of_mayUse (h : mayUse s scope owner m.visibility = true) :
    requireMethod scope owner m.visibility name span s = .done () s := by
  unfold requireMethod
  rw [gets_bind_apply, h]
  rfl

/-- On an object the method that its class finds is called. -/
theorem invoke_eq_run {r : Ref .object} (hr : s.IsOf r cls)
    (hm : s.classes.findMethod cls name = some (owner, m)) (hstatic : m.isStatic = false)
    (huse : mayUse s scope owner m.visibility = true) :
    invoke E scope r name args span s =
      runMethod E scope (some (.object r)) owner m args span s := by
  obtain ⟨o, ho, rfl⟩ := hr
  unfold invoke classOf
  simp only [gets_bind_apply, ho, Option.map_some, Option.getD_some, hm, hstatic]
  exact bind_of_done (requireMethod_of_mayUse huse) _

/-- Through a class the static method that it finds is called. -/
theorem invokeStatic_eq_run (hm : s.classes.findMethod cls name = some (owner, m))
    (hstatic : m.isStatic = true) (huse : mayUse s scope owner m.visibility = true) :
    invokeStatic E scope cls name args span s =
      runMethod E scope (some (.classDef cls)) owner m args span s := by
  unfold invokeStatic
  simp only [gets_bind_apply, hm, hstatic, if_true]
  exact bind_of_done (requireMethod_of_mayUse huse) _

/-- Through `super` the method that is found above is called. -/
theorem invokeInherited_eq_run {receiver : Option Value}
    (hm : s.classes.findInherited cls name = some (owner, m))
    (huse : mayUse s scope owner m.visibility = true) :
    invokeInherited E scope cls receiver name args span s =
      runMethod E scope receiver owner m args span s := by
  unfold invokeInherited
  simp only [gets_bind_apply, hm]
  exact bind_of_done (requireMethod_of_mayUse huse) _

/-- The method `init` of a new object is run like any other. -/
theorem initialise_eq_run {r : Ref .object}
    (hm : s.classes.findMethod cls "init" = some (owner, m)) :
    initialise E scope r cls args span s =
      (runMethod E scope (some (.object r)) owner m args span s).andThen
        fun _ t => .done () t := by
  unfold initialise
  simp only [gets_bind_apply, hm]
  exact bind_apply _ _ s

/-- **All ways lead to the same place.** -/
theorem WayIn.eq_run {r : Run Value} {c : MethodCall} (h : WayIn s r c) : r = c.run s := by
  -- by induction on how the call gets to the method: each way hands it on, and three of them call
  -- it
  induction h with
  | object hr hm hstatic huse => exact invoke_eq_run hr hm hstatic huse
  | classDef hm hstatic huse => exact invokeStatic_eq_run hm hstatic huse
  | inherited hm huse => exact invokeInherited_eq_run hm huse
  -- a packaged method is called in the scope that packaged it
  | packaged hb _ ih =>
    rw [← ih]
    simp only [Dispatch.call, gets_bind_apply, hb]
  | ofObject _ ih | ofClass _ ih | invoke _ ih | call _ ih | spawned _ ih => exact ih

/-- **Who takes a method gets it packaged.** -/
theorem Taken.eq_newBound {r : Run Value} {receiver : Value}
    (h : Taken s scope name span r receiver) : r = newBound receiver name scope span s := by
  induction h with
  -- an object is asked for a field first, then for a property, then for a method
  | object hr hfield hproperty hm hstatic huse =>
    obtain ⟨o, ho, rfl⟩ := hr
    unfold get classOf
    simp only [gets_bind_apply, ho, Option.map_some, Option.getD_some, hfield, hproperty, hm,
      hstatic]
    exact bind_of_done (requireMethod_of_mayUse huse) _
  | classDef hfield hm hstatic =>
    unfold getStatic
    simp only [gets_bind_apply, hfield, hm, hstatic, if_true]
  | ofObject _ ih | ofClass _ ih => exact ih

end Object

/-- A call of a method that is deferred or spawned is captured with the method packaged. -/
theorem Capture.call?_methodCall {E : Engine} {scope : Ref .scope} {object : Expr}
    (hspace : Access.namespace? scope object s = .done none s) (method : String)
    (args : List Expr) (span : Span) :
    call? E scope ⟨.methodCall object method args, span⟩ s =
      (do
        let callee ← newBound (← E.expr scope object) method scope span
        return some (callee, ← E.exprs scope args) : Eval (Option (Value × List Value))) s := by
  unfold call?
  exact bind_of_done hspace _

/-- **Annotations are enforced on every way into a method.** Take the state that a session is in
after any programs, or what has become of it since by class steps; and any activity of an engine of
any level, watched or not. Up to each of its waits and to its end it goes by moves, so that a frame
is only ever pushed for a call that is admitted. The same goes for the programs that a session runs,
with all of their tasks.

In no state that is reached on the way is the function of a method a value of its own, and the calls
of it that are admitted are those of a method whose arguments uphold the annotations. So a method
that is asked for as a value, deferred or spawned is packaged, and a packaged method is called like
any other.

Whichever way a call gets to a method, as `init` too, it is the same one. If it does what the
annotations ask for, it starts. Otherwise it fails with the code of an annotation for which it does
not, and the state is as before. -/
theorem Engine.methods_enforce {setup : Setup} {programs : List Program} {s : State}
    (hs : ClassSteps ((Session.start setup).runAll programs).2.state s) (w : Bool) (n : Nat)
    (scope : Ref .scope) :
    ((∀ program, ((watched w n).program scope program s).Along Moves ClassSteps s) ∧
      (∀ e, ((watched w n).expr scope e s).Along Moves ClassSteps s) ∧
      (∀ stmt, ((watched w n).stmt scope stmt s).Along Moves ClassSteps s) ∧
      (∀ callee args span,
        ((watched w n).call scope callee args span s).Along Moves ClassSteps s) ∧
      (∀ receiver name args span,
        ((watched w n).invoke scope receiver name args span s).Along Moves ClassSteps s)) ∧
    (∀ program, Moves ((Session.start setup).runAll programs).2.state
      (Schedule.runMain Schedule.maxRounds
        (Engine.top.program State.root program ((Session.start setup).runAll programs).2.state)
        ((Session.start setup).runAll programs).2.tasks).2.2) ∧
    (∀ t u, ClassSteps ((Session.start setup).runAll programs).2.state t → Moves t u →
      ∀ g ∈ u.stack.frames, (∃ f ∈ t.stack.frames, f.SameCall g) ∨ g.Entered t u) ∧
    (∀ u, ClassSteps ((Session.start setup).runAll programs).2.state u →
      (∀ r f, u.heap.closures.get? r = some f → ¬ u.classes.HasCode f) ∧
      ∀ f args binding, Admitted u f args binding → u.classes.HasCode f →
        Enforced u f args binding) ∧
    ((∀ inner name span r receiver, Object.Taken s inner name span r receiver →
        r = newBound receiver name inner span s) ∧
      ∀ object method args span, Access.namespace? scope object s = .done none s →
        Capture.call? (watched w n) scope ⟨.methodCall object method args, span⟩ s =
          (do
            let callee ← newBound (← (watched w n).expr scope object) method scope span
            return some (callee, ← (watched w n).exprs scope args) :
            Eval (Option (Value × List Value))) s) ∧
    (∀ r c, Object.WayIn s r c → r = c.run s) ∧
    (∀ (c : MethodCall) r cls, c.receiver = some (.object r) →
      s.classes.findMethod cls "init" = some (c.owner, c.method) →
      Object.initialise c.E c.scope r cls c.args c.span s =
        (c.run s).andThen fun _ t => .done () t) ∧
    ∀ c : MethodCall, (c.Upholds s → c.run s = c.start s) ∧
      (¬ c.Upholds s → c.Refused s (c.run s)) := by
  obtain ⟨hsession, hkeep⟩ := Session.lawful_and_keep setup programs
  have hlawful : s.Lawful := hs.lawful hsession
  have hE : (watched w n).Abides := watched_abides w n
  refine ⟨⟨fun program => ?_, fun e => ?_, fun stmt => ?_, fun callee args span => ?_,
    fun receiver name args span => ?_⟩, fun program => ?_, fun t u ht htu g hg => ?_,
    fun u hu => ⟨fun r f hr => ?_, fun f args binding h hcode => ?_⟩,
    ⟨fun inner name span r receiver h => h.eq_newBound,
      fun object method args span h => Capture.call?_methodCall h method args span⟩,
    fun r c hway => hway.eq_run, fun c r cls hr hm => ?_, fun c => c.run_cases hlawful⟩
  · exact (program_built (K := .nothing) scope program).abides hE s hlawful trivial
  · exact hE.expr scope e s hlawful trivial
  · exact hE.stmt scope stmt s hlawful trivial
  · exact hE.call scope callee args span s hlawful trivial
  · exact hE.invoke scope receiver name args span s hlawful trivial
  -- the scheduler runs the program and its tasks, each of which keeps to moves
  · have hmain := Schedule.rules_moves.program program hsession
    exact (Schedule.rules_moves.runMain Schedule.maxRounds hsession hmain hkeep).1
  · exact htu.exists_entered (ht.lawful hsession) hg
  · exact (hu.lawful hsession).not_hasCode hr
  · exact h.enforced (hu.lawful hsession) hcode
  · rw [MethodCall.run, hr]
    exact Object.initialise_eq_run hm

/-- An annotation below `NotNull`. -/
def required : ClassDef :=
  { ClassTable.bare "Required" .marking none with parent := some (ClassTable.marking .notNull) }

/-- A method with that annotation, which takes an argument. -/
def keepMethod : MethodDef :=
  ⟨⟨"keep", [⟨"x", none⟩], [], State.root, .unknown, .method⟩, .isPublic, false, [⟨4⟩]⟩

/-- A class with that method. -/
def keeping : ClassDef :=
  { ClassTable.bare "Keeper" .normal none with
    parent := some ClassTable.base, methods := .insert .empty "keep" keepMethod }

/-- The class has an object. -/
def keeper : State :=
  let s := State.initial bare
  { s with
    classes := ((s.classes.add required).2.add keeping).2
    heap := { s.heap with objects := (s.heap.objects.add ⟨⟨5⟩, .empty⟩).2 } }

/-- The method is called on that object. -/
def keep (v : Value) : MethodCall :=
  ⟨.level 0, State.root, some (.object ⟨0⟩), ⟨5⟩, keepMethod, [v], .unknown⟩

/-- Without a value the call is refused, for the annotation that `Required` descends from; with a
value it starts. -/
theorem Engine.methods_enforce_required :
    ClassSteps ((Session.start bare).runAll []).2.state keeper ∧
    (keep .nil).Refused keeper
      (Object.invoke (.level 0) State.root ⟨0⟩ "keep" [.nil] .unknown keeper) ∧
    Object.invoke (.level 0) State.root ⟨0⟩ "keep" [.bool true] .unknown keeper =
      (keep (.bool true)).start keeper := by
  have hsteps : ClassSteps ((Session.start bare).runAll []).2.state keeper := by
    let s : State := { State.initial bare with classes := (ClassTable.builtin.add required).2 }
    let t : State := { State.initial bare with classes := (s.classes.add keeping).2 }
    have hrequired : ClassStep (State.initial bare) s :=
      .newClass ⟨fun p hp => by cases hp; exact ⟨_, rfl, rfl⟩, (by cases ·), rfl,
        fun _ _ h => (by cases h), (ClassDef.Written.bare ..).of_parent _⟩ rfl rfl rfl
    have hgrown := Declaration.Grown.method
      { ClassTable.bare "Keeper" .normal none with parent := some ClassTable.base }
      (m := keepMethod) rfl rfl
    have hkeeping : ClassStep s t :=
      .newClass ⟨fun p hp => by cases hp; exact ⟨_, rfl, rfl⟩, (by cases ·), rfl,
        hgrown.methods nofun, hgrown.written ((ClassDef.Written.bare ..).of_parent _)⟩ rfl rfl rfl
    exact .tail (.tail (.single hrequired) hkeeping) (.newObject rfl rfl rfl rfl)
  have hway : ∀ v, Object.WayIn keeper
      (Object.invoke (.level 0) State.root ⟨0⟩ "keep" [v] .unknown keeper) (keep v) :=
    fun _ => .object ⟨_, rfl, rfl⟩ rfl rfl rfl
  have hasked : keeper.classes.Descends ⟨4⟩ (ClassTable.marking .notNull) :=
    .parent rfl rfl (.refl _)
  obtain ⟨-, -, -, -, -, hways, -, hcalls⟩ := methods_enforce hsteps false 0 State.root
  refine ⟨hsteps, ?_, ?_⟩
  · rw [hways _ _ (hway .nil)]
    refine (hcalls (keep .nil)).2 fun hupholds => ?_
    -- the annotation asks for a value, and there is none
    exact nomatch (hupholds ⟨4⟩ (.head _)).notNull hasked .nil (.head _)
  · rw [hways _ _ (hway (.bool true))]
    refine (hcalls (keep (.bool true))).1 fun a ha => ?_
    obtain rfl := List.mem_singleton.mp ha
    exact .of_markerOf (hsteps.lawful (Session.lawful bare [])).classes rfl nofun
      (fun _ v hv => List.mem_singleton.mp hv ▸ rfl) nofun

end ScriptEngine
