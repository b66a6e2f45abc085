import ScriptEngine.Proofs.Classes.Enforcement
import ScriptEngine.Proofs.Classes.Inheritance
import ScriptEngine.Proofs.Visibility

/-!
# Calls through `super`

Which class `super` is relative to is read off the scope that the call is made in. The call of a
method opens a scope for its class, and what belongs to its body runs in that scope or in scopes
nested in it: those of blocks, and those of calls of functions that were made there, wherever they
are called from (`Function.BodyScope`). None of them has a class of its own, and this is what they
keep, however the tree grows (`BodyScope.inBody`). So the class that is found is the one that
declares the method, whatever the class of the receiver (`ScopeTree.InBody.currentClass?_eq`).

From there on it is a matter of classes: a call through `super` is that of the nearest definition
above the declaring class (`Object.invokeInherited_outcome`).
-/

namespace ScriptEngine

open Eval

/-! ### Scopes of a body -/

namespace ScopeTree

variable {t u : ScopeTree} {m r : Ref .scope} {cls : Ref .classDef} {n : Scope} {name : String}
  {v : Value}

/-- What a scope itself binds a name to. -/
def local? (t : ScopeTree) (r : Ref .scope) (name : String) : Option Value :=
  (t.node? r).bind (·.bindings.get? name)

/-- The scope `r` belongs to the body of a call that was made in the scope `m` for the class
`cls`. -/
structure InBody (t : ScopeTree) (cls : Ref .classDef) (m r : Ref .scope) : Prop where
  inside : t.Inside (·.owner = none) m r
  owner : ∃ n, t.node? m = some n ∧ n.owner = some cls

/-- In the scope `r` of a body, a name is what the scope `m` of the call binds it to: no scope in
between binds the name. -/
structure Sees (t : ScopeTree) (name : String) (v : Value) (m r : Ref .scope) : Prop where
  inside : t.Inside (fun n => n.owner = none ∧ n.holds name = false) m r
  value : t.local? m name = some v

/-- A scope keeps its class. -/
theorem Extends.owner_eq (h : t.Extends u) {n' : Scope} (hn : t.node? r = some n)
    (hn' : u.node? r = some n') : n'.owner = n.owner := by
  obtain ⟨l, hl, -, -, howner⟩ := h r n hn
  rwa [Option.some.inj (hl.symm.trans hn')] at howner

namespace InBody

/-- **The class of a body** is the class that the call was made for. -/
theorem currentClass?_eq (h : t.InBody cls m r) : t.currentClass? r = some cls := by
  obtain ⟨n, hm, howner⟩ := h.owner
  -- no scope on the way has a class, so the search for one ends at the scope of the call
  rw [currentClass?, h.inside.nearest?_eq (p := (·.owner.isSome)) (fun n hn => by simp [hn]) hm
    (by simp [howner])]
  exact howner

/-- **Scopes of a body are so for good.** -/
theorem of_extends (h : t.InBody cls m r) (hext : t.Extends u) : u.InBody cls m r := by
  obtain ⟨n, hm, howner⟩ := h.owner
  obtain ⟨n', hm'⟩ := Option.isSome_iff_exists.mp (hext.isSome h.inside.isSome_outer)
  exact ⟨h.inside.of_extends hext fun _ _ _ _ hn hn' hnone => (hext.owner_eq hn hn').trans hnone,
    n', hm', (hext.owner_eq hm hm').trans howner⟩

/-- **A scope that is opened in a body belongs to it,** unless it is opened for a class. -/
theorem opened (h : t.InBody cls m r) (howner : n.owner = none) (hn : n.parent = some r) :
    (t.add n).2.InBody cls m ⟨t.nodes.size⟩ :=
  ⟨h.inside.opened howner hn, (h.of_extends (extends_add t n)).owner⟩

/-- The scope of a call belongs to its body. -/
theorem of_call (t : ScopeTree) (hn : n.owner = some cls) :
    (t.add n).2.InBody cls ⟨t.nodes.size⟩ ⟨t.nodes.size⟩ :=
  ⟨.refl (by rw [node?_add]; rfl), n, node?_add t n, hn⟩

end InBody

namespace Sees

/-- The name is looked up past all scopes that do not bind it. -/
theorem get?_eq (h : t.Sees name v m r) : t.get? r name = some v := by
  obtain ⟨n, hm, hv⟩ := Option.bind_eq_some_iff.mp h.value
  have hholds : n.holds name = true := by simp [Scope.holds, Assoc.contains, hv]
  rw [get?, h.inside.nearest?_eq (fun _ hn => hn.2) hm hholds]
  exact hv

/-- A call sees what its own scope binds. -/
theorem of_call (t : ScopeTree) (hn : n.bindings.get? name = some v) :
    (t.add n).2.Sees name v ⟨t.nodes.size⟩ ⟨t.nodes.size⟩ :=
  ⟨.refl (by rw [node?_add]; rfl), by rw [local?, node?_add]; exact hn⟩

/-- A scope that is opened without the name sees what the one around it sees. -/
theorem opened (h : t.Sees name v m r) (howner : n.owner = none) (hholds : n.holds name = false)
    (hn : n.parent = some r) : (t.add n).2.Sees name v m ⟨t.nodes.size⟩ := by
  refine ⟨h.inside.opened ⟨howner, hholds⟩ hn, ?_⟩
  rw [local?, node?_add_of_isSome n h.inside.isSome_outer]
  exact h.value

/-- **A name is what it was** as long as no scope of the body binds it anew. -/
theorem of_extends (h : t.Sees name v m r) (hext : t.Extends u)
    (hsame : ∀ q, t.Inside (·.owner = none) m q → u.local? q name = t.local? q name) :
    u.Sees name v m r := by
  refine ⟨h.inside.of_extends hext fun q n n' hq hn hn' hnone => ?_, ?_⟩
  · refine ⟨(hext.owner_eq hn hn').trans hnone.1, ?_⟩
    -- the scopes in between are of the body, so they bind what they did
    have hlocal := hsame q (hq.mono fun _ hn => hn.1)
    simp only [local?, hn, hn', Option.bind_some] at hlocal
    rw [Scope.holds, Assoc.contains, hlocal]
    exact hnone.2
  · rw [hsame m (.refl h.inside.isSome_outer)]
    exact h.value

end Sees

end ScopeTree

/-! ### What programs do in between -/

/-- Programs may have got from one state to the other. -/
structure State.Later (s t : State) : Prop where
  classes : ClassSteps s t
  scopes : s.Develops t

/-- The run leads to later states, wherever it can be seen, as long as the others do no more than
that. -/
abbrev Run.GoesOn {α : Type} (s : State) (r : Run α) : Prop := r.Along State.Later State.Later s

variable {s t : State}

/-- The same state is later than itself. -/
theorem State.Later.refl (s : State) : s.Later s := ⟨.refl, .refl s⟩

/-- Later scope trees have all scopes of the earlier ones. -/
theorem State.Later.extends (h : s.Later t) : s.scopes.Extends t.scopes := h.scopes.extends

/-- **Whatever the evaluator does leads to later states.** -/
theorem Eval.Built.goesOn {α : Type} {n : Nat} {x : Site} {c : Ref .scope} {m : Eval α}
    (hm : Built (.level n) .nothing x c m) (hs : s.Lawful) : (m s).GoesOn s :=
  -- what it does to classes and what it does to scopes are two readings of how it is built
  ((hm.abides (Engine.level_abides n) s hs trivial).and
    (hm.acts (Engine.level_acts n) s (State.ready_all c s)).develops).mono
      (fun h => ⟨h.1.classSteps, h.2⟩) fun h => ⟨h.classes, h.scopes⟩

/-! ### Bodies of calls -/

namespace Function

variable {E : Engine} {f : Closure} {args : List Value} {caller : Ref .scope} {span : Span}
  {binding : Binding} {cls : Ref .classDef} {m : Ref .scope} {v : Value}

/-- The run is over before anything has happened, or it is that of the body of a call, in the scope
that the call opens, with whatever comes after it. -/
def Begins (E : Engine) (f : Closure) (args : List Value) (caller : Ref .scope) (span : Span)
    (binding : Binding) (s : State) (r : Run Value) : Prop :=
  (∃ e, r = .stop (.fault e) s) ∨ ∃ rest : Except Fault Value → Eval Value,
    r = (attempt (runBody E s.newScope f args span) >>= rest) (entry f caller span binding s)

/-- **A call that is not refused runs its body.** -/
theorem run_begins :
    Begins E f args caller span binding s (run E caller f args span binding s) := by
  rw [run_apply]
  cases refusal? f args caller span s with
  | some e => exact .inl ⟨e, rfl⟩
  | none => exact .inr ⟨_, rfl⟩

/-- A call adds the scope that it runs in. -/
theorem entry_scopes : (entry f caller span binding s).scopes =
    (s.scopes.add (callScope f caller binding s)).2 :=
  State.entered_scopes _ _

/-- Between a call and its body there is a new scope, and perhaps a notice to the listener. -/
theorem later_entry : s.Later (entry f caller span binding s) := by
  refine ⟨.single ?_, (steps_entry binding (State.ready_all caller s)).develops⟩
  unfold entry State.entered State.notified
  split <;> exact .apart rfl rfl rfl

/-- There `self` is the receiver. -/
theorem sees_entry (cls : Option (Ref .classDef)) :
    (entry f caller span ⟨some v, cls⟩ s).scopes.Sees "self" v s.newScope s.newScope := by
  rw [entry_scopes]
  exact .of_call _ rfl

/-- **The scopes of a body.** In the state, code that runs in the scope belongs to the body of a
call that was made in the scope `m` for the class `cls`: it is the body itself, or runs in a scope
that was opened in it, as for a block, or is the body of a function that was made in it, from
wherever this is called. -/
inductive BodyScope (cls : Ref .classDef) : Ref .scope → State → Ref .scope → Prop
  | call (s : State) (f : Closure) (caller : Ref .scope) (span : Span) (receiver : Option Value) :
      BodyScope cls s.newScope (entry f caller span ⟨receiver, some cls⟩ s) s.newScope
  | opened {m r : Ref .scope} {s : State} {n : Scope} : BodyScope cls m s r →
      n.parent = some r → n.owner = none → BodyScope cls m (s.withScope n) s.newScope
  | made {m : Ref .scope} {s : State} {f : Closure} (caller : Ref .scope) (span : Span) :
      BodyScope cls m s f.scope → BodyScope cls m (entry f caller span .none s) s.newScope
  | later {m r : Ref .scope} {s t : State} : BodyScope cls m s r → s.Later t →
      BodyScope cls m t r

/-- **Between a scope of a body and that of the call there is none with a class of its own.** -/
theorem BodyScope.inBody {r : Ref .scope} (h : BodyScope cls m s r) : s.scopes.InBody cls m r := by
  -- on how the scope belongs to the body: each case opens one scope, or lets programs go on
  induction h with
  | call s f caller span receiver =>
    rw [entry_scopes]
    refine .of_call _ ?_
    cases receiver <;> rfl
  | opened _ hparent howner ih => exact ih.opened howner hparent
  | made _ _ _ ih =>
    rw [entry_scopes]
    exact ih.opened rfl rfl
  | later _ hlater ih => exact ih.of_extends hlater.extends

end Function

/-- **Every way into a method** leads to its body, if the annotations of the method and the number
of arguments allow for it. -/
theorem Object.WayIn.begins {r : Run Value} {c : MethodCall} (h : WayIn s r c) (hs : s.Lawful) :
    Function.Begins c.E c.method.closure c.args c.scope c.span ⟨c.receiver, some c.owner⟩ s r := by
  rw [h.eq_run]
  -- a call is refused by an annotation that it does not uphold, and otherwise its body runs
  obtain ⟨hstart, hrefused⟩ := c.run_cases hs
  by_cases hup : c.Upholds s
  · rw [hstart hup]
    exact Function.run_begins
  · obtain ⟨_, _, _, cause, -, -, -, hstop⟩ := hrefused hup
    exact .inl ⟨_, hstop⟩

/-! ### What a call through super comes to -/

namespace Object

variable {E : Engine} {scope m : Ref .scope} {cls owner : Ref .classDef} {receiver : Option Value}
  {name : String} {args : List Value} {span : Span}

/-- **What a call through `super` comes to** in code of the class `cls`, once the arguments are
there: the call of the nearest definition above the class, unless this is private; without a
definition a fault, but for a constructor without arguments. -/
inductive SuperOutcome (E : Engine) (scope : Ref .scope) (cls : Ref .classDef)
    (receiver : Option Value) (name : String) (args : List Value) (span : Span) (s : State) :
    Run Value → Prop
  | call {owner : Ref .classDef} {m : MethodDef} :
      s.classes.Nearest (s.classes.Inherits cls) name owner m → m.visibility ≠ .isPrivate →
      SuperOutcome E scope cls receiver name args span s
        ((⟨E, scope, receiver, owner, m, args, span⟩ : MethodCall).run s)
  | hidden {owner : Ref .classDef} {m : MethodDef} {cause : Cause} :
      s.classes.Nearest (s.classes.Inherits cls) name owner m → m.visibility = .isPrivate →
      cause = .methodPrivate name (s.classes.name owner) → cause.code = "CLS_CALL_PRIVATE" →
      SuperOutcome E scope cls receiver name args span s (.stop (.fault ⟨cause, span⟩) s)
  | implicit : ¬ s.classes.Overrides cls name → name = "init" → args = [] →
      SuperOutcome E scope cls receiver name args span s (.done .nil s)
  | missing {parent : String} {cause : Cause} : ¬ s.classes.Overrides cls name →
      ¬ (name = "init" ∧ args = []) → cause = .noMethod name parent → cause.code = "NO_METHOD" →
      SuperOutcome E scope cls receiver name args span s (.stop (.fault ⟨cause, span⟩) s)

/-- Code of a class may use what its strict ancestors define, unless it is private. -/
theorem mayUse_inherited_iff (hs : s.classes.Sound)
    (hscope : s.scopes.currentClass? scope = some cls) (hinh : s.classes.Inherits cls owner)
    (hsome : (s.classes.class? owner).isSome) (visibility : Visibility) :
    mayUse s scope owner visibility = true ↔ visibility ≠ .isPrivate := by
  cases visibility with
  | isPublic => simp [mayUse]
  | isPrivate =>
    -- a private member is for its own class only, which is not above itself
    simp [mayUse, hscope, hs.ne_of_inherits hinh]
  | isProtected =>
    -- a protected one is for its class and those below, of which this is one
    obtain ⟨c, hc⟩ := Option.isSome_iff_exists.mp hsome
    have hmem : (owner, c) ∈ s.classes.chain cls := hs.mem_chain_iff.mpr ⟨hinh.descends, hc⟩
    have hsub : s.classes.isSubclass cls owner = true :=
      List.any_eq_true.mpr ⟨_, hmem, by simp⟩
    simp [mayUse, hscope, hsub]

/-- **A call through `super` is that of the nearest definition above the class whose code runs.** -/
theorem invokeInherited_outcome (hs : s.classes.Sound)
    (hscope : s.scopes.currentClass? scope = some cls) :
    SuperOutcome E scope cls receiver name args span s
      (invokeInherited E scope cls receiver name args span s) := by
  cases hfound : s.classes.findInherited cls name with
  | some found =>
    obtain ⟨owner, m⟩ := found
    have hnearest := hs.findInherited_eq_some_iff.mp hfound
    obtain ⟨c, hc, -⟩ := hnearest.defines
    have huse := mayUse_inherited_iff hs hscope hnearest.among (by rw [hc]; rfl) m.visibility
    by_cases hv : m.visibility = .isPrivate
    · have hout : Outside s scope owner m.visibility := by
        -- private members are for the class that declares them, and this is another one
        rw [hv, Outside, hscope]
        exact fun h => hs.ne_of_inherits hnearest.among (Option.some.inj h)
      have hstop : invokeInherited E scope cls receiver name args span s =
          .stop (.fault ⟨.methodPrivate name (s.classes.name owner), span⟩) s := by
        unfold invokeInherited
        simp only [gets_bind_apply, hfound]
        exact bind_of_stop (requireMethod_of_outside hout) _
      rw [hstop]
      exact .hidden hnearest hv rfl rfl
    · rw [invokeInherited_eq_run hfound (huse.mpr hv)]
      exact .call hnearest hv
  | none =>
    have hnot : ¬ s.classes.Overrides cls name := by
      rw [← hs.isSome_findInherited_iff, hfound]
      exact nofun
    unfold invokeInherited
    simp only [gets_bind_apply, hfound]
    -- without a definition only an `init` without arguments is let pass
    by_cases hinit : name = "init" ∧ args = []
    · rw [if_pos ⟨hinit.1, by simp [hinit.2]⟩]
      exact .implicit hnot hinit.1 hinit.2
    · rw [if_neg fun h => hinit ⟨h.1, by simpa using h.2⟩]
      exact .missing hnot hinit rfl rfl

/-- In code of a class, `super` stands for what is above this class. -/
theorem invokeSuper_apply (hscope : s.scopes.currentClass? scope = some cls) (args : List Expr) :
    invokeSuper E scope name args span s = (E.exprs scope args >>= fun vs =>
      invokeInherited E scope cls (s.scopes.get? scope "self") name vs span) s := by
  unfold invokeSuper
  rw [gets_bind_apply, hscope]
  rfl

/-- A definition that is found and not private is called. -/
theorem SuperOutcome.eq_run (hs : s.classes.Sound) {r : Run Value}
    (h : SuperOutcome E scope cls receiver name args span s r) {m : MethodDef}
    (hfound : s.classes.findInherited cls name = some (owner, m)) (hv : m.visibility ≠ .isPrivate) :
    r = (⟨E, scope, receiver, owner, m, args, span⟩ : MethodCall).run s := by
  -- the definition that is found is the nearest one, and there are no two of these
  have hnearest := hs.findInherited_eq_some_iff.mp hfound
  have hover : s.classes.Overrides cls name := by
    rw [← hs.isSome_findInherited_iff, hfound]
    rfl
  cases h with
  | call hn _ =>
    obtain ⟨rfl, rfl⟩ := hs.nearest_unique hnearest hn
    rfl
  | hidden hn hprivate =>
    obtain ⟨rfl, rfl⟩ := hs.nearest_unique hnearest hn
    exact absurd hprivate hv
  | implicit hnot => exact absurd hover hnot
  | missing hnot => exact absurd hover hnot

end Object

/-- **Inherited calls are relative to the class that declares the body, and climb.** Take the state
that a session is in after any programs, or what has become of it since by class steps.

A method is called as the nearest class from the receiver's upwards defines it. Whichever way a call
gets to a method, it is refused, or it runs the body for the class that declares it; the same goes
for every other call for a class, of an accessor or of `init`. To begin with `self` is the receiver
there, and it is so in whatever is opened below and at any later time, as long as no scope of the
body binds it anew. Blocks open their scopes below that in which they stand, and functions keep the
scope in which they were made.

In every scope of a body that runs for a class, whatever the receiver and its class, a call through
`super` first evaluates its arguments. Then it is, with the value of `self`, the call of the nearest
definition above the class for which the body runs, whatever programs have done meanwhile; if that
definition is private, it fails with `CLS_CALL_PRIVATE`, and if there is none, with `NO_METHOD`, but
for `init` without arguments.

What is above a class does not descend from it. So in a chain of such calls every class is above all
those before, and there are fewer calls than classes on the chain of the first. -/
theorem Engine.super_climbs {setup : Setup} {programs : List Program} {s : State}
    (hs : ClassSteps ((Session.start setup).runAll programs).2.state s) :
    (∀ cls name owner m, s.classes.findMethod cls name = some (owner, m) ↔
      s.classes.Nearest (s.classes.Descends cls) name owner m) ∧
    (∀ r c, Object.WayIn s r c →
      Function.Begins c.E c.method.closure c.args c.scope c.span ⟨c.receiver, some c.owner⟩ s r) ∧
    (∀ E f args caller span binding, Function.Begins E f args caller span binding s
      (Function.run E caller f args span binding s)) ∧
    (∀ f caller span v cls, (Function.entry f caller span ⟨some v, some cls⟩ s).scopes.Sees "self" v
      s.newScope s.newScope) ∧
    (∀ v m scope, s.scopes.Sees "self" v m scope → s.scopes.get? scope "self" = some v ∧
      (∀ n, n.parent = some scope → n.owner = none → n.holds "self" = false →
        (s.withScope n).scopes.Sees "self" v m s.newScope) ∧
      ∀ t, s.Later t →
        (∀ q, s.scopes.Inside (·.owner = none) m q →
          t.scopes.local? q "self" = s.scopes.local? q "self") →
        t.scopes.Sees "self" v m scope) ∧
    (∀ scope, childScope scope s =
        .done s.newScope (s.withScope (.fresh (some scope) (s.scopes.task scope) none)) ∧
      ∀ n name params body span,
        (level (n + 1)).expr scope (.mk (.function name params body) span) s =
          newClosure ⟨name.getD Expr.anonymous, params, body, scope, span, .value⟩ s) ∧
    (∀ cls m scope, Function.BodyScope cls m s scope → ∀ n name args span,
      (level (n + 1)).expr scope (.mk (.super name args) span) s =
        ((level n).exprs scope args >>= fun vs =>
          Object.invokeInherited (level n) scope cls (s.scopes.get? scope "self") name vs span) s ∧
      ((level n).exprs scope args s).GoesOn s ∧
      ∀ t receiver vs, s.Later t → Object.SuperOutcome (level n) scope cls receiver name vs span t
        (Object.invokeInherited (level n) scope cls receiver name vs span t)) ∧
    (∀ cls owner, s.classes.Inherits cls owner → ¬ s.classes.Descends owner cls) ∧
    ∀ cls owners, (s.classes.class? cls).isSome → SuperChain s cls owners →
      (cls :: owners).Pairwise s.classes.Inherits ∧
      owners.length < (s.classes.chain cls).length := by
  have hlawful : s.Lawful := hs.lawful (Session.lawful setup programs)
  refine ⟨fun _ _ _ _ => hlawful.classes.findMethod_eq_some_iff,
    fun _ _ hway => hway.begins hlawful, fun _ _ _ _ _ _ => Function.run_begins,
    fun _ _ _ _ cls => Function.sees_entry (some cls), fun v m scope hsees => ?self,
    fun _ => ⟨rfl, fun _ _ _ _ _ => rfl⟩, fun cls m scope hbody n name args span => ?super,
    fun _ _ hinh => hlawful.classes.not_descends hinh,
    fun _ _ hcls hchain => hchain.climbs hlawful hcls⟩
  case self =>
    exact ⟨hsees.get?_eq, fun n hparent howner hholds => hsees.opened howner hholds hparent,
      fun t ht hsame => hsees.of_extends ht.extends hsame⟩
  -- `super` looks up the class of the body, evaluates the arguments, and calls
  case super =>
    have hbuilt : Built (.level n) .nothing (.expr scope) scope ((level n).exprs scope args) :=
      exprs_built rfl args
    refine ⟨Object.invokeSuper_apply hbody.inBody.currentClass?_eq args, hbuilt.goesOn hlawful,
      fun t receiver vs ht => ?_⟩
    -- the class of the body is found whatever has happened meanwhile
    have hlater : t.scopes.InBody cls m scope := hbody.inBody.of_extends ht.extends
    exact Object.invokeInherited_outcome (ht.classes.lawful hlawful).classes hlater.currentClass?_eq

/-- A method `m` that calls the inherited definition. -/
def climbing : MethodDef :=
  ⟨⟨"m", [], [.mk (.expr (.mk (.super "m" []) .unknown)) .unknown], State.root, .unknown, .method⟩,
    .isPublic, false, []⟩

/-- A method `m` that does nothing. -/
def ground : MethodDef := ⟨⟨"m", [], [], State.root, .unknown, .method⟩, .isProtected, false, []⟩

/-- A class below another, with one method. -/
def floor (name : String) (parent : Ref .classDef) (m : MethodDef) : ClassDef :=
  { ClassTable.bare name .normal none with parent := some parent, methods := .insert .empty "m" m }

/-- A class with one method is admitted below a normal class. -/
theorem admits_floor {t : ClassTable} {name : String} {parent : Ref .classDef} {m : MethodDef}
    {d : ClassDef} (hd : t.class? parent = some d) (hcat : d.category = .normal)
    (hname : m.closure.name = "m") (horigin : m.closure.origin = .method) :
    t.Admits (floor name parent m) := by
  have hgrown := Declaration.Grown.method
    { ClassTable.bare name .normal none with parent := some parent } hname horigin
  refine ⟨fun p hp => ?_, (by cases ·), rfl, hgrown.methods nofun,
    hgrown.written ⟨nofun, nofun, nofun⟩⟩
  cases hp
  exact ⟨d, hd, hcat⟩

/-- Three classes, one below the other, and an object of the last. -/
def tower : State :=
  let s := State.initial bare
  let bottom := (s.classes.add (floor "Bottom" ClassTable.base ground)).2
  let middle := (bottom.add (floor "Middle" ⟨4⟩ climbing)).2
  { s with
    classes := (middle.add (floor "Top" ⟨5⟩ climbing)).2
    heap := { s.heap with objects := (s.heap.objects.add ⟨⟨6⟩, .empty⟩).2 } }

/-- In the body of the method of the class in the middle, called for an object of the last class, a
function is called that was made there. -/
def climbingTower : State :=
  let s := Function.entry climbing.closure State.root .unknown ⟨some (.object ⟨0⟩), some ⟨5⟩⟩ tower
  Function.entry ⟨"f", [], [], tower.newScope, .unknown, .value⟩ State.root .unknown .none s

/-- There `super` stands for the first of the classes, and `self` for the object; the calls from the
last class on climb to the first. -/
theorem Engine.super_climbs_tower :
    ClassSteps ((Session.start bare).runAll []).2.state climbingTower ∧
    Function.BodyScope ⟨5⟩ ⟨1⟩ climbingTower ⟨2⟩ ∧
    (level 1).expr ⟨2⟩ (.mk (.super "m" []) .unknown) climbingTower =
      (⟨level 0, ⟨2⟩, some (.object ⟨0⟩), ⟨4⟩, ground, [], .unknown⟩ : MethodCall).run
        climbingTower ∧
    [(⟨6⟩ : Ref .classDef), ⟨5⟩, ⟨4⟩].Pairwise climbingTower.classes.Inherits := by
  have htower : ClassSteps (State.initial bare) tower := by
    let s : State := { State.initial bare with
      classes := (ClassTable.builtin.add (floor "Bottom" ClassTable.base ground)).2 }
    let t : State := { State.initial bare with
      classes := (s.classes.add (floor "Middle" ⟨4⟩ climbing)).2 }
    let u : State := { State.initial bare with
      classes := (t.classes.add (floor "Top" ⟨5⟩ climbing)).2 }
    have hbottom : ClassStep (State.initial bare) s :=
      .newClass (admits_floor rfl rfl rfl rfl) rfl rfl rfl
    have hmiddle : ClassStep s t := .newClass (admits_floor rfl rfl rfl rfl) rfl rfl rfl
    have htop : ClassStep t u := .newClass (admits_floor rfl rfl rfl rfl) rfl rfl rfl
    exact .tail (.tail (.tail (.single hbottom) hmiddle) htop) (.newObject rfl rfl rfl rfl)
  have hsteps : ClassSteps ((Session.start bare).runAll []).2.state climbingTower :=
    -- both calls leave the classes alone
    (htower.trans Function.later_entry.classes).trans Function.later_entry.classes
  have hbody : Function.BodyScope ⟨5⟩ ⟨1⟩ climbingTower ⟨2⟩ :=
    .made _ _ (.call tower climbing.closure State.root .unknown (some (.object ⟨0⟩)))
  have hsees : climbingTower.scopes.Sees "self" (.object ⟨0⟩) ⟨1⟩ ⟨2⟩ := by
    rw [climbingTower, Function.entry_scopes]
    exact (Function.sees_entry (s := tower) (some ⟨5⟩)).opened rfl rfl rfl
  obtain ⟨-, -, -, -, hself, -, hsuper, -, hchain⟩ := super_climbs hsteps
  refine ⟨hsteps, hbody, ?_, ?_⟩
  · obtain ⟨hrun, -, houtcome⟩ := hsuper _ _ _ hbody 0 "m" [] .unknown
    rw [hrun, (hself _ _ _ hsees).1]
    exact (houtcome climbingTower (some (.object ⟨0⟩)) [] (.refl _)).eq_run
      (hsteps.lawful (Session.lawful bare [])).classes rfl (by decide)
  · have htop : climbingTower.classes.findInherited ⟨6⟩ "m" = some (⟨5⟩, climbing) := rfl
    have hmiddle : climbingTower.classes.findInherited ⟨5⟩ "m" = some (⟨4⟩, ground) := rfl
    have hclimb : SuperChain climbingTower ⟨6⟩ [⟨5⟩, ⟨4⟩] :=
      .cons .refl htop (.cons .refl hmiddle (.nil _ _))
    exact (hchain _ _ rfl hclimb).1

end ScriptEngine
