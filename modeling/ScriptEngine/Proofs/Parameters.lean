import ScriptEngine.Proofs.Classes.Moves
import ScriptEngine.Proofs.Constants
import ScriptEngine.Proofs.Run.Levels

/-!
# Parameters

The body of a script function is run once the parameters are bound (`Function.StartsIn`). They are
bound one after the other, each to the argument at its position; a parameter without an argument is
bound to its default, which is computed in the scope of the function when the parameters before it
are bound there (`Function.Gives`). A parameter without an argument and without a default is bound
to nil.

The check of the number of arguments asks for as many as there are parameters without a default. So
it rules out the latter case if these parameters come first (`RequiredFirst`), and only then.
-/

namespace ScriptEngine

open Eval

namespace Function

variable {E : Engine} {scope : Ref .scope} {span : Span} {p : Param} {params : List Param}
  {args : List Value} {s t : State}

/-- What a parameter is bound to, from the state in which it is its turn: the argument, or what its
default ends with. -/
inductive Gives (E : Engine) (scope : Ref .scope) (p : Param) :
    Option Value → State → Value → State → Prop
  | argument (v : Value) (s : State) : Gives E scope p (some v) s v s
  | default {e : Expr} {v : Value} {s t : State} : p.default? = some e →
      (E.expr scope e s).Ends (.ok v) t → Gives E scope p none s v t
  | missing (s : State) : p.default? = none → Gives E scope p none s .nil s

/-! ### One parameter after the other -/

theorem bindName_ends_iff {name : String} {v : Value} :
    (bindName scope name v span s).Ends (.ok ()) t ↔ bindName scope name v span s = .done () t := by
  unfold bindName writeName
  split
  · constructor
    · intro h
      exact nomatch (Run.ends_fault_iff.mp h).1
    · exact nofun
  · constructor
    · rintro ⟨⟩
      rfl
    · intro h
      rw [h]
      exact .done () t

/-- Finds out what a parameter is bound to. -/
def give (E : Engine) (scope : Ref .scope) (p : Param) : Option Value → Eval Value
  | some arg => pure arg
  | none =>
    match p.default? with
    | some e => E.expr scope e
    | none => pure .nil

theorem give_ends_iff {arg : Option Value} {v : Value} :
    (give E scope p arg s).Ends (.ok v) t ↔ Gives E scope p arg s v t := by
  constructor
  · intro h
    cases arg with
    | some w =>
      obtain ⟨hv, rfl⟩ := Run.ends_done_iff.mp h
      obtain rfl := Except.ok.inj hv
      exact .argument v t
    | none =>
      unfold give at h
      cases hdefault : p.default? with
      | some e =>
        rw [hdefault] at h
        exact .default hdefault h
      | none =>
        rw [hdefault] at h
        obtain ⟨hv, rfl⟩ := Run.ends_done_iff.mp h
        obtain rfl := Except.ok.inj hv
        exact .missing t hdefault
  · intro h
    cases h with
    | argument => exact .done v s
    | default hdefault hv =>
      unfold give
      rw [hdefault]
      exact hv
    | missing _ hnone =>
      unfold give
      rw [hnone]
      exact .done Value.nil s

/-- With an argument or without one, a parameter is bound before the others. -/
theorem bindParams_cons :
    bindParams E scope span (p :: params) args =
      give E scope p args.head? >>= fun v => bindName scope p.name v span >>= fun _ =>
        bindParams E scope span params args.tail := by
  cases args with
  | cons arg args => rfl
  | nil =>
    rw [bindParams, List.head?_nil, List.tail_nil, give]
    cases p.default? with
    | some e => rfl
    | none => rfl

/-- The first parameter is bound, then the others are. -/
theorem bindParams_cons_ends_iff :
    (bindParams E scope span (p :: params) args s).Ends (.ok ()) t ↔
      ∃ v u w, Gives E scope p args.head? s v u ∧ bindName scope p.name v span u = .done () w ∧
        (bindParams E scope span params args.tail w).Ends (.ok ()) t := by
  rw [bindParams_cons, ends_ok_bind_iff]
  simp only [ends_ok_bind_iff, give_ends_iff]
  constructor
  · rintro ⟨v, u, hgives, ⟨⟩, w, hw, h⟩
    exact ⟨v, u, w, hgives, bindName_ends_iff.mp hw, h⟩
  · rintro ⟨v, u, w, hgives, hw, h⟩
    exact ⟨v, u, hgives, (), w, bindName_ends_iff.mpr hw, h⟩

/-- The parameters in front are bound to the arguments in front. -/
theorem bindParams_append_ends_iff {before : List Param} :
    (bindParams E scope span (before ++ params) args s).Ends (.ok ()) t ↔
      ∃ u, (bindParams E scope span before (args.take before.length) s).Ends (.ok ()) u ∧
        (bindParams E scope span params (args.drop before.length) u).Ends (.ok ()) t := by
  induction before generalizing args s with
  | nil =>
    constructor
    · intro h
      exact ⟨s, .done () s, h⟩
    · rintro ⟨u, hu, h⟩
      obtain ⟨-, rfl⟩ := Run.ends_done_iff.mp hu
      exact h
  | cons q before ih =>
    -- arguments are taken off together with parameters, in front of the cut and behind it
    have hhead : (args.take (before.length + 1)).head? = args.head? := by cases args <;> rfl
    have htail : (args.take (before.length + 1)).tail = args.tail.take before.length := by
      cases args with
      | nil => simp
      | cons arg args => rfl
    have hdrop : args.drop (before.length + 1) = args.tail.drop before.length := by
      cases args with
      | nil => simp
      | cons arg args => rfl
    rw [List.cons_append, bindParams_cons_ends_iff]
    simp only [List.length_cons, bindParams_cons_ends_iff, hhead, htail, hdrop, ih]
    constructor
    · rintro ⟨v, u, w, hgives, hw, u', hu', h⟩
      exact ⟨u', ⟨v, u, w, hgives, hw, hu'⟩, h⟩
    · rintro ⟨u', ⟨v, u, w, hgives, hw, hu'⟩, h⟩
      exact ⟨v, u, w, hgives, hw, u', hu', h⟩

/-- **A parameter gets the argument at its position,** after the parameters before it have got
theirs, and before the others get theirs. -/
theorem bindParams_ends_iff {i : ℕ} (hp : params[i]? = some p) :
    (bindParams E scope span params args s).Ends (.ok ()) t ↔
      ∃ u v w z, (bindParams E scope span (params.take i) (args.take i) s).Ends (.ok ()) u ∧
        Gives E scope p args[i]? u v w ∧ bindName scope p.name v span w = .done () z ∧
        (bindParams E scope span (params.drop (i + 1)) (args.drop (i + 1)) z).Ends (.ok ()) t := by
  obtain ⟨hi, rfl⟩ := List.getElem?_eq_some_iff.mp hp
  have hsplit : params = params.take i ++ params[i] :: params.drop (i + 1) := by
    rw [← List.drop_eq_getElem_cons hi, List.take_append_drop]
  have hlength : (params.take i).length = i := List.length_take_of_le hi.le
  conv_lhs => rw [hsplit, bindParams_append_ends_iff, hlength]
  simp only [bindParams_cons_ends_iff, List.head?_drop, List.tail_drop]
  constructor
  · rintro ⟨u, hu, v, w, z, hgives, hz, h⟩
    exact ⟨u, v, w, z, hu, hgives, hz, h⟩
  · rintro ⟨u, v, w, z, hu, hgives, hz, h⟩
    exact ⟨u, hu, v, w, z, hgives, hz, h⟩

/-! ### Until the body starts -/

/-- A default leaves what the scope binds a name to. -/
def Leaves (E : Engine) (scope : Ref .scope) (name : String) (e : Expr) : Prop :=
  ∀ u v w n m, (E.expr scope e u).Ends (.ok v) w → u.scopes.node? scope = some n →
    w.scopes.node? scope = some m → m.bindings.get? name = n.bindings.get? name

/-- A scope does not go away while an expression is evaluated in it. -/
theorem exists_node_of_expr (hE : E.Traced) {e : Expr} {v : Value} {n : Scope}
    (h : (E.expr scope e s).Ends (.ok v) t) (hn : s.scopes.node? scope = some n) :
    ∃ m, t.scopes.node? scope = some m := by
  have hvalid : (Site.expr scope).Valid s := by
    rintro c ⟨⟩
    rw [hn]
    rfl
  obtain ⟨ds, hpath⟩ := hE.expr scope e hvalid h
  obtain ⟨m, hm, -⟩ := hpath.scopes_extend scope n hn
  exact ⟨m, hm⟩

theorem exists_node_of_gives (hE : E.Traced) {arg : Option Value} {v : Value} {n : Scope}
    (h : Gives E scope p arg s v t) (hn : s.scopes.node? scope = some n) :
    ∃ m, t.scopes.node? scope = some m := by
  cases h with
  | argument => exact ⟨n, hn⟩
  | default _ hv => exact exists_node_of_expr hE hv hn
  | missing => exact ⟨n, hn⟩

/-- Binding a name changes its value in the scope, and nothing else there. -/
theorem node?_of_bindName {name : String} {v : Value} {n : Scope}
    (h : bindName scope name v span s = .done () t) (hn : s.scopes.node? scope = some n) :
    t.scopes.node? scope = some (n.bind name v) := by
  unfold bindName writeName at h
  split at h
  · exact nomatch h
  · obtain ⟨-, rfl⟩ := Run.done.inj h
    change (s.scopes.modify scope (·.bind name v)).node? scope = _
    rw [ScopeTree.node?_modify, if_pos rfl, hn]
    rfl

/-- Scopes do not go away while parameters are bound in them, and a name keeps its value if no
parameter has it and the defaults that are computed leave it. -/
theorem bindings_of_bindParams (hE : E.Traced) (name : String) {n : Scope}
    (h : (bindParams E scope span params args s).Ends (.ok ()) t)
    (hn : s.scopes.node? scope = some n) :
    ∃ m, t.scopes.node? scope = some m ∧
      ((∀ q ∈ params, q.name ≠ name) →
        (∀ q ∈ params.drop args.length, ∀ e, q.default? = some e → Leaves E scope name e) →
        m.bindings.get? name = n.bindings.get? name) := by
  induction params generalizing args s n with
  | nil =>
    obtain ⟨-, rfl⟩ := Run.ends_done_iff.mp h
    exact ⟨n, hn, fun _ _ => rfl⟩
  | cons q params ih =>
    obtain ⟨v, u, w, hgives, hw, hrest⟩ := bindParams_cons_ends_iff.mp h
    obtain ⟨l, hl⟩ := exists_node_of_gives hE hgives hn
    obtain ⟨m, hm, hkept⟩ := ih hrest (node?_of_bindName hw hl)
    refine ⟨m, hm, fun hname hleaves => ?_⟩
    -- the name keeps its value when the first parameter is given one, and when that is bound
    have hne : q.name ≠ name := hname q List.mem_cons_self
    have hbound : (l.bind q.name v).bindings.get? name = l.bindings.get? name :=
      Assoc.get?_insert_of_ne l.bindings hne.symm v
    have hgiven : l.bindings.get? name = n.bindings.get? name := by
      cases hargs : args with
      | nil =>
        subst hargs
        cases hgives with
        | default he hv =>
          exact hleaves q List.mem_cons_self _ he _ _ _ n l hv hn hl
        | missing =>
          obtain rfl := Option.some.inj (hn.symm.trans hl)
          rfl
      | cons arg args =>
        subst hargs
        cases hgives
        obtain rfl := Option.some.inj (hn.symm.trans hl)
        rfl
    rw [← hgiven, ← hbound]
    refine hkept (fun q hq => hname q (List.mem_cons_of_mem _ hq)) fun q hq => hleaves q ?_
    cases args with
    | nil => exact List.mem_cons_of_mem _ hq
    | cons arg args => exact hq

/-- What a scope binds itself is what is seen from it. -/
theorem get?_of_bindings {r : Ref .scope} {tree : ScopeTree} {name : String} {n : Scope} {v : Value}
    (hn : tree.node? r = some n) (hv : n.bindings.get? name = some v) :
    tree.get? r name = some v := by
  have hholds : n.holds name = true := by
    rw [Scope.holds, Assoc.contains, hv]
    rfl
  rw [ScopeTree.get?, ScopeTree.nearest?, ScopeTree.nearestWithin, hn]
  dsimp only
  rw [if_pos hholds]
  exact hv

/-! ### The start of a body -/

section

variable {f : Closure} {caller : Ref .scope} {binding : Binding}

/-- The body of a call is run from the state: the parameters are bound. -/
def StartsIn (E : Engine) (f : Closure) (args : List Value) (caller : Ref .scope) (span : Span)
    (binding : Binding) (s t : State) : Prop :=
  (bindParams E s.newScope f.span f.params args (entry f caller span binding s)).Ends (.ok ()) t

theorem startsIn_of_done
    (h : bindParams E s.newScope f.span f.params args (entry f caller span binding s) =
      .done () t) : StartsIn E f args caller span binding s t := by
  rw [StartsIn, h]
  exact .done () t

/-- Only the parameters in front are bound, to the arguments in front. -/
def Reaches (E : Engine) (f : Closure) (args : List Value) (caller : Ref .scope) (span : Span)
    (binding : Binding) (s : State) (i : ℕ) (t : State) : Prop :=
  (bindParams E s.newScope f.span (f.params.take i) (args.take i)
    (entry f caller span binding s)).Ends (.ok ()) t

/-- What a call makes of the end of its body. -/
def ofBody (f : Closure) (span : Span) : Flow → Eval Value
  | .normal v => return v
  | .return v => return v
  | _ => fail (.general ("'break' or 'continue' escaped function '" ++ f.name ++ "'")) span

/-- The body is run from the states in which it starts, and from no others. -/
theorem runBody_ends_iff {o : Except Fault Value} :
    (runBody E s.newScope f args span (entry f caller span binding s)).Ends o t ↔
      (∃ u, StartsIn E f args caller span binding s u ∧
        ((E.body s.newScope f.body >>= ofBody f span) u).Ends o t) ∨
      ∃ e, o = .error e ∧ (bindParams E s.newScope f.span f.params args
        (entry f caller span binding s)).Ends (.error e) t := by
  have hrun : runBody E s.newScope f args span =
      bindParams E s.newScope f.span f.params args >>= fun _ =>
        E.body s.newScope f.body >>= ofBody f span := rfl
  rw [hrun, ends_bind_iff]
  constructor
  · rintro (⟨⟨⟩, u, hu, h⟩ | h)
    · exact .inl ⟨u, hu, h⟩
    · exact .inr h
  · rintro (⟨u, hu, h⟩ | h)
    · exact .inl ⟨(), u, hu, h⟩
    · exact .inr h

theorem node?_entry (f : Closure) (caller : Ref .scope) (span : Span) (binding : Binding)
    (s : State) : (entry f caller span binding s).scopes.node? s.newScope =
      some (callScope f caller binding s) := by
  rw [entry, State.entered_scopes]
  exact ScopeTree.node?_add s.scopes (callScope f caller binding s)

/-- With an argument for each parameter nothing is computed, and the body starts. -/
theorem startsIn_iff_of_length_le (h : f.params.length ≤ args.length) :
    StartsIn E f args caller span binding s t ↔ t = started f args caller span binding s := by
  have hparams := bindParams_entered E (s := s) (frameOf f caller span s) f.span
    (constants_callScope f caller binding s) f.params args
  -- no parameter is left when the arguments are bound
  rw [List.drop_eq_nil_of_le h] at hparams
  rw [StartsIn, entry, hparams, started]
  constructor
  · intro hdone
    exact (Run.ends_done_iff.mp hdone).2
  · rintro rfl
    exact .done () _

/-- **Each parameter in its turn.** When the body starts, a parameter has been given its value in
the state that the parameters before it left, and has been bound to it in the scope of the call. It
still is, if no parameter after it has the same name and no default that was computed after it
touches the name. -/
theorem gives_of_startsIn (hE : E.Traced) {i : ℕ} (hp : f.params[i]? = some p)
    (h : StartsIn E f args caller span binding s t) :
    ∃ u v w, Reaches E f args caller span binding s i u ∧ Gives E s.newScope p args[i]? u v w ∧
      (∃ z, bindName s.newScope p.name v f.span w = .done () z ∧
        z.scopes.get? s.newScope p.name = some v) ∧
      ((∀ q ∈ f.params.drop (i + 1), q.name ≠ p.name) →
        (∀ q ∈ f.params.drop (max (i + 1) args.length), ∀ e, q.default? = some e →
          Leaves E s.newScope p.name e) →
        t.scopes.get? s.newScope p.name = some v) := by
  obtain ⟨u, v, w, z, hu, hgives, hz, hrest⟩ := (bindParams_ends_iff hp).mp h
  have hentry := node?_entry f caller span binding s
  obtain ⟨l, hl, -⟩ := bindings_of_bindParams hE p.name hu hentry
  obtain ⟨m, hm⟩ := exists_node_of_gives hE hgives hl
  have hbound := node?_of_bindName hz hm
  have hself : (m.bind p.name v).bindings.get? p.name = some v :=
    Assoc.get?_insert_self m.bindings p.name v
  refine ⟨u, v, w, hu, hgives, ⟨z, hz, get?_of_bindings hbound hself⟩, fun hname hleaves => ?_⟩
  -- it was just bound; what is left is that the others leave it alone
  obtain ⟨last, hlast, hkept⟩ := bindings_of_bindParams hE p.name hrest hbound
  refine get?_of_bindings hlast ((hkept hname ?_).trans hself)
  intro q hq
  refine hleaves q ?_
  have hdrop : i + 1 + (args.length - (i + 1)) = max (i + 1) args.length := by omega
  rwa [List.drop_drop, List.length_drop, hdrop] at hq

end

/-! ### Which numbers of arguments are accepted -/

/-- The parameters without a default come first. -/
def RequiredFirst (params : List Param) : Prop :=
  params.Pairwise fun p q => p.default?.isSome = true → q.default?.isSome = true

variable {f : Closure}

theorem requiredArity_eq_countP (f : Closure) :
    f.requiredArity = f.params.countP (·.default?.isNone) :=
  List.countP_eq_length_filter.symm

theorem requiredArity_le_length (f : Closure) : f.requiredArity ≤ f.params.length := by
  rw [requiredArity_eq_countP]
  exact List.countP_le_length

theorem accepts_iff {k : ℕ} :
    f.accepts k = true ↔ f.requiredArity ≤ k ∧ k ≤ f.params.length :=
  decide_eq_true_iff

/-- If the parameters without a default come first, their number is past the position of each. -/
theorem RequiredFirst.lt_requiredArity (h : RequiredFirst f.params) {i : ℕ}
    (hp : f.params[i]? = some p) (hnone : p.default? = none) : i < f.requiredArity := by
  obtain ⟨hi, rfl⟩ := List.getElem?_eq_some_iff.mp hp
  -- all of the parameters up to this one have no default, and there are `i + 1` of them
  have hfront : ∀ q ∈ f.params.take (i + 1), q.default?.isNone = true := by
    intro q hq
    obtain ⟨j, hj, rfl⟩ := List.mem_take_iff_getElem.mp hq
    obtain rfl | hji := (show j = i ∨ j < i by omega)
    · rw [hnone]
      rfl
    · by_contra hsome
      have hdefault := List.pairwise_iff_getElem.mp h j i (by omega) hi hji
        (by simpa [Option.isSome_iff_ne_none] using hsome)
      rw [hnone] at hdefault
      exact nomatch hdefault
  have hcount : (f.params.take (i + 1)).countP (·.default?.isNone) ≤ f.requiredArity := by
    rw [requiredArity_eq_countP]
    exact (List.take_sublist (i + 1) f.params).countP_le
  rw [List.countP_eq_length.mpr hfront, List.length_take_of_le hi] at hcount
  exact hcount

/-- If their number is past the position of each parameter without a default, these come first. -/
theorem requiredFirst_of_lt
    (h : ∀ i p, f.params[i]? = some p → p.default? = none → i < f.requiredArity) :
    RequiredFirst f.params := by
  have hback : (f.params.drop f.requiredArity).countP (·.default?.isNone) = 0 := by
    rw [List.countP_eq_zero]
    intro p hp hnone
    obtain ⟨j, hj⟩ := List.getElem?_of_mem hp
    rw [List.getElem?_drop] at hj
    have hlt := h _ p hj (Option.isNone_iff_eq_none.mp hnone)
    omega
  -- none of them is behind their number, so in front of it there are no others
  have hfront : (f.params.take f.requiredArity).countP (·.default?.isNone) =
      (f.params.take f.requiredArity).length := by
    rw [List.length_take_of_le (requiredArity_le_length f)]
    conv_rhs => rw [requiredArity_eq_countP, ← List.take_append_drop f.requiredArity f.params]
    rw [List.countP_append, hback, Nat.add_zero]
  rw [RequiredFirst, List.pairwise_iff_getElem]
  intro i j hi hj hij hsome
  by_contra hnone
  have hlt := h j _ (List.getElem?_eq_getElem hj) (Option.not_isSome_iff_eq_none.mp hnone)
  have hmem : f.params[i] ∈ f.params.take f.requiredArity :=
    List.mem_take_iff_getElem.mpr ⟨i, by omega, rfl⟩
  have hrequired := List.countP_eq_length.mp hfront _ hmem
  rw [Option.isNone_iff_eq_none] at hrequired
  rw [hrequired] at hsome
  exact nomatch hsome

/-- **The check of the number of arguments** sees to it that each parameter without a default has an
argument, if, and only if, these parameters come first. -/
theorem accepts_supplies_iff :
    (∀ k, f.accepts k = true →
      ∀ i p, f.params[i]? = some p → p.default? = none → i < k) ↔ RequiredFirst f.params := by
  constructor
  · intro h
    -- the least number that is accepted says it all
    have hleast : f.accepts f.requiredArity = true :=
      accepts_iff.mpr ⟨le_rfl, requiredArity_le_length f⟩
    exact requiredFirst_of_lt (h f.requiredArity hleast)
  · intro h k hk i p hp hnone
    exact lt_of_lt_of_le (h.lt_requiredArity hp hnone) (accepts_iff.mp hk).1

/-! ### Two functions with a default -/

/-- A default that is computed at once without a trace leaves everything. -/
theorem leaves_of_done {name : String} {e : Expr} {v : Value}
    (h : ∀ u, E.expr scope e u = .done v u) : Leaves E scope name e := by
  intro u v w n m hends hn hm
  rw [h u] at hends
  obtain ⟨-, rfl⟩ := Run.ends_done_iff.mp hends
  rw [Option.some.inj (hn.symm.trans hm)]

/-- A function whose second parameter has a default. -/
def defaultLast : Closure :=
  ⟨"f", [⟨"a", none⟩, ⟨"b", some (.mk (.int 1) .unknown)⟩], [], State.root, .unknown, .value⟩

/-- A function whose first parameter has a default, and not the second one. -/
def defaultFirst : Closure :=
  ⟨"f", [⟨"a", some (.mk (.int 1) .unknown)⟩, ⟨"b", none⟩], [], State.root, .unknown, .value⟩

end Function

/-- **Parameters are bound by position.** Take the engine of any level, and a call of any script
function with any arguments, in any state, for a program with a single task. The body is run from
the states in which it starts, when the parameters are bound, and from no others. The parameter at a
position is then bound to the argument at this position, if there is one; if not, to what its
default ends with, computed after the parameters before it have been bound in the same way, or to
nil if it has no default. It keeps this value until the body starts, unless there is a further
parameter of its name or a default that is computed after it changes it. If there are arguments for
all parameters, the body starts, and in one state only.

That a parameter without a default always has an argument, whatever number of arguments the check
accepts, is true of those functions in which these parameters come first, and of no others. -/
theorem Engine.parameters_by_position (n : ℕ) (f : Closure) (args : List Value)
    (caller : Ref .scope) (span : Span) (binding : Binding) (s : State) :
    (∀ o z, (Function.runBody (level n) s.newScope f args span
        (Function.entry f caller span binding s)).Ends o z ↔
      (∃ t, Function.StartsIn (level n) f args caller span binding s t ∧
        (((level n).body s.newScope f.body >>= Function.ofBody f span) t).Ends o z) ∨
      ∃ e, o = .error e ∧ (Function.bindParams (level n) s.newScope f.span f.params args
        (Function.entry f caller span binding s)).Ends (.error e) z) ∧
    (∀ i p t, f.params[i]? = some p → Function.StartsIn (level n) f args caller span binding s t →
      ∃ u v w, Function.Reaches (level n) f args caller span binding s i u ∧
        Function.Gives (level n) s.newScope p args[i]? u v w ∧
        (∃ z, bindName s.newScope p.name v f.span w = .done () z ∧
          z.scopes.get? s.newScope p.name = some v) ∧
        ((∀ q ∈ f.params.drop (i + 1), q.name ≠ p.name) →
          (∀ q ∈ f.params.drop (max (i + 1) args.length), ∀ e, q.default? = some e →
            Function.Leaves (level n) s.newScope p.name e) →
          t.scopes.get? s.newScope p.name = some v)) ∧
    (f.params.length ≤ args.length → ∀ t,
      Function.StartsIn (level n) f args caller span binding s t ↔
        t = Function.started f args caller span binding s) ∧
    ((∀ k, f.accepts k = true →
      ∀ i p, f.params[i]? = some p → p.default? = none → i < k) ↔
        Function.RequiredFirst f.params) :=
  ⟨fun _ _ => Function.runBody_ends_iff,
    fun _ _ _ hp h => Function.gives_of_startsIn (level_traced n) hp h,
    fun h _ => Function.startsIn_iff_of_length_le h, Function.accepts_supplies_iff⟩

/-- With one argument, this is what the parameter without a default is bound to when the body
starts, and the other one is bound to its default; with two arguments the body starts as well, and
there are never fewer than one. -/
theorem Engine.parameters_by_position_defaultLast :
    (∃ t, Function.StartsIn (level 1) Function.defaultLast [.int 5] State.root .unknown .none
        (State.initial bare) t ∧
      t.scopes.get? (State.initial bare).newScope "a" = some (.int 5) ∧
      t.scopes.get? (State.initial bare).newScope "b" = some (.int 1)) ∧
    (∃ t, Function.StartsIn (level 1) Function.defaultLast [.int 5, .int 7] State.root .unknown
      .none (State.initial bare) t) ∧
    ∀ k, Function.defaultLast.accepts k = true → 0 < k := by
  obtain ⟨-, hgives, -, hrequired⟩ := Engine.parameters_by_position 1 Function.defaultLast [.int 5]
    State.root .unknown .none (State.initial bare)
  obtain ⟨-, -, hfull, -⟩ := Engine.parameters_by_position 1 Function.defaultLast [.int 5, .int 7]
    State.root .unknown .none (State.initial bare)
  have hstart : Function.StartsIn (level 1) Function.defaultLast [.int 5] State.root .unknown
      .none (State.initial bare) _ := Function.startsIn_of_done rfl
  refine ⟨⟨_, hstart, ?_, ?_⟩, ⟨_, (hfull le_rfl _).mpr rfl⟩, ?_⟩
  · obtain ⟨u, v, w, -, hvalue, -, hkept⟩ := hgives 0 _ _ rfl hstart
    cases hvalue with
    | argument =>
      refine hkept (by decide) ?_
      -- the only default that is computed after it is a literal
      intro q hq e he
      obtain rfl := List.mem_singleton.mp hq
      obtain rfl := Option.some.inj he
      exact Function.leaves_of_done fun _ => rfl
  · obtain ⟨u, v, w, -, hvalue, -, hkept⟩ := hgives 1 _ _ rfl hstart
    cases hvalue with
    | default he hv =>
      obtain rfl := Option.some.inj he
      obtain ⟨hv, -⟩ := Run.ends_done_iff.mp hv
      obtain rfl := Except.ok.inj hv
      exact hkept nofun nofun
    | missing _ hnone => exact nomatch hnone
  · intro k hk
    exact hrequired.mpr (by unfold Function.RequiredFirst; decide) k hk 0 _ rfl rfl

/-- One argument is accepted although the parameter without a default is the second one, which is
nil when the body starts. -/
theorem Engine.required_parameter_nil :
    Function.defaultFirst.accepts 1 = true ∧
    ∃ t, Function.StartsIn (level 1) Function.defaultFirst [.int 5] State.root .unknown .none
        (State.initial bare) t ∧
      t.scopes.get? (State.initial bare).newScope "a" = some (.int 5) ∧
      t.scopes.get? (State.initial bare).newScope "b" = some .nil :=
  ⟨rfl, _, Function.startsIn_of_done rfl, rfl, rfl⟩

end ScriptEngine
