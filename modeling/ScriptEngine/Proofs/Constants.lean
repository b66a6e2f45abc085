import ScriptEngine.Proofs.Run.Sessions

/-!
# Constants

A name that is bound for good stays bound to the same value, whatever is done to the tree of scopes
(`ScopeTree.Constant.after`). Programs change the tree by its operations only: that holds of each
stretch of an evaluation (`Engine.level_develops`), of whatever a program or a task does
(`Schedule.rules_develops`) and so of a session (`Session.runAll_develops`). Hence no program, and
no other task that runs meanwhile, changes a constant.
-/

namespace ScriptEngine

/-- The scopes of one state come from those of another by operations on the tree. -/
def State.Develops (s t : State) : Prop := s.scopes.Develops t.scopes

namespace State.Develops

variable {s t u : State}

theorem refl (s : State) : s.Develops s := ScopeTree.Develops.refl _

theorem trans (h : s.Develops t) (h' : t.Develops u) : s.Develops u :=
  ScopeTree.Develops.trans h h'

theorem of_eq (h : t.scopes = s.scopes) : s.Develops t := ⟨[], h⟩

theorem of_idle (h : Idle s t) : s.Develops t := by
  obtain ⟨sync, clock, spawned, rfl⟩ := h
  exact of_eq rfl

end State.Develops

/-- The run changes scopes by operations on the tree, as long as the others do. -/
abbrev Run.Develops {α : Type} (s : State) (r : Run α) : Prop :=
  r.Along State.Develops State.Develops s

/-! ### Evaluations -/

theorem State.ready_all (c : Ref .scope) (s : State) : s.Ready (fun _ => True) c :=
  ⟨fun _ _ => trivial, fun _ _ _ _ _ => trivial⟩

theorem Run.Course.develops {α : Type} {s : State} {r : Run α}
    (h : r.Course (fun _ => True) s) : r.Develops s :=
  h.mono (fun hst => hst.develops) fun hst => ⟨hst.extends, fun _ _ _ _ _ _ => trivial⟩

/-- **Evaluations change scopes by operations on the tree only.** -/
theorem Engine.level_develops (n : Nat) (scope : Ref .scope) (s : State) :
    (∀ e, ((level n).expr scope e s).Develops s) ∧
    (∀ stmt, ((level n).stmt scope stmt s).Develops s) ∧
    (∀ callee args span, ((level n).call scope callee args span s).Develops s) ∧
    (∀ receiver name args span,
      ((level n).invoke scope receiver name args span s).Develops s) := by
  have hE := level_acts (T := fun _ => True) n
  have hs := State.ready_all scope s
  exact ⟨fun e => (hE.expr scope e s hs).develops, fun stmt => (hE.stmt scope stmt s hs).develops,
    fun callee args span => (hE.call scope callee args span s hs).develops,
    fun receiver name args span => (hE.invoke scope receiver name args span s hs).develops⟩

/-! ### Schedules -/

/-- From a state on, a waiting task will change scopes by operations on the tree only. -/
def Task.Steady (s : State) (t : Task) : Prop :=
  ∀ a u, s.Develops u → (t.resume a u).Develops u

instance : Run.Guarantees State.Develops State.Develops where
  refl := .refl
  trans := .trans
  relied := id
  rely_trans := .trans

/-- **Programs and tasks change scopes by operations on the tree only.** -/
theorem Schedule.rules_develops : Rules State.Develops State.Develops fun _ => True where
  kept _ _ := trivial
  idle := .of_idle
  handedOver _ := .of_eq rfl
  program p s _ := by
    have hbuilt := Engine.program_built (E := .top) (K := .nothing) State.root p
    exact (hbuilt.acts (Engine.level_acts _) _ (State.ready_all _ s)).develops
  spawned d answer s _ := (ofSpawned_acts d answer s (State.ready_all d.scope s)).develops

/-! ### Sessions -/

namespace Session

/-- The tasks that a session has left over are steady. -/
def Steady (s : Session) : Prop := ∀ t ∈ s.tasks, t.Steady s.state

/-- **Programs that run one after another** change scopes by operations on the tree only. -/
theorem runAll_develops {s : Session} (hs : s.Steady) (programs : List Program) :
    s.state.Develops (s.runAll programs).2.state ∧ (s.runAll programs).2.Steady :=
  Schedule.rules_develops.runAll trivial hs programs

theorem start_steady (setup : Setup) : (start setup).Steady := nofun

end Session

/-! ### Constants -/

open ScopeTree

variable {t u : ScopeTree} {r : Ref .scope} {name : String} {v : Value}

/-- The run changes scopes by operations on the tree, and at the end of each stretch the constant is
there, as long as the others change scopes by such operations. -/
abbrev Run.KeepsConstant {α : Type} (r : Ref .scope) (name : String) (v : Value) (s : State)
    (m : Run α) : Prop :=
  m.Along (fun s t => s.Develops t ∧ Constant r name v t.scopes) State.Develops s

theorem Run.Develops.keepsConstant {α : Type} {s : State} {m : Run α} (hm : m.Develops s)
    (hs : Constant r name v s.scopes) : m.KeepsConstant r name v s :=
  hm.always (I := fun s => Constant r name v s.scopes) Constant.of_develops Constant.of_develops hs

/-- **What is bound for good stays bound.** Let a scope of a tree, in which parents come before
their children, bind a name for good. Whatever operations follow, from whatever scopes of the tree,
the scope binds the name to the same value for good; and every further write to the name
in that scope, as every assignment from a scope for which it is the nearest holder of the name, is
refused and leaves the whole tree as it is.

Programs write by these operations only. So in every state whose scopes come from that tree, all
that an evaluation does, up to each of its waits and to its end, are operations on the
tree, and the constant is there; provided that other tasks, too, change scopes by operations on the
tree. And so they do: in a session, whatever programs run after another, with whatever tasks, the
constant is there when they are over. -/
theorem ScopeTree.setConst_lasts (ht : t.Ordered) (hr : (t.node? r).isSome)
    (hset : t.setConst r name v = .ok u) :
    (∀ ops, u.AllOn ops →
      Constant r name v (u.after ops) ∧
      (∀ w, Refused (.set r name w) name (u.after ops)) ∧
      (∀ w, Refused (.setConst r name w) name (u.after ops)) ∧
      ∀ q w, (u.after ops).NearestHolder name q r →
        Refused (.reset q name w) name (u.after ops)) ∧
    (∀ (s : State) (n : Nat) (scope : Ref .scope), u.Develops s.scopes →
      (∀ e, ((Engine.level n).expr scope e s).KeepsConstant r name v s) ∧
      (∀ stmt, ((Engine.level n).stmt scope stmt s).KeepsConstant r name v s) ∧
      (∀ callee args span,
        ((Engine.level n).call scope callee args span s).KeepsConstant r name v s) ∧
      ∀ receiver method args span,
        ((Engine.level n).invoke scope receiver method args span s).KeepsConstant r name v s) ∧
    ∀ (setup : Setup) (before programs : List Program) (session : Session),
      ((Session.start setup).runAll before).2 = session →
      u.Develops session.state.scopes →
      Constant r name v (session.runAll programs).2.state.scopes := by
  have hconst : Constant r name v u := constant_of_setConst hr hset
  refine ⟨fun ops hops => ?_, fun s n scope hs => ?_, ?_⟩
  · have hlast : Constant r name v (u.after ops) := hconst.after ops
    have hordered : (u.after ops).Ordered := by
      have hon : (Op.setConst r name v).On t := hr
      have hrun : (Op.setConst r name v).run t = u := Op.run_of_ok hset
      exact (hrun ▸ ht.run hon).after hops
    exact ⟨hlast, hlast.refused_set, hlast.refused_setConst,
      fun q w hq => hlast.refused_reset hordered hq w⟩
  · have hlast : Constant r name v s.scopes := hconst.of_develops hs
    obtain ⟨hexpr, hstmt, hcall, hinvoke⟩ := Engine.level_develops n scope s
    exact ⟨fun e => (hexpr e).keepsConstant hlast, fun stmt => (hstmt stmt).keepsConstant hlast,
      fun callee args span => (hcall callee args span).keepsConstant hlast,
      fun receiver method args span => (hinvoke receiver method args span).keepsConstant hlast⟩
  · rintro setup before programs session rfl hs
    -- the tasks that earlier programs have left over are steady
    obtain ⟨-, hsteady⟩ := Session.runAll_develops (Session.start_steady setup) before
    obtain ⟨hdev, -⟩ := Session.runAll_develops hsteady programs
    exact (hconst.of_develops hs).of_develops hdev

/-- A host that provides nothing. -/
def bare : Setup := ⟨.empty, .default, none, .empty, false, 0, 0⟩

/-- The program that binds `limit` to a truth value for good. -/
def limiting : Program := [.mk (.constant "limit" (.mk (.bool true) .unknown)) .unknown]

/-- Once `limit` is bound for good, an assignment to it from a nested scope is refused; and when
a program that does so has run twice, the name is bound as the first time. -/
theorem ScopeTree.setConst_lasts_limiting :
    (∃ u, (State.initial bare).scopes.setConst State.root "limit" (.bool true) = .ok u ∧
      Refused (.reset ⟨1⟩ "limit" .nil) "limit" (u.after [.child (some State.root) 0 none])) ∧
    Constant State.root "limit" (.bool true)
      (((Session.start bare).runAll [limiting]).2.runAll [limiting]).2.state.scopes := by
  have hordered : (State.initial bare).scopes.Ordered := ordered_root rfl
  obtain ⟨u, hu⟩ : ∃ u, (State.initial bare).scopes.setConst State.root "limit" (.bool true) =
      .ok u := ⟨_, rfl⟩
  obtain ⟨htree, -, hsession⟩ := setConst_lasts hordered rfl hu
  cases hu
  have hchild := htree [.child (some State.root) 0 none] ⟨fun p hp => by cases hp; rfl, trivial⟩
  refine ⟨⟨_, rfl, hchild.2.2.2 ⟨1⟩ .nil (.outer rfl rfl rfl (.here rfl rfl))⟩, ?_⟩
  exact hsession bare [limiting] [limiting] _ rfl ⟨[], rfl⟩

end ScriptEngine
