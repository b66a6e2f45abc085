import Mathlib.Algebra.BigOperators.Group.Finset.Basic
import Mathlib.Algebra.BigOperators.Ring.Finset
import Mathlib.Data.Fintype.BigOperators
import ScriptEngine.Eval.Level
import ScriptEngine.Proofs.Scopes
import ScriptEngine.Proofs.Sync.Locks
import ScriptEngine.Proofs.Sync.Runs

/-!
# A counter under a mutex

Any number of tasks add one to a shared variable, again and again: each takes the mutex, reads
the variable, writes back what it has read plus one, and releases the mutex. These are four steps,
and the steps of different tasks come in any order (`Counter.Setup.Step`). They are those of a program:
its `lock` enters like the first (`Counter.lock_enters`), and the two in the middle are what an
assignment does that adds one (`Counter.eval_increment`).

No update is lost (`Counter.no_update_lost`): when all tasks are done, the variable has grown by the
number of all rounds, in 64-bit arithmetic; on the way no step fails, and no two tasks are between
lock and unlock at once. That they come to be done is `Counter.exists_step` and
`Counter.length_steps`.

The proof is one invariant (`Counter.Inv`): the mutex is held exactly if some task is inside; there
is at most one; what it has read is still the value of the variable; and the value and the additions
that are due make up the total.
-/

namespace ScriptEngine

namespace Counter

/-- Where a task is in its round. -/
inductive Phase where
  | outside
  | locked
  /-- It has read the variable. -/
  | read (v : Value)
  | written
  | failed

/-- The task is between its lock and its unlock. -/
def Phase.Inside : Phase → Prop
  | .locked | .read _ | .written => True
  | .outside | .failed => False

/-- The additions that are still to be made in this round. -/
def Phase.due : Phase → Nat
  | .locked | .read _ => 1
  | .outside | .written | .failed => 0

/-- The steps that are still to be taken in this round. -/
def Phase.steps : Phase → Nat
  | .locked => 3
  | .read _ => 2
  | .written => 1
  | .outside | .failed => 0

/-- A task: where it is, and how many rounds it has not begun. -/
structure Task where
  phase : Phase
  left : Nat

/-- The additions that a task has still to make, in all its rounds. -/
def Task.due (a : Task) : Nat := a.left + a.phase.due

/-- The steps that a task has still to take, four in each round. -/
def Task.steps (a : Task) : Nat := 4 * a.left + a.phase.steps

/-- What the tasks use: the mutex, the name of the variable, and each its own scope. -/
structure Setup (ι : Type) where
  engine : Engine
  mutex : Ref .mutex
  name : String
  scope : ι → Ref .scope
  span : Span

/-- The state that all tasks share, and the tasks. -/
structure Config (ι : Type) where
  state : State
  task : ι → Task

variable {ι : Type}

open Eval in
/-- What a task does in the next of its steps between lock and unlock. -/
def Setup.act (σ : Setup ι) (i : ι) : Phase → Eval Phase
  | .locked => do
    return .read (← Access.lookup (σ.scope i) σ.name σ.span)
  | .read v => do
    rebindName (σ.scope i) σ.name (← Operators.binary .add v (.int 1) σ.span) σ.span
    return .written
  | .written => do
    let _ ← Dispatch.invoke σ.engine (σ.scope i) (.mutex σ.mutex) "unlock" [] σ.span
    return .outside
  | phase => return phase

/-- One step of the task `i`. -/
inductive Setup.Step [DecidableEq ι] (σ : Setup ι) : Config ι → ι → Config ι → Prop
  /-- The task is outside, and gets the mutex for one more round. -/
  | enter {s t : State} {task : ι → Task} {i : ι} {left : Nat} :
      task i = ⟨.outside, left + 1⟩ → (Wait.mutex σ.mutex).poll? s = some (.done, t) →
      σ.Step ⟨s, task⟩ i ⟨t, Function.update task i ⟨.locked, left⟩⟩
  | act {s t : State} {task : ι → Task} {i : ι} {phase : Phase} :
      (task i).phase.Inside → σ.act i (task i).phase s = .done phase t →
      σ.Step ⟨s, task⟩ i ⟨t, Function.update task i ⟨phase, (task i).left⟩⟩
  | fail {s t : State} {task : ι → Task} {i : ι} {why : Stop} :
      (task i).phase.Inside → σ.act i (task i).phase s = .stop why t →
      σ.Step ⟨s, task⟩ i ⟨t, Function.update task i ⟨.failed, (task i).left⟩⟩

/-! ### What one step does -/

/-- The state in which the scope `h` binds a name to another value. -/
def rebound (s : State) (h : Ref .scope) (name : String) (v : Value) : State :=
  { s with scopes := s.scopes.modify h (·.bind name v) }

/-- All tasks see the variable in the scope `h`. -/
structure Setup.Sees (σ : Setup ι) (h : Ref .scope) (t : ScopeTree) : Prop where
  ordered : t.Ordered
  holder : ∀ i, t.NearestHolder σ.name (σ.scope i) h

variable {σ : Setup ι} {s : State} {i : ι} {h : Ref .scope} {n : Int64}

/-- Every task reads the variable where it is, whatever its own scope. -/
theorem lookup_apply (hs : σ.Sees h s.scopes) (hv : s.scopes.Variable h σ.name (.int n))
    (span : Span) : Access.lookup (σ.scope i) σ.name span s = .done (.int n) s := by
  have hget := hv.get?_eq hs.ordered (hs.holder i)
  rw [Access.lookup, Eval.gets_bind_apply, hget]
  rfl

/-- Every task writes the variable where it is. -/
theorem rebindName_apply (hs : σ.Sees h s.scopes) (hv : s.scopes.Variable h σ.name (.int n))
    (v : Value) (span : Span) :
    Eval.rebindName (σ.scope i) σ.name v span s = .done () (rebound s h σ.name v) := by
  have hholder := (hs.holder i).holder_eq hs.ordered
  rw [Eval.rebindName, Eval.gets_bind_apply, hholder, Eval.bindName, Eval.writeName]
  exact if_neg (by simp [hv.isConstIn])

/-- Inside, a task reads the value that the variable has. -/
theorem act_locked (hs : σ.Sees h s.scopes) (hv : s.scopes.Variable h σ.name (.int n)) :
    σ.act i .locked s = .done (.read (.int n)) s := by
  rw [Setup.act, Eval.bind_of_done (lookup_apply hs hv σ.span)]
  rfl

/-- It writes one more than what it has read. -/
theorem act_read (hs : σ.Sees h s.scopes) (hv : s.scopes.Variable h σ.name (.int n)) :
    σ.act i (.read (.int n)) s = .done .written (rebound s h σ.name (.int (n + 1))) := by
  have hadd : Operators.binary .add (.int n) (.int 1) σ.span s = .done (.int (n + 1)) s := rfl
  rw [Setup.act, Eval.bind_of_done hadd, Eval.bind_of_done (rebindName_apply hs hv _ σ.span)]
  rfl

/-- It releases the mutex, which is held. -/
theorem act_written (hheld : s.sync.mutexes.get? σ.mutex = some ⟨true⟩) :
    σ.act i .written s = .done .outside (s.withMutex σ.mutex .free) := by
  rw [Setup.act, Eval.bind_of_done (Method.invoke_unlock_of_held hheld)]
  rfl

/-- A round begins as the program's `lock` does: with the mutex at once if that is free, and
otherwise after a wait for it, with what the scheduler gives. -/
theorem lock_enters {m : Sync.Mutex} (hm : s.sync.mutexes.get? σ.mutex = some m) :
    (∃ t, (Wait.mutex σ.mutex).poll? s = some (.done, t) ∧
      Dispatch.invoke σ.engine (σ.scope i) (.mutex σ.mutex) "lock" [] σ.span s = .done .nil t) ∨
    Dispatch.invoke σ.engine (σ.scope i) (.mutex σ.mutex) "lock" [] σ.span s =
      .wait (.mutex σ.mutex) s fun _ t => .done .nil t := by
  obtain ⟨locked⟩ := m
  cases locked with
  | false =>
    have hpoll := Wait.poll?_mutex_eq_some.mpr ⟨hm, rfl, rfl⟩
    exact .inl ⟨_, hpoll, Method.invoke_lock_of_free hm⟩
  | true => exact .inr (Method.invoke_lock_of_held hm)

/-- The expression `name + 1`. -/
def successor (name : String) : Expr :=
  .mk (.binary .add (.mk (.name name) .unknown) (.mk (.int 1) .unknown)) .unknown

/-- The expression `name = name + 1`. -/
def increment (name : String) : Expr :=
  .mk (.assign .plain (.mk (.name name) .unknown) (successor name)) .unknown

/-- The two steps inside are those of an assignment `name = name + 1`. -/
theorem eval_increment (hs : σ.Sees h s.scopes) (hv : s.scopes.Variable h σ.name (.int n))
    (k : Nat) :
    (Engine.level (k + 3)).expr (σ.scope i) (increment σ.name) s =
      .done (.int (n + 1)) (rebound s h σ.name (.int (n + 1))) := by
  -- reading the name for the sum is the step that reads
  have hname : (Engine.level (k + 1)).operand (σ.scope i) (.mk (.name σ.name) .unknown) s =
      .done (.int n) s :=
    (Eval.bind_of_done (lookup_apply hs hv .unknown) _).trans rfl
  have hsum : (Engine.level (k + 2)).expr (σ.scope i) (successor σ.name) s =
      .done (.int (n + 1)) s :=
    (Eval.bind_of_done hname _).trans rfl
  -- and storing the sum is the one that writes
  have hassign : (Engine.level (k + 3)).expr (σ.scope i) (increment σ.name) s =
      ((Engine.level (k + 2)).expr (σ.scope i) (successor σ.name) >>= fun v =>
        Eval.rebindName (σ.scope i) σ.name v .unknown >>= fun _ => pure v) s := rfl
  rw [hassign, Eval.bind_of_done hsum, Eval.bind_of_done (rebindName_apply hs hv _ .unknown)]
  rfl

/-! ### The invariant -/

variable [DecidableEq ι] [Fintype ι] {total : Int64}

/-- Only the task that takes the step counts anew. -/
theorem sum_update (f : Task → Nat) (task : ι → Task) (i : ι) (a : Task) :
    (∑ j, f (Function.update task i a j)) + f (task i) = (∑ j, f (task j)) + f a := by
  have hrest : ∀ j ∈ Finset.univ.erase i, f (Function.update task i a j) = f (task j) := by
    intro j hj
    rw [Function.update_of_ne (Finset.ne_of_mem_erase hj)]
  have hnew := Finset.add_sum_erase Finset.univ (fun j => f (Function.update task i a j))
    (Finset.mem_univ i)
  have hold := Finset.add_sum_erase Finset.univ (fun j => f (task j)) (Finset.mem_univ i)
  rw [Finset.sum_congr rfl hrest, Function.update_self] at hnew
  omega

/-- The variable, in the scope `h`, has the value `n`, and the mutex is held by `owner`. -/
structure Inv (σ : Setup ι) (h : Ref .scope) (total : Int64) (owner : Option ι) (n : Int64)
    (c : Config ι) : Prop where
  sees : σ.Sees h c.state.scopes
  binds : c.state.scopes.Variable h σ.name (.int n)
  mutex : c.state.sync.mutexes.get? σ.mutex = some ⟨owner.isSome⟩
  /-- Inside is who holds the mutex, and nobody else. -/
  inside : ∀ i, (c.task i).phase.Inside ↔ owner = some i
  /-- What has been read is still the value of the variable. -/
  read : ∀ i v, (c.task i).phase = .read v → v = .int n
  unfailed : ∀ i, (c.task i).phase ≠ .failed
  /-- The value and what is due make up the total. -/
  balance : n + Int64.ofNat (∑ i, (c.task i).due) = total

variable {owner owner' : Option ι} {n' : Int64} {c c' : Config ι} {t : State} {a : Task}

/-- The invariant after a step of the task `i`, if nobody else is or comes to be inside. -/
theorem Inv.update (hc : Inv σ h total owner n c) (howner : ∀ j ≠ i, owner ≠ some j)
    (howner' : ∀ j ≠ i, owner' ≠ some j) (hsees : σ.Sees h t.scopes)
    (hbinds : t.scopes.Variable h σ.name (.int n'))
    (hmutex : t.sync.mutexes.get? σ.mutex = some ⟨owner'.isSome⟩)
    (hinside : a.phase.Inside ↔ owner' = some i) (hread : ∀ v, a.phase = .read v → v = .int n')
    (hunfailed : a.phase ≠ .failed)
    (hbalance : n' + Int64.ofNat a.due = n + Int64.ofNat (c.task i).due) :
    Inv σ h total owner' n' ⟨t, Function.update c.task i a⟩ := by
  refine ⟨hsees, hbinds, hmutex, fun j => ?_, fun j v hv => ?_, fun j => ?_, ?_⟩
  · -- every other task is where it was, and that is outside
    by_cases hj : j = i
    · subst hj
      simpa using hinside
    · have houtside : ¬ (c.task j).phase.Inside := fun h => howner j hj ((hc.inside j).mp h)
      simp [hj, houtside, howner' j hj]
  · by_cases hj : j = i
    · subst hj
      exact hread v (by simpa using hv)
    · -- who has read something is inside
      simp only [ne_eq, hj, not_false_eq_true, Function.update_of_ne] at hv
      have hinside_j : (c.task j).phase.Inside := by rw [hv]; trivial
      exact absurd ((hc.inside j).mp hinside_j) (howner j hj)
  · by_cases hj : j = i
    · subst hj
      simpa using hunfailed
    · simpa [hj] using hc.unfailed j
  · -- the others are due what they were
    have hsum := congrArg Int64.ofNat (sum_update Task.due c.task i a)
    rw [Int64.ofNat_add, Int64.ofNat_add] at hsum
    have htotal := hc.balance
    grind

/-- Getting the mutex, a task begins a round. -/
theorem Inv.enter {left : Nat} (hc : Inv σ h total owner n c)
    (hi : c.task i = ⟨.outside, left + 1⟩)
    (hpoll : (Wait.mutex σ.mutex).poll? c.state = some (.done, t)) :
    Inv σ h total (some i) n ⟨t, Function.update c.task i ⟨.locked, left⟩⟩ := by
  obtain ⟨hfree, -, rfl⟩ := Wait.poll?_mutex_eq_some.mp hpoll
  -- a free mutex has no owner
  have hnone : owner = none := by
    have hmutex := hc.mutex.symm.trans hfree
    cases owner with
    | none => rfl
    | some j => cases hmutex
  subst hnone
  refine hc.update (fun j _ => nofun) (fun j hj => ?_) hc.sees hc.binds ?_ ?_ nofun nofun ?_
  · simpa using Ne.symm hj
  · exact State.withMutex_mutexes hfree ⟨true⟩
  · simp [Phase.Inside]
  · rw [hi]
    rfl

/-- **Inside, every step can be taken,** and keeps the invariant. -/
theorem Inv.act (hc : Inv σ h total owner n c) (hi : (c.task i).phase.Inside) :
    ∃ phase t owner' n', σ.act i (c.task i).phase c.state = .done phase t ∧
      phase.steps + 1 = (c.task i).phase.steps ∧
      Inv σ h total owner' n' ⟨t, Function.update c.task i ⟨phase, (c.task i).left⟩⟩ := by
  -- who is inside is the owner, so the others are outside before and after the step
  obtain rfl := (hc.inside i).mp hi
  have hothers : ∀ j ≠ i, some i ≠ some j := fun j hj hij => hj (Option.some.inj hij).symm
  cases hphase : (c.task i).phase with
  | outside | failed =>
    rw [hphase] at hi
    exact hi.elim
  | locked =>
    -- it reads, and nothing changes but what it holds
    refine ⟨_, _, some i, n, act_locked hc.sees hc.binds, rfl, ?_⟩
    refine hc.update hothers hothers hc.sees hc.binds hc.mutex (by simp [Phase.Inside]) ?_ nofun ?_
    · rintro v ⟨⟩
      rfl
    · simp [Task.due, hphase, Phase.due]
  | read v =>
    -- nobody has written since it has read, so what it writes is one more than what is there
    obtain rfl := hc.read i v hphase
    refine ⟨_, _, some i, n + 1, act_read hc.sees hc.binds, rfl, ?_⟩
    refine hc.update hothers hothers ?_ (hc.binds.modify_bind _) hc.mutex (by simp [Phase.Inside])
      nofun nofun ?_
    · exact ⟨hc.binds.ordered_modify hc.sees.ordered _, fun j => (hc.sees.holder j).modify_bind _⟩
    · -- one addition less is due
      simp only [Task.due, hphase, Phase.due, Int64.ofNat_add]
      grind
  | written =>
    -- the mutex is held, by the task itself, so it can be released
    refine ⟨_, _, none, n, act_written hc.mutex, rfl, ?_⟩
    refine hc.update hothers (fun j _ => nofun) hc.sees hc.binds ?_ (by simp [Phase.Inside]) nofun
      nofun ?_
    · exact State.withMutex_mutexes hc.mutex .free
    · simp [Task.due, hphase, Phase.due]

/-- **Every step keeps the invariant,** and is one of those that are still to be taken. -/
theorem Inv.step (hc : Inv σ h total owner n c) (hstep : σ.Step c i c') :
    (∃ owner' n', Inv σ h total owner' n' c') ∧
      (∑ j, (c'.task j).steps) + 1 = ∑ j, (c.task j).steps := by
  cases hstep with
  | @enter _ t task _ left hi hpoll =>
    refine ⟨⟨_, _, hc.enter hi hpoll⟩, ?_⟩
    have hsum := sum_update Task.steps task i ⟨.locked, left⟩
    rw [hi] at hsum
    simp only [Task.steps, Phase.steps] at hsum ⊢
    omega
  | @act _ _ task _ phase hi hact =>
    -- the step that is taken is the one that can be taken
    obtain ⟨phase', t', owner', n', hact', hsteps, hinv⟩ := hc.act hi
    cases hact.symm.trans hact'
    refine ⟨⟨owner', n', hinv⟩, ?_⟩
    have hsum := sum_update Task.steps task i ⟨phase, (task i).left⟩
    simp only [Task.steps] at hsum hsteps ⊢
    omega
  | fail hi hfail =>
    -- the step can be taken, so it does not fail
    obtain ⟨phase', t', owner', n', hact', -⟩ := hc.act hi
    exact nomatch hfail.symm.trans hact'

/-! ### Runs -/

/-- Everybody is outside with some rounds to go, and sees the variable with the value `n`. -/
structure Setup.Ready (σ : Setup ι) (h : Ref .scope) (n : Int64) (rounds : ι → Nat) (c : Config ι) :
    Prop where
  sees : σ.Sees h c.state.scopes
  binds : c.state.scopes.Variable h σ.name (.int n)
  mutex : c.state.sync.mutexes.get? σ.mutex = some .free
  task : ∀ i, c.task i = ⟨.outside, rounds i⟩

variable {rounds : ι → Nat} {events : List ι}

omit [DecidableEq ι] in
/-- In the beginning the invariant holds, with nobody inside and all rounds due. -/
theorem Setup.Ready.inv (hc : σ.Ready h n rounds c) :
    Inv σ h (n + Int64.ofNat (∑ i, rounds i)) none n c := by
  refine ⟨hc.sees, hc.binds, hc.mutex, fun i => ?_, fun i v hv => ?_, fun i => ?_, ?_⟩
  · simp [hc.task, Phase.Inside]
  · simp [hc.task] at hv
  · simp [hc.task]
  · simp [hc.task, Task.due, Phase.due]

/-- Every step keeps the invariant, so it holds wherever a run gets to. -/
theorem Setup.Ready.reaches (hc : σ.Ready h n rounds c) (hrun : Runs σ.Step c events c') :
    ∃ owner' n', Inv σ h (n + Int64.ofNat (∑ i, rounds i)) owner' n' c' :=
  hrun.invariant (P := fun c => ∃ owner n', Inv σ h (n + Int64.ofNat (∑ i, rounds i)) owner n' c)
    (fun hinv hstep => by
      obtain ⟨owner, n', hinv⟩ := hinv
      exact (hinv.step hstep).1)
    ⟨none, n, hc.inv⟩

/-- **No update is lost.** However the steps of the tasks are interleaved, no step fails, at most
one task is between its lock and its unlock, and when all are done, the variable has grown by the
number of all rounds. -/
theorem no_update_lost (hc : σ.Ready h n rounds c) (hrun : Runs σ.Step c events c') :
    (∀ i, (c'.task i).phase ≠ .failed) ∧
    (∀ i j, (c'.task i).phase.Inside → (c'.task j).phase.Inside → i = j) ∧
    ((∀ i, c'.task i = ⟨.outside, 0⟩) → ∀ i,
      c'.state.scopes.get? (σ.scope i) σ.name = some (.int (n + Int64.ofNat (∑ i, rounds i)))) := by
  obtain ⟨owner, n', hinv⟩ := hc.reaches hrun
  refine ⟨hinv.unfailed, fun i j hi hj => ?_, fun hdone i => ?_⟩
  · -- both hold the mutex
    have hij := ((hinv.inside i).mp hi).symm.trans ((hinv.inside j).mp hj)
    exact Option.some.inj hij
  · -- nothing is due any more
    have hvalue : n' = n + Int64.ofNat (∑ i, rounds i) := by
      have hbalance := hinv.balance
      simpa [hdone, Task.due, Phase.due] using hbalance
    rw [hinv.binds.get?_eq hinv.sees.ordered (hinv.sees.holder i), hvalue]

/-- **A run has four steps for each round** when all are done, and fewer before. -/
theorem length_steps (hc : σ.Ready h n rounds c) (hrun : Runs σ.Step c events c') :
    events.length + ∑ i, (c'.task i).steps = 4 * ∑ i, rounds i := by
  have hcount := hrun.history
    (P := fun past c => (∃ owner n', Inv σ h (n + Int64.ofNat (∑ i, rounds i)) owner n' c) ∧
      past.length + ∑ i, (c.task i).steps = 4 * ∑ i, rounds i) ?_ ?_
  · exact hcount.2
  -- what was counted before, and one step that is no longer to be taken
  · rintro past c i c' ⟨⟨owner, n', hinv⟩, hpast⟩ hstep
    obtain ⟨hinv', hsteps⟩ := hinv.step hstep
    refine ⟨hinv', ?_⟩
    rw [List.length_append, List.length_singleton]
    omega
  · refine ⟨⟨none, n, hc.inv⟩, ?_⟩
    simp [hc.task, Task.steps, Phase.steps, Finset.mul_sum]

/-- **Somebody can always go on** unless all are done. -/
theorem exists_step (hc : σ.Ready h n rounds c) (hrun : Runs σ.Step c events c')
    (hleft : ∃ i, c'.task i ≠ ⟨.outside, 0⟩) : ∃ i c'', σ.Step c' i c'' := by
  obtain ⟨owner, n', hinv⟩ := hc.reaches hrun
  cases owner with
  | some i =>
    -- who is inside can go on
    have hi : (c'.task i).phase.Inside := (hinv.inside i).mpr rfl
    obtain ⟨phase, t, owner', n'', hact, -⟩ := hinv.act hi
    exact ⟨i, _, .act hi hact⟩
  | none =>
    -- the mutex is free, and a task with a round to go can have it
    obtain ⟨i, hi⟩ := hleft
    have hpoll := Wait.poll?_mutex_eq_some.mpr ⟨hinv.mutex, rfl, rfl⟩
    have hnot : ¬ (c'.task i).phase.Inside := fun h => nomatch (hinv.inside i).mp h
    have hunfailed := hinv.unfailed i
    generalize htask : c'.task i = a at hi hnot hunfailed
    obtain ⟨phase, left⟩ := a
    cases phase with
    | outside =>
      cases left with
      | zero => exact absurd rfl hi
      | succ left => exact ⟨i, _, .enter htask hpoll⟩
    | failed => exact absurd rfl hunfailed
    | locked | read _ | written => exact absurd trivial hnot

/-- Two tasks that work in the scope of a program, where `n` is 40. -/
def twoTasks : Setup Bool := ⟨.idle, ⟨0⟩, "n", fun _ => State.root, .unknown⟩

/-- The beginning for them, with one round each. -/
def twoRounds : Config Bool :=
  let s := State.initial ⟨.empty, .default, none, .empty, false, 0, 0⟩
  { state := { s with
      scopes := ⟨#[(Scope.fresh none 0 none).bind "n" (.int 40)]⟩
      sync := { s.sync with mutexes := ⟨#[.free]⟩ } }
    task := fun _ => ⟨.outside, 1⟩ }

/-- One task after the other adds one, which makes 42. -/
theorem no_update_lost_twoTasks :
    ∃ c, Runs twoTasks.Step twoRounds [true, true, true, true, false, false, false, false] c ∧
      c.state.scopes.get? State.root "n" = some (.int 42) := by
  have hready : twoTasks.Ready State.root 40 (fun _ => 1) twoRounds :=
    ⟨⟨ScopeTree.ordered_root rfl, fun _ => .here rfl rfl⟩, ⟨_, rfl, rfl, rfl⟩, rfl, fun _ => rfl⟩
  obtain ⟨c, hrun, hdone⟩ : ∃ c,
      Runs twoTasks.Step twoRounds [true, true, true, true, false, false, false, false] c ∧
      ∀ i, c.task i = ⟨.outside, 0⟩ :=
    ⟨_, .cons (.enter rfl rfl) <| .cons (.act trivial rfl) <| .cons (.act trivial rfl) <|
      .cons (.act trivial rfl) <| .cons (.enter rfl rfl) <| .cons (.act trivial rfl) <|
      .cons (.act trivial rfl) <| .cons (.act trivial rfl) <| .nil _, fun i => by cases i <;> rfl⟩
  exact ⟨c, hrun, (no_update_lost hready hrun).2.2 hdone true⟩

end Counter

end ScriptEngine
