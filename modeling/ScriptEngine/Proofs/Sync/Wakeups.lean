import Mathlib.Logic.Function.Basic
import ScriptEngine.Proofs.Sync.Locks
import ScriptEngine.Proofs.Sync.Runs

/-!
# Who consumes a wakeup

A task that waits on a condition variable registers and releases the lock, consumes a wakeup,
and takes the lock again. Between these steps other tasks lock and unlock, signal and broadcast.
`Waits.Step` has a constructor for each, made of the operations that the methods and the scheduler
themselves use, on a state that all tasks share.

One would like a wait to consume a wakeup only after a notification that was issued since the wait
registered (`Waits.Heard`). This is not so: wakeups are counted and do not name the waits they are
meant for. A wait that registers while one is pending may consume it at once, and one of the waits
that were notified goes on waiting (`Waits.not_heard`). The exact condition is that no wakeup is
pending when the wait registers (`Waits.heard_iff`). For a program the same condition decides
whether `wait` waits at all (`Method.wait_waits_iff`), and its `signal` and `broadcast` are those of
the steps (`Method.notify_is_move`): who goes on after them is a matter of turns, and the steps of a
run may come in any order.

What does hold in every run is a count (`Waits.count_steps`): a wait that has registered is a
waiter until it consumes, and there are never more wakeups pending than waiters.
-/

namespace ScriptEngine

namespace Sync.Cond

variable {d : Cond}

/-- A notification wakes waiters and does not change their number. -/
theorem waiters_grant (now n : Nat) : (d.grant now n).waiters = d.waiters := by
  unfold grant
  split <;> rfl

/-- So wakeups do not outnumber the waiters, if no more are asked for than there are. -/
theorem wakeups_grant_le (now : Nat) {n : Nat} (h : d.wakeups ≤ d.waiters)
    (hn : d.wakeups < d.waiters → n ≤ d.waiters) : (d.grant now n).wakeups ≤ d.waiters := by
  unfold grant
  split
  · next hlt => exact hn hlt
  · exact h

end Sync.Cond

/-- The state with another condition variable at a place. -/
def State.withCond (s : State) (r : Ref .cond) (d : Sync.Cond) : State :=
  Wait.withSync s fun t => { t with conds := t.conds.set r d }

/-- Where there is a condition variable, the new one takes its place. -/
theorem State.withCond_conds {s t : State} {r : Ref .cond} {d : Sync.Cond}
    (hs : s.sync.conds.get? r = some d) (ht : t.sync.conds = s.sync.conds) (d' : Sync.Cond) :
    (t.withCond r d').sync.conds.get? r = some d' := by
  have hr : t.sync.conds.get? r = some d := by
    rw [ht]
    exact hs
  exact Table.get?_set_of_some hr d'

namespace Waits

/-! ### Tasks that share a condition variable -/

/-- Where a task is in a wait. -/
inductive Phase where
  | outside
  /-- It has registered and released the lock. -/
  | waiting
  /-- It has consumed a wakeup and wants the lock back. -/
  | woken

/-- What a task can do. -/
inductive Move where
  | lock
  | unlock
  | register
  | consume
  | retake
  | signal
  | broadcast
deriving DecidableEq

/-- The state that all tasks share, and where each of them is. -/
structure Config (ι : Type) where
  state : State
  phase : ι → Phase

variable {ι : Type} [DecidableEq ι]

/-- One step of one task. Whoever is not in a wait may lock, unlock, signal and broadcast, and begin
to wait if the lock is held. -/
inductive Step (r : Ref .cond) : Config ι → ι × Move → Config ι → Prop
  | lock {s t : State} {phase : ι → Phase} {i : ι} {d : Sync.Cond} :
      phase i = .outside → s.sync.conds.get? r = some d →
      Method.retakeLock d.lock s = .done () t →
      Step r ⟨s, phase⟩ (i, .lock) ⟨t, phase⟩
  | unlock {s t : State} {phase : ι → Phase} {i : ι} {d : Sync.Cond} :
      phase i = .outside → s.sync.conds.get? r = some d →
      Method.releaseLock d.lock s = .done (.ok ()) t →
      Step r ⟨s, phase⟩ (i, .unlock) ⟨t, phase⟩
  | register {s t : State} {phase : ι → Phase} {i : ι} {d : Sync.Cond} :
      phase i = .outside → s.sync.conds.get? r = some d →
      Method.releaseLock d.lock s = .done (.ok ()) t →
      Step r ⟨s, phase⟩ (i, .register)
        ⟨t.withCond r d.register, Function.update phase i .waiting⟩
  | consume {s t : State} {phase : ι → Phase} {i : ι} :
      phase i = .waiting → (Wait.wakeup r).poll? s = some (.done, t) →
      Step r ⟨s, phase⟩ (i, .consume) ⟨t, Function.update phase i .woken⟩
  | retake {s t : State} {phase : ι → Phase} {i : ι} {d : Sync.Cond} :
      phase i = .woken → s.sync.conds.get? r = some d →
      Method.retakeLock d.lock s = .done () t →
      Step r ⟨s, phase⟩ (i, .retake) ⟨t, Function.update phase i .outside⟩
  | signal {s : State} {phase : ι → Phase} {i : ι} {d : Sync.Cond} :
      phase i = .outside → s.sync.conds.get? r = some d →
      Step r ⟨s, phase⟩ (i, .signal) ⟨s.withCond r (d.signal s.clock), phase⟩
  | broadcast {s : State} {phase : ι → Phase} {i : ι} {d : Sync.Cond} :
      phase i = .outside → s.sync.conds.get? r = some d →
      Step r ⟨s, phase⟩ (i, .broadcast) ⟨s.withCond r (d.broadcast s.clock), phase⟩

/-- The event is a signal or a broadcast. -/
def Notifies (e : ι × Move) : Prop := e.2 = .signal ∨ e.2 = .broadcast

/-- Every wait that consumes a wakeup does so after a notification issued since it registered. -/
def Heard (events : List (ι × Move)) : Prop :=
  ∀ before i between after,
    events = before ++ (i, .register) :: between ++ (i, .consume) :: after →
    ∃ e ∈ between, Notifies e

/-! ### What a step does to the condition variable -/

/-- The condition variable after a move at a time, if the move can be made. -/
def Move.onCond (now : Nat) (d : Sync.Cond) : Move → Option Sync.Cond
  | .lock | .unlock | .retake => some d
  | .register => some d.register
  | .consume => d.consume?
  | .signal => some (d.signal now)
  | .broadcast => some (d.broadcast now)

/-- The scheduler wakes a task by a wakeup that is pending, and counts it off. -/
theorem poll?_wakeup_eq_some {r : Ref .cond} {s t : State} {d : Sync.Cond} {a : Answer}
    (hs : s.sync.conds.get? r = some d) :
    (Wait.wakeup r).poll? s = some (a, t) ↔
      ∃ d', d.consume? = some d' ∧ a = .done ∧ t = s.withCond r d' := by
  simp only [Wait.poll?, Wait.grant, hs, Option.bind_some, Option.map_eq_some_iff, Prod.mk.injEq]
  constructor
  · rintro ⟨d', hd', rfl, rfl⟩
    exact ⟨d', hd', rfl, rfl⟩
  · rintro ⟨d', hd', rfl, rfl⟩
    exact ⟨d', hd', rfl, rfl⟩

variable {r : Ref .cond} {c c' : Config ι} {d : Sync.Cond} {i : ι} {m : Move}

/-- **What a step does to the condition variable** is what its move does. -/
theorem Step.onCond (h : Step r c (i, m) c') (hd : c.state.sync.conds.get? r = some d) :
    ∃ d', m.onCond c.state.clock d = some d' ∧ c'.state.sync.conds.get? r = some d' := by
  cases h with
  -- taking and giving back the lock is no matter of the condition variable
  | lock _ _ ht | retake _ _ ht =>
    have hconds := Method.retakeLock_conds ht
    exact ⟨d, rfl, by rw [hconds]; exact hd⟩
  | unlock _ _ ht =>
    have hconds := Method.releaseLock_conds ht
    exact ⟨d, rfl, by rw [hconds]; exact hd⟩
  | register _ hd' ht =>
    -- releasing the lock is no matter of the condition variable
    obtain rfl := Option.some.inj (hd.symm.trans hd')
    exact ⟨_, rfl, State.withCond_conds hd (Method.releaseLock_conds ht) _⟩
  | consume _ ht =>
    obtain ⟨d', hd', -, rfl⟩ := (poll?_wakeup_eq_some hd).mp ht
    exact ⟨d', hd', State.withCond_conds hd rfl _⟩
  | signal _ hd' | broadcast _ hd' =>
    obtain rfl := Option.some.inj (hd.symm.trans hd')
    exact ⟨_, rfl, State.withCond_conds hd rfl _⟩

/-! ### What a run does to it -/

/-- Where nothing is pending, nothing is until somebody notifies. -/
theorem silent_steps {events : List (ι × Move)} (h : Runs (Step r) c events c')
    (hsilent : ∀ e ∈ events, ¬ Notifies e) (hd : c.state.sync.conds.get? r = some d)
    (hzero : d.wakeups = 0) :
    ∃ d', c'.state.sync.conds.get? r = some d' ∧ d'.wakeups = 0 := by
  -- along the run the condition variable changes, with nothing pending on it
  induction h generalizing d with
  | nil => exact ⟨d, hd, hzero⟩
  | @cons _ _ _ e rest he _ ih =>
    obtain ⟨i, m⟩ := e
    obtain ⟨d₁, hm, hd₁⟩ := he.onCond hd
    have hsilent_m : ¬ Notifies (i, m) := hsilent _ List.mem_cons_self
    have hzero₁ : d₁.wakeups = 0 := by
      cases m with
      | signal => exact absurd (.inl rfl) hsilent_m
      | broadcast => exact absurd (.inr rfl) hsilent_m
      | consume => simp [Move.onCond, Sync.Cond.consume?, hzero] at hm
      | lock | unlock | retake | register =>
        cases hm
        exact hzero
    exact ih (fun e he => hsilent e (List.mem_cons_of_mem _ he)) hd₁ hzero₁

/-- With nothing pending, nobody consumes. -/
theorem not_consume_of_zero (hd : c.state.sync.conds.get? r = some d) (hzero : d.wakeups = 0) :
    ¬ Step r c (i, .consume) c' := by
  intro h
  obtain ⟨d', hm, -⟩ := h.onCond hd
  simp [Move.onCond, Sync.Cond.consume?, hzero] at hm

/-- The lock is held, so that a task may begin to wait. -/
def Held (c : Config ι) (d : Sync.Cond) : Prop :=
  ∃ t, Method.releaseLock d.lock c.state = .done (.ok ()) t

/-- While a wakeup is pending, a wait can register and consume it without anything in between. -/
theorem register_consume (hd : c.state.sync.conds.get? r = some d) (hi : c.phase i = .outside)
    (hheld : Held c d) (hpending : d.wakeups ≠ 0) :
    ∃ c', Runs (Step r) c [(i, .register), (i, .consume)] c' := by
  obtain ⟨s, phase⟩ := c
  obtain ⟨t, ht⟩ := hheld
  have hconsume : d.register.consume? =
      some { d.register with wakeups := d.wakeups - 1, waiters := d.register.waiters - 1 } :=
    if_neg hpending
  have hregistered : (t.withCond r d.register).sync.conds.get? r = some d.register :=
    State.withCond_conds hd (Method.releaseLock_conds ht) _
  -- the scheduler finds the wakeup, which registering has left pending
  have hpoll := (poll?_wakeup_eq_some hregistered).mpr ⟨_, hconsume, rfl, rfl⟩
  have hwaiting : Function.update phase i .waiting i = .waiting := Function.update_self ..
  exact ⟨_, .cons (.register hi hd ht) (.cons (.consume hwaiting hpoll) (.nil _))⟩

/-- **When a wait is sure to consume only what was granted since it registered:** exactly if no
wakeup is pending when it registers. -/
theorem heard_iff (hd : c.state.sync.conds.get? r = some d) (hi : c.phase i = .outside)
    (hheld : Held c d) :
    (∀ between c', Runs (Step r) c ((i, .register) :: between ++ [(i, .consume)]) c' →
      ∃ e ∈ between, Notifies e) ↔ d.wakeups = 0 := by
  constructor
  · intro h
    by_contra hpending
    -- what is pending can be consumed at once, with nothing in between
    obtain ⟨c', hc'⟩ := register_consume hd hi hheld hpending
    obtain ⟨e, he, -⟩ := h [] c' hc'
    exact absurd he List.not_mem_nil
  · intro hzero between c' hrun
    by_contra hnone
    have hsilent : ∀ e ∈ between, ¬ Notifies e := fun e he hn => hnone ⟨e, he, hn⟩
    obtain ⟨c₂, hbefore, hconsume⟩ := Runs.append_iff.mp hrun
    obtain ⟨c₁, hregister, hbetween⟩ := Runs.cons_iff.mp hbefore
    -- registering grants nothing, and nothing else has granted anything
    obtain ⟨d₁, hm, hd₁⟩ := hregister.onCond hd
    obtain rfl : d.register = d₁ := Option.some.inj hm
    obtain ⟨d₂, hd₂, hzero₂⟩ := silent_steps hbetween hsilent hd₁ hzero
    obtain ⟨c₃, hstep, -⟩ := Runs.cons_iff.mp hconsume
    exact not_consume_of_zero hd₂ hzero₂ hstep

/-- What one move adds to the counts. -/
theorem Move.onCond_counts {now : Nat} {d' : Sync.Cond} (h : m.onCond now d = some d')
    (hle : d.wakeups ≤ d.waiters) :
    d'.wakeups ≤ d'.waiters ∧
      d'.waiters + (if m = .consume then 1 else 0) =
        d.waiters + (if m = .register then 1 else 0) := by
  cases m with
  | lock | unlock | retake =>
    cases h
    exact ⟨hle, rfl⟩
  | register =>
    cases h
    exact ⟨Nat.le_succ_of_le hle, rfl⟩
  | consume =>
    simp only [onCond, Sync.Cond.consume?] at h
    split at h
    · cases h
    · cases h
      simp only [reduceCtorEq, if_true, if_false]
      omega
  -- a signal asks for one more wakeup, a broadcast for one for each waiter
  | signal =>
    obtain rfl : d.grant now (d.wakeups + 1) = d' := Option.some.inj h
    rw [Sync.Cond.waiters_grant]
    exact ⟨Sync.Cond.wakeups_grant_le now hle id, rfl⟩
  | broadcast =>
    obtain rfl : d.grant now d.waiters = d' := Option.some.inj h
    rw [Sync.Cond.waiters_grant]
    exact ⟨Sync.Cond.wakeups_grant_le now hle fun _ => Nat.le_refl _, rfl⟩

/-- **A wait that has registered is a waiter until it consumes,** in every run from a fresh
condition variable, and there are never more wakeups pending than waiters. -/
theorem count_steps {events : List (ι × Move)} {lock : Sync.CondLock}
    (h : Runs (Step r) c events c') (hc : c.state.sync.conds.get? r = some (.fresh lock)) :
    ∃ d, c'.state.sync.conds.get? r = some d ∧ d.wakeups ≤ d.waiters ∧
      d.waiters + events.countP (·.2 = .consume) = events.countP (·.2 = .register) := by
  refine Runs.history (P := fun past c => ∃ d, c.state.sync.conds.get? r = some d ∧
    d.wakeups ≤ d.waiters ∧
    d.waiters + past.countP (·.2 = .consume) = past.countP (·.2 = .register)) ?_ h
    ⟨_, hc, Nat.le_refl 0, rfl⟩
  -- one more event adds the same to both sides
  rintro past c ⟨i, m⟩ c' ⟨d, hd, hle, hcount⟩ hstep
  obtain ⟨d', hm, hd'⟩ := hstep.onCond hd
  obtain ⟨hle', hcount'⟩ := Move.onCond_counts hm hle
  refine ⟨d', hd', hle', ?_⟩
  simp only [List.countP_append, List.countP_singleton, decide_eq_true_eq]
  omega

/-! ### A wakeup that goes astray -/

/-- Two tasks with a condition variable and its mutex. -/
def twoTasks (m : Sync.Mutex) : Config Bool :=
  let s := State.initial ⟨.empty, .default, none, .empty, false, 0, 0⟩
  { state := { s with sync := { s.sync with
      mutexes := ⟨#[m]⟩
      conds := ⟨#[.fresh (.mutex ⟨0⟩)]⟩ } }
    phase := fun _ => .outside }

/-- Nothing is pending on a fresh condition variable, so nobody consumes a wakeup there unheard. -/
theorem heard_iff_fresh :
    (Sync.Cond.fresh (.mutex ⟨0⟩)).wakeups = 0 ∧
    ¬ ∃ between c', Runs (Step ⟨0⟩) (twoTasks ⟨true⟩)
      ((false, .register) :: between ++ [(false, .consume)]) c' ∧ ∀ e ∈ between, ¬ Notifies e := by
  have hzero : (Sync.Cond.fresh (.mutex ⟨0⟩)).wakeups = 0 := rfl
  refine ⟨hzero, ?_⟩
  rintro ⟨between, c', hrun, hsilent⟩
  have hheld : Held (twoTasks ⟨true⟩) (.fresh (.mutex ⟨0⟩)) := ⟨_, rfl⟩
  obtain ⟨e, he, hnotifies⟩ :=
    (heard_iff (d := .fresh (.mutex ⟨0⟩)) rfl rfl hheld).mpr hzero between c' hrun
  exact hsilent e he hnotifies

/-- **A wait consumes what was granted to another.** The first task waits and is notified; the task
that has notified it waits in turn, and consumes the wakeup, with no notification since it has
registered. The first task is still waiting. -/
theorem not_heard :
    ∃ events c, Runs (Step ⟨0⟩) (twoTasks .free) events c ∧ ¬ Heard events ∧
      c.phase true = .waiting := by
  obtain ⟨c, hrun, hwaiting⟩ : ∃ c, Runs (Step ⟨0⟩) (twoTasks .free)
      [(true, .lock), (true, .register), (false, .lock), (false, .signal), (false, .register),
        (false, .consume)] c ∧ c.phase true = .waiting :=
    ⟨_, .cons (.lock rfl rfl rfl) <| .cons (.register rfl rfl rfl) <| .cons (.lock rfl rfl rfl) <|
      .cons (.signal rfl rfl) <| .cons (.register rfl rfl rfl) <| .cons (.consume rfl rfl) <|
      .nil _, rfl⟩
  refine ⟨_, c, hrun, fun hheard => ?_, hwaiting⟩
  -- nothing happens between the last two events
  obtain ⟨e, he, -⟩ := hheard [(true, .lock), (true, .register), (false, .lock), (false, .signal)]
    false [] [] rfl
  exact absurd he List.not_mem_nil

end Waits

namespace Method

variable {site : CallSite} {r : Ref .cond} {s t : State} {d d' : Sync.Cond}

/-- Storing a condition variable changes the state just so. -/
theorem setCond_apply : setCond r d s = .done () (s.withCond r d) := rfl

/-- With no wakeup pending, `wait` registers and waits, and takes the lock back after that. -/
theorem waitOn_of_none (hd : s.sync.conds.get? r = some d)
    (hrelease : releaseLock d.lock s = .done (.ok ()) t) (hnone : d.register.consume? = none) :
    waitOn site r s = .wait (.wakeup r) (t.withCond r d.register) fun _ u =>
      (retakeLock d.lock u).andThen fun _ u => .done .nil u := by
  rw [waitOn, Eval.gets_bind_apply, hd]
  -- nothing pending is what registering finds, since it grants nothing
  simp only [Eval.bind_apply, hrelease, Run.andThen, hnone, setCond_apply, Eval.discard_await_apply]
  rfl

/-- With a wakeup pending, `wait` consumes it and takes the lock back. -/
theorem waitOn_of_pending (hd : s.sync.conds.get? r = some d)
    (hrelease : releaseLock d.lock s = .done (.ok ()) t)
    (hpending : d.register.consume? = some d') :
    waitOn site r s = (retakeLock d.lock (t.withCond r d')).andThen fun _ u => .done .nil u := by
  rw [waitOn, Eval.gets_bind_apply, hd]
  simp only [Eval.bind_apply, hrelease, Run.andThen, hpending, setCond_apply]
  rfl

/-- **A program's `wait` waits for a wakeup** exactly if none is pending. -/
theorem wait_waits_iff {E : Engine} {scope : Ref .scope} {span : Span}
    (hd : s.sync.conds.get? r = some d) (hrelease : releaseLock d.lock s = .done (.ok ()) t) :
    (∃ u resume, Dispatch.invoke E scope (.cond r) "wait" [] span s =
      .wait (.wakeup r) u resume) ↔ d.wakeups = 0 := by
  have hwait : Dispatch.invoke E scope (.cond r) "wait" [] span s =
      waitOn ⟨scope, span, "wait"⟩ r s := rfl
  rw [hwait]
  by_cases hzero : d.wakeups = 0
  · have hnone : d.register.consume? = none := if_pos hzero
    rw [waitOn_of_none hd hrelease hnone]
    exact ⟨fun _ => hzero, fun _ => ⟨_, _, rfl⟩⟩
  · rw [waitOn_of_pending hd hrelease (if_neg hzero)]
    refine ⟨?_, fun h => absurd h hzero⟩
    rintro ⟨u, resume, hrun⟩
    -- what is left is to take the lock
    generalize hr : retakeLock d.lock _ = retake at hrun
    cases retake with
    | wait w v k =>
      cases hrun
      exact absurd hr retakeLock_ne_wakeup
    | done a v => cases hrun
    | stop why v => cases hrun

/-- The call is over in the state, at once or when the others have had their turn. -/
def OverIn (t : State) (run : Run Value) : Prop :=
  run = .done .nil t ∨ run = .wait .turn t fun _ u => .done .nil u

/-- A notification is over at once, or after one turn of the others. -/
theorem notify_overIn (hd : s.sync.conds.get? r = some d) (f : Sync.Cond → Nat → Sync.Cond) :
    OverIn (s.withCond r (f d s.clock)) (notify r f s) := by
  unfold notify
  rw [Eval.gets_bind_apply, hd]
  dsimp only
  rw [Eval.gets_bind_apply, Eval.bind_of_done setCond_apply]
  split
  · -- the turn is handed over, if there is anybody else
    rw [Eval.bind_apply, Eval.yieldTurn]
    split
    · exact .inr rfl
    · exact .inl rfl
  · exact .inl rfl

/-- **A program's `signal` and `broadcast`** do to the state what the moves of these names do, before
anybody else comes to it. -/
theorem notify_is_move {E : Engine} {scope : Ref .scope} {span : Span}
    (hd : s.sync.conds.get? r = some d) :
    OverIn (s.withCond r (d.signal s.clock))
        (Dispatch.invoke E scope (.cond r) "signal" [] span s) ∧
      OverIn (s.withCond r (d.broadcast s.clock))
        (Dispatch.invoke E scope (.cond r) "broadcast" [] span s) :=
  ⟨notify_overIn hd Sync.Cond.signal, notify_overIn hd Sync.Cond.broadcast⟩

end Method

end ScriptEngine
