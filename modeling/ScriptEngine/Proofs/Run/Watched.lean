import Mathlib.Order.Defs.Unbundled
import ScriptEngine.Eval.Level
import ScriptEngine.Proofs.Run.Ends

/-!
# What can be seen of a run

The state of a run can be seen where the run waits and where it ends. `Run.Throughout` describes the
run of a lone task by what can be seen of it: from one state that is seen to the next the run makes
a `step`, each state it waits in satisfies `during`, and `post` holds of its end, whichever end that
is: a value, a fault, or a reason of the host. Runs without an end are described as well, unlike by
`Run.Ends`; and unlike `Run.Along` it can compare the end of a run with its beginning, as nobody
else interferes.

What the scheduler reports of a lone task has been seen of its run (`Schedule.seen_of_runMain`), so
that a report says of a program what is said of everything that can be seen of it.

A lone task waits seldom, and in between nothing could be seen. `Engine.watched true` is the engine
of a level that waits for a turn before each of its activities, so that every expression, statement
and call shows the state it starts in. `Engine.watched false` does not wait, and is the engine of
that level (`Engine.watched_false`); what is proved of both is proved of the engine itself and of
every state it goes through from one activity to the next.
-/

namespace ScriptEngine

namespace Run

variable {α β : Type} {step : State → State → Prop} {during : State → Prop} {s : State}

/-- Whatever the run of a lone task gets from its waits: from each state that is seen, the first of
them being `s`, it makes a `step` to the next; `during` holds of the states it waits in, and `post`
of what it ends with and of the state it ends in. -/
inductive Throughout {α : Type} (step : State → State → Prop) (during : State → Prop)
    (post : Except Stop α → State → Prop) : State → Run α → Prop
  | done {s t : State} {a : α} : step s t → post (.ok a) t →
      Throughout step during post s (.done a t)
  | stop {s t : State} {why : Stop} : step s t → post (.error why) t →
      Throughout step during post s (.stop why t)
  | wait {s t : State} {w : Wait} {resume : Answer → State → Run α} : step s t → during t →
      (∀ a u, Idle t u → Throughout step during post u (resume a u)) →
      Throughout step during post s (.wait w t resume)

namespace Throughout

variable {post : Except Stop α → State → Prop} {after : Except Stop β → State → Prop} {r : Run α}

/-- What is done before a run belongs to its first step. -/
theorem preceded [IsTrans State step] {t : State} (hst : step s t)
    (h : r.Throughout step during post t) : r.Throughout step during post s := by
  cases h with
  | done h hp => exact .done (trans_of step hst h) hp
  | stop h hp => exact .stop (trans_of step hst h) hp
  | wait h hd hr => exact .wait (trans_of step hst h) hd hr

theorem mono {step' : State → State → Prop} {during' : State → Prop}
    {post' : Except Stop α → State → Prop} (hstep : ∀ s t, step s t → step' s t)
    (hduring : ∀ s, during s → during' s) (hpost : ∀ o s, post o s → post' o s)
    (h : r.Throughout step during post s) : r.Throughout step' during' post' s := by
  induction h with
  | done h hp => exact .done (hstep _ _ h) (hpost _ _ hp)
  | stop h hp => exact .stop (hstep _ _ h) (hpost _ _ hp)
  | wait h hd _ ih => exact .wait (hstep _ _ h) (hduring _ hd) ih

/-- The second part of a sequence starts where the first part is done. Nothing is seen there, so the
last step of the one and the first step of the other are a single step. -/
theorem andThen [IsTrans State step] {f : α → State → Run β}
    (h : r.Throughout step during post s)
    (hf : ∀ a t, post (.ok a) t → (f a t).Throughout step during after t)
    (hstop : ∀ why t, post (.error why) t → after (.error why) t) :
    (r.andThen f).Throughout step during after s := by
  induction h with
  | done h hp => exact .preceded h (hf _ _ hp)
  | stop h hp => exact .stop h (hstop _ _ hp)
  | wait h hd _ ih => exact .wait h hd ih

/-- What comes after an attempt starts where it is done or has failed. -/
theorem settle [IsTrans State step]
    {f : Except Fault α → State → Run β} (h : r.Throughout step during post s)
    (hok : ∀ a t, post (.ok a) t → (f (.ok a) t).Throughout step during after t)
    (hfault : ∀ e t, post (.error (.fault e)) t → (f (.error e) t).Throughout step during after t)
    (hstop : ∀ why t, (∀ e, why ≠ .fault e) → post (.error why) t → after (.error why) t) :
    (r.settle f).Throughout step during after s := by
  induction h with
  | done h hp => exact .preceded h (hok _ _ hp)
  | @stop s t why h hp =>
    cases why with
    | fault e => exact .preceded h (hfault _ _ hp)
    | abort message => exact .stop h (hstop _ _ nofun hp)
    | exhausted => exact .stop h (hstop _ _ nofun hp)
  | wait h hd _ ih => exact .wait h hd ih

theorem ensuring {f : State → State} {post' : Except Stop α → State → Prop}
    (h : r.Throughout step during post s)
    (hf : ∀ o s t, step s t → post o t → step s (f t) ∧ post' o (f t)) :
    (r.ensuring f).Throughout step during post' s := by
  induction h with
  | done h hp => exact .done (hf _ _ _ h hp).1 (hf _ _ _ h hp).2
  | stop h hp => exact .stop (hf _ _ _ h hp).1 (hf _ _ _ h hp).2
  | wait h hd _ ih => exact .wait h hd ih

end Throughout

end Run

/-! ### What the scheduler reports of a lone task -/

namespace Run

variable {α : Type} {step : State → State → Prop} {during : State → Prop}
  {post : Except Stop α → State → Prop}

/-- What can be seen of a run where it has got to, which may have been a while ago. -/
def Seen (step : State → State → Prop) (during : State → Prop)
    (post : Except Stop α → State → Prop) : Run α → Prop
  | .done a s => post (.ok a) s
  | .stop why s => post (.error why) s
  | .wait _ s resume => ∃ t, Idle t s ∧ during t ∧
      ∀ a u, Idle t u → (resume a u).Throughout step during post u

theorem Throughout.seen {r : Run α} {s : State} (h : r.Throughout step during post s) :
    r.Seen step during post := by
  cases h with
  | done _ hp => exact hp
  | stop _ hp => exact hp
  | @wait _ t _ _ _ hd hr => exact ⟨t, .refl t, hd, hr⟩

end Run

/-- What a report says that ends in a state which is seen. -/
def Outcome.Seen (during : State → Prop) (post : Except Stop Value → State → Prop) :
    Outcome → State → Prop
  | .value v, s => post (.ok v) s
  | .fault f, s => post (.error (.fault f)) s
  | .abort message, s => post (.error (.abort message)) s
  | .exhausted, s => during s ∨ post (.error .exhausted) s

namespace Schedule

variable {step : State → State → Prop} {during : State → Prop}
  {post : Except Stop Value → State → Prop}

/-- **What the scheduler reports of a lone task has been seen of its run.** -/
theorem seen_of_runMain (fuel : Nat) {r : Run Value} (hr : r.Lone) (h : r.Seen step during post) :
    ∃ u, Idle u (runMain fuel r []).2.2 ∧ (runMain fuel r []).1.Seen during post u := by
  cases r with
  | done v s =>
    rw [runMain]
    exact ⟨s, ⟨s.sync, s.clock, [], rfl⟩, h⟩
  | stop why s =>
    rw [runMain]
    cases why with
    | fault f => exact ⟨s, ⟨s.sync, s.clock, [], rfl⟩, h⟩
    | abort message => exact ⟨s, ⟨s.sync, s.clock, [], rfl⟩, h⟩
    | exhausted => exact ⟨s, ⟨s.sync, s.clock, [], rfl⟩, .inr h⟩
  | wait w s resume =>
    obtain ⟨t, hts, hd, hresume⟩ := h
    cases fuel with
    | zero => exact ⟨t, hts, .inl hd⟩
    | succ fuel =>
      obtain ⟨hspawned, hlone⟩ : s.spawned = [] ∧ ∀ a s', s'.spawned = [] → (resume a s').Lone := by
        cases hr with
        | wait h h' => exact ⟨h, h'⟩
      simp only [runMain, adopt, hspawned, List.reverse_nil, List.map_nil, List.append_nil, turns]
      -- the state in which the main task is asked
      generalize hs : ({ s with spawned := [], clock := s.clock + roundTime } : State) = s₁
      have hts₁ : Idle t s₁ := hts.trans ⟨s.sync, _, [], hs.symm⟩
      have hspawned₁ : s₁.spawned = [] := by rw [← hs]
      cases hp : w.poll? s₁ with
      | some found =>
        obtain ⟨a, s₂⟩ := found
        obtain ⟨sync, rfl⟩ := Wait.exists_sync_of_poll? hp
        exact seen_of_runMain fuel (hlone a _ hspawned₁)
          (hresume a _ (hts₁.trans ⟨sync, _, _, rfl⟩)).seen
      | none =>
        -- nobody else can go on, so the clock jumps, or the task waits in vain
        simp only [List.isEmpty_nil, Bool.not_true, Bool.or_self]
        cases ht : nextTime? [w] with
        | none => exact ⟨t, hts₁, .inl hd⟩
        | some time =>
          exact seen_of_runMain fuel (.wait rfl hlone)
            ⟨t, hts.trans ⟨s.sync, _, [], rfl⟩, hd, hresume⟩

end Schedule

/-- The report of an end. -/
def Outcome.ofEnd : Except Fault Value → Outcome
  | .ok v => .value v
  | .error f => .fault f

/-! ### An engine that is watched -/

/-- Lets an onlooker see the state, if there is one. -/
def Eval.reveal (watched : Bool) : Eval Unit :=
  if watched then Functor.discard (await .turn) else pure ()

/-- The engine of a level, which shows the state before each of its activities. -/
def Engine.watched (w : Bool) : Nat → Engine
  | 0 => .idle
  | n + 1 =>
    let E := watched w n
    { expr := fun scope e => do Eval.reveal w; Expr.eval E scope e
      stmt := fun scope stmt => do Eval.reveal w; Stmt.run E scope stmt
      call := fun scope f args span => do Eval.reveal w; Dispatch.call E scope f args span
      invoke := fun scope v name args span => do
        Eval.reveal w; Dispatch.invoke E scope v name args span
      cycle := fun scope condition body => do Eval.reveal w; Stmt.cycle E scope condition body
      drain := fun scope vars r i body => do Eval.reveal w; Stmt.drain E scope vars r i body }

/-- **Without an onlooker it is the engine of that level.** -/
theorem Engine.watched_false (n : Nat) : Engine.watched false n = Engine.level n := by
  induction n with
  | zero => rfl
  | succ n ih =>
    unfold watched level
    rw [ih]
    rfl

end ScriptEngine
