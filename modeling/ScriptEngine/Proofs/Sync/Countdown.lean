import Mathlib.Algebra.Ring.Int.Defs
import ScriptEngine.Proofs.Run.Answers
import ScriptEngine.Proofs.Sync.Locks
import ScriptEngine.Proofs.Sync.Runs

/-!
# Counting down to zero

A countdown group is used by the calls `add`, `done` and `wait`, from any tasks in any order. A run
is any sequence of them (`Countdown.Step`): each is accepted, refused or made to wait, and a task
that waits is let go by the scheduler; in between, the programs do whatever leaves the group alone.

The counter is a machine integer, and what a call adds is added to it before the sign of the result
is looked at. There are three outcomes (`Sync.WaitGroup.add_cases`): the sum is stored, or it is
negative and refused, or it leaves the range on top, and then the host cannot carry on. So the
counter is the exact sum of what was accepted (`Countdown.Counts`), it is never negative, and a call
is refused just if it would be (`Countdown.refuses_negative_iff`). But not every call leaves the host
alone: a group that has counted up to the greatest integer ends it with the next one
(`Countdown.aborts_at_the_top`).
-/

namespace ScriptEngine

namespace Sync.WaitGroup

variable {g : WaitGroup} {delta : Int64}

/-- **What comes of an addition** to a counter that is not negative: the exact sum, if it is a counter
again; a refusal, if it is negative; and nothing, if it is out of range. -/
theorem add_cases (hg : 0 ≤ g.count.toInt) (delta : Int64) :
    (0 ≤ g.count.toInt + delta.toInt ∧ g.count.toInt + delta.toInt < 2 ^ 63 ∧
      ∃ g', g.add delta = some (.ok g') ∧ g'.count.toInt = g.count.toInt + delta.toInt) ∨
    (g.count.toInt + delta.toInt < 0 ∧ g.add delta = some (.error .negativeCounter)) ∨
    (2 ^ 63 ≤ g.count.toInt + delta.toInt ∧ g.add delta = none) := by
  unfold add
  cases hnext : checkedAdd g.count delta with
  | none =>
    -- one of the two is not negative, so the range is not left at the bottom
    have hleast := delta.le_toInt
    have hout := checkedAdd_eq_none_iff.mp hnext
    exact .inr (.inr ⟨by omega, rfl⟩)
  | some next =>
    -- the sum is exact, so its sign is that of the integers
    have hsum := checkedAdd_eq_some_iff.mp hnext
    have hgreatest := next.toInt_lt
    have hsign : next < 0 ↔ next.toInt < 0 := by rw [Int64.lt_iff_toInt_lt, Int64.toInt_zero]
    rw [Option.map_some]
    by_cases hnegative : next < 0
    · rw [if_pos hnegative]
      exact .inr (.inl ⟨hsum ▸ hsign.mp hnegative, rfl⟩)
    · rw [if_neg hnegative]
      exact .inl ⟨hsum ▸ Int.not_lt.mp (mt hsign.mpr hnegative), hsum ▸ hgreatest, ⟨next⟩, rfl, hsum⟩

/-- What is stored is the sum of the integers. -/
theorem toInt_of_add_eq_ok {g' : WaitGroup} (hg : 0 ≤ g.count.toInt)
    (h : g.add delta = some (.ok g')) :
    g'.count.toInt = g.count.toInt + delta.toInt ∧ 0 ≤ g'.count.toInt := by
  -- only the first of the three outcomes is an answer
  obtain ⟨hnonneg, -, g'', hadd, hsum⟩ | ⟨-, hadd⟩ | ⟨-, hadd⟩ := add_cases hg delta
  · rw [hadd] at h
    cases h
    exact ⟨hsum, hsum ▸ hnonneg⟩
  · exact nomatch hadd.symm.trans h
  · exact nomatch hadd.symm.trans h

/-- The test for zero, of a counter that is not negative. -/
theorem isZero_iff (hg : 0 ≤ g.count.toInt) : g.isZero = true ↔ g.count.toInt = 0 := by
  -- a counter that is not negative is at most zero just if it is zero
  rw [isZero, decide_eq_true_iff, Int64.le_iff_toInt_le, Int64.toInt_zero]
  omega

end Sync.WaitGroup

/-- The state with another group at a place. -/
def State.withGroup (s : State) (r : Ref .waitGroup) (g : Sync.WaitGroup) : State :=
  Wait.withSync s fun t => { t with groups := t.groups.set r g }

namespace Countdown

open Sync

variable {r : Ref .waitGroup} {g : WaitGroup} {s t u : State} {E : Engine} {scope : Ref .scope}
  {span : Span} {delta : Int64}

/-! ### Calls -/

/-- The calls that add to the counter, and what they add. -/
inductive Adds (E : Engine) (scope : Ref .scope) (r : Ref .waitGroup) (span : Span) :
    Int64 → Eval Value → Prop
  | add (arg : Value) {delta : Int64} : arg.asInt? = some delta →
      Adds E scope r span delta (Dispatch.invoke E scope (.waitGroup r) "add" [arg] span)
  | done : Adds E scope r span (-1) (Dispatch.invoke E scope (.waitGroup r) "done" [] span)

/-- What comes of an addition: the sum is stored, or the call fails, or it ends the host; the latter
two change nothing. -/
def outcome (s : State) (r : Ref .waitGroup) (span : Span) :
    Option (Except Error WaitGroup) → Run Value
  | some (.ok g) => .done .nil (s.withGroup r g)
  | some (.error e) => .stop (.fault ⟨.general e.message, span⟩) s
  | none => .stop (.abort "attempt to add with overflow") s

/-- A call that answers has stored a sum. -/
theorem exists_of_outcome_eq_done {o : Option (Except Error WaitGroup)} {v : Value}
    (h : outcome s r span o = .done v t) : ∃ g', o = some (.ok g') ∧ t = s.withGroup r g' := by
  unfold outcome at h
  split at h
  · next g' =>
    cases h
    exact ⟨g', rfl, rfl⟩
  · exact nomatch h
  · exact nomatch h

/-- A call that stops has changed nothing. -/
theorem eq_of_outcome_eq_stop {o : Option (Except Error WaitGroup)} {why : Stop}
    (h : outcome s r span o = .stop why t) : t = s := by
  unfold outcome at h
  split at h <;> cases h
  · rfl
  · rfl

/-- `add` and `done` do what the addition says. -/
theorem addToGroup_apply (hg : s.sync.groups.get? r = some g) (site : CallSite) :
    Method.addToGroup site r delta s = outcome s r site.span (g.add delta) := by
  unfold Method.addToGroup
  rw [Eval.gets_bind_apply, hg]
  -- the group is the one at the place, and the addition decides
  dsimp only [Option.getD_some]
  cases g.add delta with
  | none => rfl
  | some sum => cases sum <;> rfl

/-- A method without parameters takes no arguments. -/
theorem exactly_nil_bind {α : Type} (site : CallSite) (m : Eval α) :
    (site.exactly 0 [] >>= fun _ => m) = m := rfl

/-- The method `add`, with what its argument converts to. -/
theorem invoke_add {arg : Value} (h : arg.asInt? = some delta) :
    Dispatch.invoke E scope (.waitGroup r) "add" [arg] span s =
      Method.addToGroup ⟨scope, span, "add"⟩ r delta s := by
  have hcall : Dispatch.invoke E scope (.waitGroup r) "add" [arg] span s =
      (CallSite.intArg ⟨scope, span, "add"⟩ [arg] 0 >>= fun delta =>
        Method.addToGroup ⟨scope, span, "add"⟩ r delta) s := rfl
  -- the conversion of the argument answers at once
  rw [hcall, CallSite.intArg_eq_pure rfl h]
  rfl

/-- The method `done`, which adds minus one. -/
theorem invoke_done :
    Dispatch.invoke E scope (.waitGroup r) "done" [] span =
      Method.addToGroup ⟨scope, span, "done"⟩ r (-1) := by
  have hcall : Dispatch.invoke E scope (.waitGroup r) "done" [] span =
      CallSite.exactly ⟨scope, span, "done"⟩ 0 [] >>= fun _ =>
        Method.addToGroup ⟨scope, span, "done"⟩ r (-1) := rfl
  rw [hcall, exactly_nil_bind]

/-- **Either of them does what the addition says.** -/
theorem Adds.apply {m : Eval Value} (h : Adds E scope r span delta m)
    (hg : s.sync.groups.get? r = some g) : m s = outcome s r span (g.add delta) := by
  cases h with
  | add arg harg => rw [invoke_add harg, addToGroup_apply hg]
  | done => rw [invoke_done, addToGroup_apply hg]

/-- `wait` returns at once if the counter is zero, and otherwise waits for that. -/
theorem invoke_wait (hg : s.sync.groups.get? r = some g) :
    Dispatch.invoke E scope (.waitGroup r) "wait" [] span s =
      -- a group at zero makes nobody wait
      if g.isZero then .done .nil s else .wait (.zero r) s fun _ t => .done .nil t := by
  have hcall : Dispatch.invoke E scope (.waitGroup r) "wait" [] span =
      Eval.gets (fun s => (s.sync.groups.get? r).getD .fresh) >>= fun g : WaitGroup => do
        if !g.isZero then discard <| Eval.await (.zero r)
        return .nil := rfl
  rw [hcall, Eval.gets_bind_apply, hg]
  dsimp only [Option.getD_some]
  by_cases hzero : g.isZero = true <;> simp only [hzero] <;> rfl

/-- The scheduler lets a task go that waits for zero by the same rule. -/
theorem poll?_zero_eq_some {a : Answer} (hg : s.sync.groups.get? r = some g) :
    (Wait.zero r).poll? s = some (a, t) ↔ g.isZero = true ∧ a = .done ∧ t = s := by
  simp only [Wait.poll?, hg]
  cases g.isZero <;> simp [eq_comm]

/-! ### Steps -/

/-- What happens while the group is shared. -/
inductive Event where
  /-- A call has added something. -/
  | accepted (delta : Int64)
  | refused (delta : Int64)
  /-- A call has ended the host, or the task that made it. -/
  | aborted (delta : Int64)
  /-- A task begins to wait. -/
  | waits
  /-- A task that has called `wait` goes on. -/
  | returned
  /-- Something that is no matter of this group. -/
  | elsewhere
deriving DecidableEq

/-- One step on the group at the place `r`, or elsewhere. -/
inductive Step (r : Ref .waitGroup) : State → Event → State → Prop
  | accept {s t : State} {E : Engine} {scope : Ref .scope} {span : Span} {delta : Int64}
      {m : Eval Value} {v : Value} :
      Adds E scope r span delta m → m s = .done v t → Step r s (.accepted delta) t
  | refuse {s t : State} {E : Engine} {scope : Ref .scope} {span : Span} {delta : Int64}
      {m : Eval Value} {f : Fault} :
      Adds E scope r span delta m → m s = .stop (.fault f) t → Step r s (.refused delta) t
  | abort {s t : State} {E : Engine} {scope : Ref .scope} {span : Span} {delta : Int64}
      {m : Eval Value} {message : String} :
      Adds E scope r span delta m → m s = .stop (.abort message) t →
      Step r s (.aborted delta) t
  | wait {s t : State} {E : Engine} {scope : Ref .scope} {span : Span} {w : Wait}
      {resume : Answer → State → Run Value} :
      Dispatch.invoke E scope (.waitGroup r) "wait" [] span s = .wait w t resume →
      Step r s .waits t
  /-- A call of `wait` that does not wait. -/
  | pass {s t : State} {E : Engine} {scope : Ref .scope} {span : Span} {v : Value} :
      Dispatch.invoke E scope (.waitGroup r) "wait" [] span s = .done v t → Step r s .returned t
  /-- A task that waits is let go. -/
  | release {s t : State} {a : Answer} :
      (Wait.zero r).poll? s = some (a, t) → Step r s .returned t
  | elsewhere {s t : State} :
      t.sync.groups.get? r = s.sync.groups.get? r → Step r s .elsewhere t

/-- What has been accepted. -/
def accepted (events : List Event) : List Int :=
  events.filterMap fun
    | .accepted delta => some delta.toInt
    | _ => none

/-- **The counter is the sum of what has been accepted,** and not negative. -/
structure Counts (events : List Event) (g : WaitGroup) : Prop where
  sum : g.count.toInt = (accepted events).sum
  nonneg : 0 ≤ g.count.toInt

/-- The group after an event, if the event can happen to it. -/
def Event.OnGroup (g g' : WaitGroup) : Event → Prop
  | accepted delta => g.add delta = some (.ok g')
  | returned => g.isZero = true ∧ g' = g
  | _ => g' = g

/-- **What a step does to the group:** an addition that is accepted changes it, and nothing else
does; and nobody returns from a wait unless the counter is zero. -/
theorem Step.onGroup {e : Event} (h : Step r s e t) (hg : s.sync.groups.get? r = some g) :
    ∃ g', t.sync.groups.get? r = some g' ∧ e.OnGroup g g' := by
  cases h with
  | accept hm hrun =>
    rw [hm.apply hg] at hrun
    obtain ⟨g', hadd, rfl⟩ := exists_of_outcome_eq_done hrun
    exact ⟨g', Table.get?_set_of_some hg g', hadd⟩
  | refuse hm hrun | abort hm hrun =>
    rw [hm.apply hg] at hrun
    exact ⟨g, eq_of_outcome_eq_stop hrun ▸ hg, rfl⟩
  | wait hrun =>
    -- the task begins to wait, and so the counter is not zero
    rw [invoke_wait hg] at hrun
    split at hrun <;> cases hrun
    exact ⟨g, hg, rfl⟩
  | pass hrun =>
    rw [invoke_wait hg] at hrun
    -- the other way round: who does not wait has found it zero
    split at hrun
    · next hzero =>
      cases hrun
      exact ⟨g, hg, hzero, rfl⟩
    · cases hrun
  | release hpoll =>
    obtain ⟨hzero, -, rfl⟩ := (poll?_zero_eq_some hg).mp hpoll
    exact ⟨g, hg, hzero, rfl⟩
  | elsewhere hsame => exact ⟨g, hsame.trans hg, rfl⟩

/-- One more event keeps the count. -/
theorem Counts.onGroup {events : List Event} {g' : WaitGroup} {e : Event} (h : Counts events g)
    (he : e.OnGroup g g') : Counts (events ++ [e]) g' := by
  -- only an addition that is accepted counts
  cases e with
  | accepted delta =>
    obtain ⟨hsum, hnonneg⟩ := WaitGroup.toInt_of_add_eq_ok h.nonneg he
    refine ⟨?_, hnonneg⟩
    rw [hsum, h.sum]
    simp [accepted]
  | returned =>
    obtain rfl := he.2
    exact ⟨by simpa [accepted] using h.sum, h.nonneg⟩
  | refused delta | aborted delta | waits | elsewhere =>
    obtain rfl : g' = g := he
    exact ⟨by simpa [accepted] using h.sum, h.nonneg⟩

/-- **After every run the counter counts,** by induction on the run. -/
theorem counts_of_runs {events : List Event} (hfresh : s.sync.groups.get? r = some .fresh)
    (h : Runs (Step r) s events t) : ∃ g, t.sync.groups.get? r = some g ∧ Counts events g := by
  refine Runs.history (P := fun past s => ∃ g, s.sync.groups.get? r = some g ∧ Counts past g) ?_ h
    ⟨_, hfresh, rfl, by decide⟩
  rintro past s e t ⟨g, hg, hpast⟩ hstep
  obtain ⟨g', hg', he⟩ := hstep.onGroup hg
  exact ⟨g', hg', hpast.onGroup he⟩

/-- **What a group counts, and what it refuses.** After every run from a fresh group:

* the counter is the exact sum of what has been accepted, and not negative;
* the next call is accepted, and the new sum stored, if it is neither negative nor out of range;
* the call fails with the message of a negative counter, and changes nothing, exactly if the new sum
  is negative;
* it ends the host, with nothing changed either, exactly if the new sum is out of range; so no call
  does just if none leads beyond the greatest integer;
* whoever returns from a wait finds the counter zero. -/
theorem refuses_negative_iff {events : List Event} (hfresh : s.sync.groups.get? r = some .fresh)
    (h : Runs (Step r) s events t) :
    ∃ g, t.sync.groups.get? r = some g ∧ g.count.toInt = (accepted events).sum ∧
      0 ≤ (accepted events).sum ∧
      (∀ E scope span delta m, Adds E scope r span delta m →
        (0 ≤ (accepted events).sum + delta.toInt ∧ (accepted events).sum + delta.toInt < 2 ^ 63 →
          ∃ g', m t = .done .nil (t.withGroup r g') ∧
            g'.count.toInt = (accepted events).sum + delta.toInt) ∧
        (m t = .stop (.fault ⟨.general "negative WaitGroup counter", span⟩) t ↔
          (accepted events).sum + delta.toInt < 0) ∧
        (m t = .stop (.abort "attempt to add with overflow") t ↔
          2 ^ 63 ≤ (accepted events).sum + delta.toInt)) ∧
      ∀ u, Step r t .returned u → (accepted events).sum = 0 := by
  obtain ⟨g, hg, hcounts⟩ := counts_of_runs hfresh h
  have hnonneg := hcounts.nonneg
  rw [← hcounts.sum]
  refine ⟨g, hg, rfl, hnonneg, fun E scope span delta m hm => ?_, fun u hu => ?_⟩
  -- what the call does is one of the three outcomes of an addition
  · have hrun := hm.apply hg
    obtain ⟨hlow, hhigh, g', hadd, hsum⟩ | ⟨hneg, hadd⟩ | ⟨hout, hadd⟩ :=
      WaitGroup.add_cases hnonneg delta
    all_goals rw [hadd] at hrun; rw [hrun]
    · exact ⟨fun _ => ⟨g', rfl, hsum⟩, iff_of_false nofun (Int.not_lt.mpr hlow),
        iff_of_false nofun (Int.not_le.mpr hhigh)⟩
    · exact ⟨fun h => absurd h.1 (Int.not_le.mpr hneg), iff_of_true rfl hneg,
        iff_of_false nofun (by omega)⟩
    · exact ⟨fun h => absurd h.2 (Int.not_lt.mpr hout), iff_of_false nofun (by omega),
        iff_of_true rfl hout⟩
  · obtain ⟨g', -, hzero, -⟩ := hu.onGroup hg
    exact (WaitGroup.isZero_iff hnonneg).mp hzero

/-- A host's state with a fresh group. -/
def withFresh : State :=
  let s := State.initial ⟨.empty, .default, none, .empty, false, 0, 0⟩
  { s with sync := { s.sync with groups := ⟨#[.fresh]⟩ } }

/-- A task counts two up and one down; another waits, and a call that would go below zero is
refused, until there is nothing left to wait for. -/
theorem refuses_negative_iff_zero :
    withFresh.sync.groups.get? ⟨0⟩ = some .fresh ∧
    ∃ t, Runs (Step ⟨0⟩) withFresh [.accepted 2, .waits, .accepted (-1), .refused (-2),
        .accepted (-1), .returned] t ∧
      ∀ m, Adds .idle State.root ⟨0⟩ .unknown (-1) m →
        m t = .stop (.fault ⟨.general "negative WaitGroup counter", .unknown⟩) t := by
  have hfresh : withFresh.sync.groups.get? ⟨0⟩ = some .fresh := rfl
  have two : Adds .idle State.root ⟨0⟩ .unknown 2 _ := .add (.int 2) rfl
  have minusTwo : Adds .idle State.root ⟨0⟩ .unknown (-2) _ := .add (.int (-2)) rfl
  have minusOne : Adds .idle State.root ⟨0⟩ .unknown (-1) _ := .done
  -- whoever waits while the counter is two is made to
  have hwait : ∀ s, s.sync.groups.get? ⟨0⟩ = some ⟨2⟩ → Step ⟨0⟩ s .waits s := by
    intro s hg
    have hcall : Dispatch.invoke .idle State.root (.waitGroup ⟨0⟩) "wait" [] .unknown s = _ :=
      invoke_wait hg
    exact .wait hcall
  obtain ⟨t, ht⟩ : ∃ t, Runs (Step ⟨0⟩) withFresh [.accepted 2, .waits, .accepted (-1),
      .refused (-2), .accepted (-1), .returned] t :=
    ⟨_, .cons (.accept two rfl) <| .cons (hwait _ rfl) <| .cons (.accept minusOne rfl) <|
      .cons (.refuse minusTwo rfl) <| .cons (.accept minusOne rfl) <|
      .cons (.release rfl) <| .nil _⟩
  obtain ⟨-, -, -, -, hcalls, -⟩ := refuses_negative_iff hfresh ht
  exact ⟨hfresh, t, ht, fun m hm => (hcalls _ _ _ _ m hm).2.1.mpr (by decide)⟩

/-- **A call ends the host.** The counter is the greatest integer, and one is added. -/
theorem aborts_at_the_top :
    ∃ t, Runs (Step ⟨0⟩) withFresh [.accepted Int64.maxValue] t ∧
      (accepted [.accepted Int64.maxValue]).sum + (1 : Int64).toInt = 2 ^ 63 ∧
      Dispatch.invoke .idle State.root (.waitGroup ⟨0⟩) "add" [.int 1] .unknown t =
        .stop (.abort "attempt to add with overflow") t := by
  have top : Adds .idle State.root ⟨0⟩ .unknown Int64.maxValue _ :=
    .add (.int Int64.maxValue) rfl
  exact ⟨_, .cons (.accept top rfl) (.nil _), by decide, rfl⟩

end Countdown

end ScriptEngine
