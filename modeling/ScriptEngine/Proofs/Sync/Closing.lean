import Mathlib.Logic.Function.Basic
import ScriptEngine.Proofs.Sync.Locks
import ScriptEngine.Proofs.Sync.Runs

/-!
# What closing a channel leaves behind

To send is two steps: to obtain a sender, which an open channel gives to everybody, and to put the
value into the queue, or to give up. Between the two the channel can be closed. `Closing.Step` has
a constructor for each step that a task can take on a channel, made of the operations that the
methods use.

Whatever has been sent has been received or is in the queue, in the order in which it was sent
(`Closing.sent_eq`), so when a receiver is told that the channel is closed and drained, all that
has been sent by then has been received (`Closing.drained_eq`). One would like this to be the end of
the stream: that nothing is sent after that. This is not so, because a sender that was obtained
before the channel was closed still puts its value into the queue (`Closing.sent_after_end`). It is
so exactly if no sender was out when the channel was closed (`Closing.endsStream_iff`). In a program
such a sender is a task that waited for room when a receiver made it
(`Wait.poll?_offer_of_admitted`).
-/

namespace ScriptEngine.Sync

namespace Channel

variable {α : Type} {c c' : Channel α} {v : α}

/-- A sender is given by a channel that is open. -/
theorem sender_eq_ok : c.sender = .ok () ↔ c.closed = false := by
  unfold sender
  cases c.closed <;> simp

/-- A value is put behind the others if there is room. -/
theorem put?_eq_some :
    c.put? v = some c' ↔ c.hasRoom = true ∧ c' = { c with queue := c.queue ++ [v] } := by
  unfold put?
  by_cases hr : c.hasRoom = true
  · rw [if_pos hr, Option.some_inj]
    exact ⟨fun h => ⟨hr, h.symm⟩, fun h => h.2.symm⟩
  · rw [if_neg hr]
    exact ⟨nofun, fun h => absurd h.1 hr⟩

/-- A channel of some capacity whose queue is empty has room. -/
theorem hasRoom_of_nil (hcap : c.capacity ≠ some 0) (hq : c.queue = []) : c.hasRoom = true := by
  unfold hasRoom
  split
  · rfl
  · next h => exact absurd h hcap
  · next n hn _ =>
    rw [hq]
    exact decide_eq_true (Nat.pos_of_ne_zero fun h0 => hn (by rw [h0]))

variable (h : c.offers = [])
include h

/-- Without offers there is nothing to admit. -/
theorem admitFirst_of_no_offers : c.admitFirst = c := by
  simp [admitFirst, h]

/-- Without offers, what is taken is the first of the queue. -/
theorem take?_eq_some :
    c.take? = some (v, c') ↔ ∃ rest, c.queue = v :: rest ∧ c' = { c with queue := rest } := by
  unfold take?
  cases hq : c.queue with
  | nil => simp [h]
  -- taking one value makes room, into which an offer would be admitted
  | cons w rest =>
    have hadmission : admitFirst { c with queue := rest } = { c with queue := rest } :=
      admitFirst_of_no_offers h
    simp only [hadmission, Option.some.injEq, Prod.mk.injEq, List.cons.injEq]
    constructor
    · rintro ⟨rfl, rfl⟩
      exact ⟨rest, ⟨rfl, rfl⟩, rfl⟩
    · rintro ⟨_, ⟨rfl, rfl⟩, rfl⟩
      exact ⟨rfl, rfl⟩

/-- Without offers, nothing can be taken from an empty queue. -/
theorem take?_eq_none : c.take? = none ↔ c.queue = [] := by
  unfold take?
  cases hq : c.queue with
  | nil => simp [h]
  | cons w rest => simp

/-- A receiver that has been waiting takes the first of the queue, too. -/
theorem queue_of_receive? (hr : c.receive? = some (some v, c')) :
    ∃ rest, c.queue = v :: rest ∧ c' = { c with queue := rest, waiting := c.waiting - 1 } := by
  -- the receiver stops waiting and takes as if it had just come
  have hleft : ({ c with waiting := c.waiting - 1 } : Channel α).take? = some (v, c') ↔
      ∃ rest, c.queue = v :: rest ∧ c' = { c with queue := rest, waiting := c.waiting - 1 } :=
    take?_eq_some h
  rw [← hleft]
  simp only [receive?] at hr
  split at hr
  · next found htake =>
    cases hr
    exact htake
  · split at hr <;> cases hr

/-- It is told of the end only if the channel is closed and the queue is empty. -/
theorem closed_of_receive? (hr : c.receive? = some (none, c')) :
    c.closed = true ∧ c.queue = [] ∧ c' = { c with waiting := c.waiting - 1 } := by
  have hleft : ({ c with waiting := c.waiting - 1 } : Channel α).take? = none ↔ c.queue = [] :=
    take?_eq_none h
  simp only [receive?] at hr
  split at hr
  · cases hr
  · next htake =>
    split at hr
    · next hclosed =>
      cases hr
      exact ⟨hclosed, hleft.mp htake, rfl⟩
    · cases hr

end Channel

namespace Closing

/-! ### Tasks that share a channel -/

/-- Where a task is when it sends. -/
inductive Phase (α : Type) where
  | outside
  /-- It has obtained a sender for a value. Whether it waits for room tells a send from a send that
  is only tried. -/
  | holding (waits : Bool) (v : α)

/-- What happens to the channel. -/
inductive Event (ι α : Type) where
  /-- A task obtains a sender for a value. -/
  | obtained (i : ι) (v : α)
  /-- A task gets no sender, since the channel is closed. -/
  | refused (i : ι)
  /-- The value is in the queue, and its task is told so. -/
  | sent (i : ι) (v : α)
  /-- There is no room for a value that is only tried. -/
  | full (i : ι) (v : α)
  /-- A task that waits for room is told that the channel has been closed. -/
  | failed (i : ι) (v : α)
  /-- A receiver begins to wait. -/
  | awaited
  | received (v : α)
  /-- A receiver is told that the channel is closed and drained. -/
  | drained
  | closed

/-- The channel that all tasks share, and where each of them is. -/
structure Config (ι α : Type) where
  channel : Channel α
  phase : ι → Phase α

/-- Everybody is outside, and the channel is fresh. -/
def start (ι α : Type) (capacity : Option Nat) : Config ι α := ⟨.fresh capacity, fun _ => .outside⟩

variable {ι α : Type} [DecidableEq ι]

/-- One step on the channel. -/
inductive Step : Config ι α → Event ι α → Config ι α → Prop
  | obtain {c : Channel α} {phase : ι → Phase α} {i : ι} (waits : Bool) {v : α} :
      phase i = .outside → c.sender = .ok () →
      Step ⟨c, phase⟩ (.obtained i v) ⟨c, Function.update phase i (.holding waits v)⟩
  | refuse {c : Channel α} {phase : ι → Phase α} {i : ι} :
      phase i = .outside → c.sender = .error .closed →
      Step ⟨c, phase⟩ (.refused i) ⟨c, phase⟩
  | put {c d : Channel α} {phase : ι → Phase α} {i : ι} {waits : Bool} {v : α} :
      phase i = .holding waits v → c.put? v = some d →
      Step ⟨c, phase⟩ (.sent i v) ⟨d, Function.update phase i .outside⟩
  | full {c : Channel α} {phase : ι → Phase α} {i : ι} {v : α} :
      phase i = .holding false v → c.put? v = none →
      Step ⟨c, phase⟩ (.full i v) ⟨c, Function.update phase i .outside⟩
  | fail {c : Channel α} {phase : ι → Phase α} {i : ι} {v : α} :
      phase i = .holding true v → c.closed = true →
      Step ⟨c, phase⟩ (.failed i v) ⟨c, Function.update phase i .outside⟩
  | take {c d : Channel α} {phase : ι → Phase α} {v : α} :
      c.take? = some (v, d) → Step ⟨c, phase⟩ (.received v) ⟨d, phase⟩
  | drain {c : Channel α} {phase : ι → Phase α} :
      c.take? = none → c.closed = true → Step ⟨c, phase⟩ .drained ⟨c, phase⟩
  | await {c : Channel α} {phase : ι → Phase α} :
      c.take? = none → c.closed = false → Step ⟨c, phase⟩ .awaited ⟨c.await, phase⟩
  | receive {c d : Channel α} {phase : ι → Phase α} {v : α} :
      0 < c.waiting → c.receive? = some (some v, d) → Step ⟨c, phase⟩ (.received v) ⟨d, phase⟩
  | wake {c d : Channel α} {phase : ι → Phase α} :
      0 < c.waiting → c.receive? = some (none, d) → Step ⟨c, phase⟩ .drained ⟨d, phase⟩
  | close {c : Channel α} {phase : ι → Phase α} :
      Step ⟨c, phase⟩ .closed ⟨c.close, phase⟩

/-- The values that have been sent, in order. -/
def sentValues (events : List (Event ι α)) : List α :=
  events.filterMap fun
    | .sent _ v => some v
    | _ => none

/-- The values that have been received, in order. -/
def receivedValues (events : List (Event ι α)) : List α :=
  events.filterMap fun
    | .received v => some v
    | _ => none

omit [DecidableEq ι] in
/-- Sent values follow each other as the events do. -/
theorem sentValues_append (xs ys : List (Event ι α)) :
    sentValues (xs ++ ys) = sentValues xs ++ sentValues ys := List.filterMap_append

omit [DecidableEq ι] in
/-- So do received ones. -/
theorem receivedValues_append (xs ys : List (Event ι α)) :
    receivedValues (xs ++ ys) = receivedValues xs ++ receivedValues ys := List.filterMap_append

/-! ### What a step does to the queue -/

variable {c d : Config ι α} {e : Event ι α} {capacity : Option Nat}

/-- What a step leaves alone: nobody makes offers, and the capacity stays. -/
structure Plain (capacity : Option Nat) (c : Config ι α) : Prop where
  no_offers : c.channel.offers = []
  capacity_eq : c.channel.capacity = capacity

/-- **What a step does to the queue:** what is sent comes last, and what is received was the
first. -/
theorem Step.queue (h : Step c e d) (hc : Plain capacity c) :
    Plain capacity d ∧
      c.channel.queue ++ sentValues [e] = receivedValues [e] ++ d.channel.queue := by
  obtain ⟨hoffers, hcap⟩ := hc
  cases h with
  | obtain _ _ | refuse _ _ | full _ _ | fail _ _ | drain _ _ | await _ _ | close =>
    -- these leave the queue alone
    exact ⟨⟨hoffers, hcap⟩, List.append_nil _⟩
  | put _ hput =>
    obtain ⟨-, rfl⟩ := Channel.put?_eq_some.mp hput
    exact ⟨⟨hoffers, hcap⟩, rfl⟩
  -- who takes at once and who has waited get the first of the queue
  | take htake =>
    obtain ⟨rest, hq, rfl⟩ := (Channel.take?_eq_some hoffers).mp htake
    exact ⟨⟨hoffers, hcap⟩, (List.append_nil _).trans hq⟩
  | receive _ hreceive =>
    obtain ⟨rest, hq, rfl⟩ := Channel.queue_of_receive? hoffers hreceive
    exact ⟨⟨hoffers, hcap⟩, (List.append_nil _).trans hq⟩
  -- who is woken at the end gets nothing
  | wake _ hreceive =>
    obtain ⟨-, -, rfl⟩ := Channel.closed_of_receive? hoffers hreceive
    exact ⟨⟨hoffers, hcap⟩, List.append_nil _⟩

/-- A receiver is told of the end only if the channel is closed and its queue is empty. -/
theorem Step.of_drained (h : Step c .drained d) (hc : Plain capacity c) :
    c.channel.closed = true ∧ c.channel.queue = [] := by
  cases h with
  | drain htake hclosed => exact ⟨hclosed, (Channel.take?_eq_none hc.no_offers).mp htake⟩
  | wake _ hreceive =>
    obtain ⟨hclosed, hq, -⟩ := Channel.closed_of_receive? hc.no_offers hreceive
    exact ⟨hclosed, hq⟩

/-! ### What a run does to it -/

variable {past more events : List (Event ι α)}

omit [DecidableEq ι] in
/-- A fresh channel has no offers. -/
theorem plain_start : Plain capacity (start ι α capacity) := ⟨rfl, rfl⟩

/-- **What has been sent has been received or is in the queue,** in the order in which it was
sent. -/
theorem sent_eq (h : Runs Step (start ι α capacity) events c) :
    Plain capacity c ∧ sentValues events = receivedValues events ++ c.channel.queue := by
  -- the queue is what the invariant says it is after each step, by what one step does to it
  refine Runs.history (P := fun past c => Plain capacity c ∧
    sentValues past = receivedValues past ++ c.channel.queue) ?_ h ⟨plain_start, rfl⟩
  rintro past c e d ⟨hc, hpast⟩ hstep
  obtain ⟨hd, hqueue⟩ := hstep.queue hc
  refine ⟨hd, ?_⟩
  calc sentValues (past ++ [e])
      = receivedValues past ++ (c.channel.queue ++ sentValues [e]) := by
        rw [sentValues_append, hpast, List.append_assoc]
    _ = receivedValues past ++ (receivedValues [e] ++ d.channel.queue) := by rw [hqueue]
    _ = receivedValues (past ++ [e]) ++ d.channel.queue := by
        rw [receivedValues_append, List.append_assoc]

/-- **When a receiver is told of the end,** all that has been sent has been received. -/
theorem drained_eq (h : Runs Step (start ι α capacity) (past ++ .drained :: more) c) :
    sentValues past = receivedValues past := by
  -- the run is cut where the receiver is told, at a time when the queue is empty
  obtain ⟨c₁, hpast, hrest⟩ := Runs.append_iff.mp h
  obtain ⟨c₂, hdrained, -⟩ := Runs.cons_iff.mp hrest
  obtain ⟨hc₁, hsent⟩ := sent_eq hpast
  obtain ⟨-, hq⟩ := hdrained.of_drained hc₁
  rw [hsent, hq, List.append_nil]

/-! ### After the channel has been closed -/

/-- Closed, and nobody holds a sender any more. -/
structure Over (capacity : Option Nat) (c : Config ι α) : Prop where
  plain : Plain capacity c
  closed : c.channel.closed = true
  outside : ∀ i, c.phase i = .outside

/-- No step reopens a channel. -/
theorem Step.closed (h : Step c e d) (hc : Plain capacity c) (hclosed : c.channel.closed = true) :
    d.channel.closed = true := by
  cases h with
  | put _ hput =>
    obtain ⟨-, rfl⟩ := Channel.put?_eq_some.mp hput
    exact hclosed
  | take htake =>
    obtain ⟨rest, -, rfl⟩ := (Channel.take?_eq_some hc.no_offers).mp htake
    exact hclosed
  | receive _ hreceive =>
    obtain ⟨rest, -, rfl⟩ := Channel.queue_of_receive? hc.no_offers hreceive
    exact hclosed
  | wake _ hreceive =>
    obtain ⟨-, -, rfl⟩ := Channel.closed_of_receive? hc.no_offers hreceive
    exact hclosed
  -- the other steps do not touch the channel, or close it
  | _ => first | exact hclosed | rfl

/-- On a closed channel only those go on who hold a sender. -/
theorem Step.over (h : Step c e d) (hc : Over capacity c) :
    Over capacity d ∧ sentValues [e] = [] := by
  have hd := (h.queue hc.plain).1
  have hclosed := h.closed hc.plain hc.closed
  have houtside := hc.outside
  cases h with
  | obtain _ _ hsender =>
    -- a closed channel gives no sender
    have hopen := Channel.sender_eq_ok.mp hsender
    exact nomatch hopen.symm.trans hc.closed
  | @put _ _ _ i _ _ hi _ | @full _ _ i _ hi _ | @fail _ _ i _ hi _ =>
    -- whoever takes one of these steps has a sender
    exact nomatch hi.symm.trans (houtside i)
  | _ => exact ⟨⟨hd, hclosed, houtside⟩, rfl⟩

/-- On such a channel nothing is sent any more. -/
theorem sentValues_of_over (h : Runs Step c events d) (hc : Over capacity c) :
    sentValues events = [] := by
  -- on the run: every step leaves nobody with a sender
  induction h with
  | nil => rfl
  | @cons _ _ _ e rest he _ ih =>
    obtain ⟨hover, hnone⟩ := he.over hc
    have happend := sentValues_append [e] rest
    rw [List.singleton_append] at happend
    rw [happend, hnone, ih hover]
    rfl

/-- What is queued in a closed channel can be received, and then the end. -/
theorem exists_drain (hc : Plain capacity c) (hclosed : c.channel.closed = true) :
    ∃ events d, Runs Step c (events ++ [.drained]) d ∧ d.channel.queue = [] ∧ d.phase = c.phase ∧
      Plain capacity d := by
  obtain ⟨ch, phase⟩ := c
  generalize hq : ch.queue = queue
  -- one value after the other is received, until the queue is empty
  induction queue generalizing ch with
  | nil =>
    have hnone : ch.take? = none := (Channel.take?_eq_none hc.no_offers).mpr hq
    exact ⟨[], ⟨ch, phase⟩, .cons (.drain hnone hclosed) (.nil _), hq, rfl, hc⟩
  | cons v rest ih =>
    have htake : ch.take? = some (v, { ch with queue := rest }) :=
      (Channel.take?_eq_some hc.no_offers).mpr ⟨rest, hq, rfl⟩
    obtain ⟨events, d, hrun, hd⟩ :=
      ih { ch with queue := rest } ⟨hc.no_offers, hc.capacity_eq⟩ hclosed rfl
    exact ⟨.received v :: events, d, .cons (.take htake) hrun, hd⟩

/-- **The end of the stream.** After `past`, whenever a receiver is told that the channel is closed
and drained, nothing is sent any more, and all that was sent has been received. -/
def EndsStream (past : List (Event ι α)) (c : Config ι α) : Prop :=
  ∀ before after d, Runs Step c (before ++ .drained :: after) d →
    sentValues after = [] ∧
      sentValues (past ++ before) = receivedValues (past ++ before)

/-- Who holds a sender of a closed channel with some capacity can send after its end. -/
theorem exists_sent_after_end {i : ι} {waits : Bool} {v : α} (hc : Plain capacity c)
    (hcap : capacity ≠ some 0) (hclosed : c.channel.closed = true)
    (hi : c.phase i = .holding waits v) :
    ∃ before d, Runs Step c (before ++ .drained :: [.sent i v]) d := by
  -- receivers drain the channel first, and then there is room
  obtain ⟨before, ⟨ch, phase⟩, hrun, hq, hphase, hplain⟩ := exists_drain hc hclosed
  have hroom : ch.hasRoom = true :=
    Channel.hasRoom_of_nil (by rw [hplain.capacity_eq]; exact hcap) hq
  have hi' : phase i = .holding waits v := (congrFun hphase i).trans hi
  have hsent := Step.put hi' (Channel.put?_eq_some.mpr ⟨hroom, rfl⟩)
  have hall := Runs.append_iff.mpr ⟨_, hrun, .cons hsent (.nil _)⟩
  rw [List.append_assoc] at hall
  exact ⟨before, _, hall⟩

/-- Once nobody holds a sender of a closed channel, its stream ends. -/
theorem endsStream_of_outside (h : Runs Step (start ι α capacity) past c)
    (hclosed : c.channel.closed = true) (houtside : ∀ i, c.phase i = .outside) :
    EndsStream past c := by
  obtain ⟨hplain, -⟩ := sent_eq h
  intro before after d hrun
  constructor
  · -- from here on nothing is sent, so nothing is sent after the end either
    have hnone := sentValues_of_over hrun ⟨hplain, hclosed, houtside⟩
    rw [sentValues_append, List.append_eq_nil_iff, ← List.singleton_append, sentValues_append,
      List.append_eq_nil_iff] at hnone
    exact hnone.2.2
  · have hall := Runs.append_iff.mpr ⟨_, h, hrun⟩
    rw [← List.append_assoc] at hall
    exact drained_eq hall

/-- **When closing a channel ends its stream:** exactly if nobody holds a sender any more. -/
theorem endsStream_iff (h : Runs Step (start ι α capacity) past c) (hcap : capacity ≠ some 0)
    (hclosed : c.channel.closed = true) : EndsStream past c ↔ ∀ i, c.phase i = .outside := by
  -- a sender that is out could send after the end, against the assumption
  refine ⟨fun hends i => ?_, endsStream_of_outside h hclosed⟩
  cases hi : c.phase i with
  | outside => rfl
  | holding waits v =>
    obtain ⟨before, d, hrun⟩ := exists_sent_after_end (sent_eq h).1 hcap hclosed hi
    exact nomatch (hends before [.sent i v] d hrun).1

/-- With the only sender's value in the queue, closing the channel ends its stream. -/
theorem endsStream_iff_sent :
    ∃ c, Runs Step (start Bool Nat (some 1)) [.obtained true 7, .sent true 7, .closed] c ∧
      EndsStream [.obtained true 7, .sent true 7, .closed] c := by
  obtain ⟨c, hrun, hclosed, houtside⟩ : ∃ c, Runs Step (start Bool Nat (some 1))
      [.obtained true 7, .sent true 7, .closed] c ∧ c.channel.closed = true ∧
      ∀ i, c.phase i = .outside :=
    -- the value is sent before the channel is closed, and its sender is outside again
    ⟨_, .cons (.obtain true rfl rfl) <| .cons (.put rfl rfl) <| .cons .close <| .nil _, rfl,
      fun i => by cases i <;> rfl⟩
  exact ⟨c, hrun, (endsStream_iff hrun nofun hclosed).mpr houtside⟩

/-- **A value is sent after the end of the stream.** Its sender was obtained before the channel was
closed; it is in the queue after a receiver was told that the channel is closed and drained. -/
theorem sent_after_end :
    ∃ before after c, Runs Step (start Bool Nat (some 1)) (before ++ .drained :: after) c ∧
      sentValues after = [7] ∧ c.channel.queue = [7] :=
  ⟨[.obtained true 7, .closed], [.sent true 7], _,
    .cons (.obtain true rfl rfl) <| .cons .close <| .cons (.drain rfl rfl) <|
      .cons (.put rfl rfl) <| .nil _, rfl, rfl⟩

end Closing

end ScriptEngine.Sync

namespace ScriptEngine.Wait

/-- The scheduler puts a value into the queue whose offer was admitted, be the channel closed or
not, and its sender is told that it has been sent. -/
theorem poll?_offer_of_admitted {s : State} {r : Ref .channel} {ticket : Nat}
    {c : Sync.Channel Value} {v : Value} (hc : s.sync.channels.get? r = some c)
    (hadmitted : c.admitted.find? (·.1 == ticket) = some (ticket, v))
    (hroom : c.hasRoom = true) :
    ∃ t, (offer r ticket).poll? s = some (.done, t) ∧
      t.sync.channels.get? r =
        some (Sync.Channel.withdraw { c with queue := c.queue ++ [v] } ticket) := by
  have hput := (Sync.Channel.put?_eq_some (v := v)).mpr ⟨hroom, rfl⟩
  have hsettled : c.settled? ticket =
      -- the value of the admitted offer is put into the queue
      some (.ok (), Sync.Channel.withdraw { c with queue := c.queue ++ [v] } ticket) := by
    simp only [Sync.Channel.settled?, hadmitted, hput]
  refine ⟨_, by simp only [poll?, hc, Option.bind_some, hsettled]; rfl, ?_⟩
  exact Table.get?_set_of_some hc _

end ScriptEngine.Wait
