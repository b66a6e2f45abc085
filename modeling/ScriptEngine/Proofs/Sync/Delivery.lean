import ScriptEngine.Proofs.Sync.Closing

/-!
# What a channel delivers

A channel with some capacity, or with none that bounds it, is used by the methods `send`, `trySend`,
`recv`, `tryRecv` and `close` and by loops over it. `Delivery.Step` has a constructor for each way
in which such a use can go on in the shared state, as the method makes it or as the scheduler
answers a task that waits. Beside the state a configuration has the sends that wait, each with the
ticket under which its value is on offer, so that the value that comes into the queue can be
compared with the value that was to be sent.

What a step does to the channel is said once (`Step.onChannel`): it puts at most one value at the
end of the queue and takes at most one from its front, within the capacity. That the value of a
waiting send is the one that stands under its ticket is an invariant of its own
(`Channel.Tracks`). Over a run both give that the values accepted so far are those delivered so far
and then the queue (`Delivery.delivers`).
-/

namespace ScriptEngine

/-- The state with another channel at a place. -/
def State.withChannel (s : State) (r : Ref .channel) (c : Sync.Channel Value) : State :=
  Wait.withSync s fun t => { t with channels := t.channels.set r c }

/-- The channel that was put at a place is found there. -/
theorem State.withChannel_channels {s : State} {r : Ref .channel} {c : Sync.Channel Value}
    (h : s.sync.channels.get? r = some c) (c' : Sync.Channel Value) :
    (s.withChannel r c').sync.channels.get? r = some c' :=
  Table.get?_set_of_some h c'

/-! ### The operations of a channel -/

namespace Sync.Channel

variable {α : Type} {c c' : Channel α} {v : α} {ticket : Nat} {waiting : List (Nat × α)}

/-- **What sending comes to:** it is refused by a closed channel, puts the value into the queue, or
leaves it on offer under a new ticket. -/
theorem send_cases (c : Channel α) (v : α) :
    (c.closed = true ∧ c.send v = .error .closed) ∨
    (c.closed = false ∧ ∃ c', c.put? v = some c' ∧ c.send v = .ok (none, c')) ∨
    (c.closed = false ∧ c.send v = .ok (some c.nextTicket,
      { c with offers := c.offers ++ [(c.nextTicket, v)], nextTicket := c.nextTicket + 1 })) := by
  unfold send sender
  cases hclosed : c.closed with
  | true => exact .inl ⟨rfl, rfl⟩
  | false =>
    cases hput : c.put? v with
    | some c' => exact .inr (.inl ⟨rfl, c', rfl, rfl⟩)
    | none => exact .inr (.inr ⟨rfl, rfl⟩)

/-- Trying to send does the same, but for a value there is no room for, which leaves no trace. -/
theorem trySend_cases (c : Channel α) (v : α) :
    (c.closed = true ∧ c.trySend v = .error .closed) ∨
    (c.closed = false ∧ ∃ c', c.put? v = some c' ∧ c.trySend v = .ok (true, c')) ∨
    (c.closed = false ∧ c.trySend v = .ok (false, c)) := by
  unfold trySend sender
  cases hclosed : c.closed with
  | true => exact .inl ⟨rfl, rfl⟩
  | false =>
    cases hput : c.put? v with
    | some c' => exact .inr (.inl ⟨rfl, c', rfl, rfl⟩)
    | none => exact .inr (.inr ⟨rfl, rfl⟩)

/-- A value stands under a ticket: its sender waits, for room or for its turn. -/
def Stands (c : Channel α) (p : Nat × α) : Prop := p ∈ c.offers ∨ p ∈ c.admitted

/-- Only the queue is another one, and who waits may have moved on. -/
structure Requeued (c c' : Channel α) (queue : List α) : Prop where
  queue_eq : c'.queue = queue
  capacity_eq : c'.capacity = c.capacity
  closed_eq : c'.closed = c.closed
  nextTicket_eq : c'.nextTicket = c.nextTicket
  stands_iff : ∀ p, c'.Stands p ↔ c.Stands p

/-- Admitting the sender that has waited longest moves its offer, and the offer stands as before. -/
theorem requeued_admitFirst (c : Channel α) : Requeued c c.admitFirst c.queue := by
  unfold admitFirst
  split
  · next offer rest hoffers =>
    -- it moves from the front of those on offer to the end of those admitted, or there is no room
    split
    · refine ⟨rfl, rfl, rfl, rfl, fun p => ?_⟩
      simp only [Stands, hoffers, List.mem_append, List.mem_cons, List.not_mem_nil, or_false]
      rw [or_assoc]
      exact or_rotate.symm
    · exact ⟨rfl, rfl, rfl, rfl, fun _ => .rfl⟩
  · exact ⟨rfl, rfl, rfl, rfl, fun _ => .rfl⟩

/-- A value that is put comes to the end of the queue. -/
theorem requeued_put? (h : c.put? v = some c') : Requeued c c' (c.queue ++ [v]) := by
  obtain ⟨-, rfl⟩ := put?_eq_some.mp h
  exact ⟨rfl, rfl, rfl, rfl, fun _ => .rfl⟩

/-- What is put into the queue is within the capacity. -/
theorem length_le_of_put? {n : Nat} (hcap : c.capacity = some n) (hn : n ≠ 0)
    (h : c.put? v = some c') : c'.queue.length ≤ n := by
  obtain ⟨hroom, rfl⟩ := put?_eq_some.mp h
  have hlt : c.queue.length < n := by
    simp only [hasRoom, hcap] at hroom
    exact of_decide_eq_true hroom
  rw [List.length_append, List.length_singleton]
  exact hlt

section

variable (hcap : c.capacity ≠ some 0)
include hcap

/-- With a buffer, values are taken from the front of the queue, and that lets the next sender in. -/
theorem take?_eq_some_of_buffered :
    c.take? = some (v, c') ↔
      ∃ rest, c.queue = v :: rest ∧ c' = admitFirst { c with queue := rest } := by
  unfold take?
  cases hq : c.queue with
  | nil =>
    -- values are taken from offers only if there is no buffer
    have hdirect : (c.capacity == some 0 && !c.closed) = false := by
      rw [beq_eq_false_iff_ne.mpr hcap, Bool.false_and]
    simp only [hdirect]
    split <;> simp
  | cons w rest =>
    simp only [Option.some.injEq, Prod.mk.injEq, List.cons.injEq]
    constructor
    · rintro ⟨rfl, rfl⟩
      exact ⟨rest, ⟨rfl, rfl⟩, rfl⟩
    · rintro ⟨_, ⟨rfl, rfl⟩, rfl⟩
      exact ⟨rfl, rfl⟩

/-- With a buffer, there is nothing to take exactly if the queue is empty. -/
theorem take?_eq_none_of_buffered : c.take? = none ↔ c.queue = [] := by
  constructor
  · intro h
    cases hq : c.queue with
    | nil => rfl
    | cons v rest =>
      have hsome := (take?_eq_some_of_buffered hcap).mpr ⟨rest, hq, rfl⟩
      exact nomatch h.symm.trans hsome
  · intro hq
    cases h : c.take? with
    | none => rfl
    | some found =>
      obtain ⟨v, c'⟩ := found
      obtain ⟨rest, hcons, -⟩ := (take?_eq_some_of_buffered hcap).mp h
      exact nomatch hq.symm.trans hcons

/-- What is taken was the first of the queue. -/
theorem requeued_take? (h : c.take? = some (v, c')) :
    ∃ rest, c.queue = v :: rest ∧ Requeued c c' rest := by
  obtain ⟨rest, hq, rfl⟩ := (take?_eq_some_of_buffered hcap).mp h
  obtain ⟨hqueue, hcapacity, hclosed, hnext, hstands⟩ :=
    requeued_admitFirst { c with queue := rest }
  exact ⟨rest, hq, hqueue, hcapacity, hclosed, hnext, hstands⟩

/-- Who has been waiting takes as the one who comes. -/
theorem requeued_receive? (h : c.receive? = some (some v, c')) :
    ∃ rest, c.queue = v :: rest ∧ Requeued c c' rest := by
  simp only [receive?] at h
  split at h
  -- `receive?` counts the receiver out before it takes; the queue is not concerned
  · next htake =>
    cases h
    obtain ⟨rest, hq, hqueue, hcapacity, hclosed, hnext, hstands⟩ :=
      requeued_take? (c := { c with waiting := c.waiting - 1 }) hcap htake
    exact ⟨rest, hq, hqueue, hcapacity, hclosed, hnext, hstands⟩
  · split at h <;> cases h

/-- Who has been waiting is told of the end if the channel is closed and the queue is empty. -/
theorem requeued_receive?_end (h : c.receive? = some (none, c')) :
    c.closed = true ∧ c.queue = [] ∧ Requeued c c' c.queue := by
  simp only [receive?] at h
  split at h
  · cases h
  · next htake =>
    -- nothing to take: it is told of the end if the channel is closed, and otherwise waits on
    split at h
    · next hclosed =>
      cases h
      have hq := (take?_eq_none_of_buffered (c := { c with waiting := c.waiting - 1 }) hcap).mp htake
      exact ⟨hclosed, hq, rfl, rfl, rfl, rfl, fun _ => .rfl⟩
    · cases h

/-- In a closed channel, who has been waiting is given the first of the queue or told of the
end. -/
theorem exists_receive?_of_closed (hclosed : c.closed = true) :
    ∃ c', c.receive? = some (c.queue.head?, c') := by
  -- by what is there once the receiver is counted out
  cases htake : take? { c with waiting := c.waiting - 1 } with
  | none =>
    have hq : c.queue = [] :=
      (take?_eq_none_of_buffered (c := { c with waiting := c.waiting - 1 }) hcap).mp htake
    simp only [receive?, htake]
    rw [if_pos hclosed, hq]
    exact ⟨_, rfl⟩
  | some found =>
    obtain ⟨a, c'⟩ := found
    obtain ⟨rest, hq, -⟩ :=
      requeued_take? (c := { c with waiting := c.waiting - 1 }) hcap htake
    simp only [receive?, htake]
    rw [hq]
    exact ⟨_, rfl⟩

end

/-! ### Sends that wait -/

/-- **The sends that wait are those whose values stand,** each under a ticket of its own. -/
structure Tracks (waiting : List (Nat × α)) (c : Channel α) : Prop where
  mem_iff : ∀ p, p ∈ waiting ↔ c.Stands p
  below : ∀ p ∈ waiting, p.1 < c.nextTicket
  unique : ∀ p ∈ waiting, ∀ q ∈ waiting, p.1 = q.1 → p = q

/-- Nobody waits to send on a fresh channel. -/
theorem tracks_fresh (capacity : Option Nat) : Tracks [] (fresh capacity : Channel α) :=
  ⟨fun p => by simp [Stands, fresh], nofun, nofun⟩

/-- A step that concerns the queue only leaves the waiting sends as they are. -/
theorem Tracks.requeued {queue : List α} (h : Tracks waiting c) (hc : Requeued c c' queue) :
    Tracks waiting c' :=
  ⟨fun p => (h.mem_iff p).trans (hc.stands_iff p).symm,
    fun p hp => hc.nextTicket_eq ▸ h.below p hp, h.unique⟩

/-- Closing does so too. -/
theorem Tracks.close (h : Tracks waiting c) : Tracks waiting c.close :=
  ⟨h.mem_iff, h.below, h.unique⟩

/-- Another send waits, under a new ticket. -/
theorem Tracks.offer (h : Tracks waiting c) (v : α) :
    Tracks (waiting ++ [(c.nextTicket, v)])
      { c with offers := c.offers ++ [(c.nextTicket, v)], nextTicket := c.nextTicket + 1 } := by
  have hnew : ∀ p ∈ waiting, p.1 ≠ c.nextTicket := fun p hp => Nat.ne_of_lt (h.below p hp)
  refine ⟨fun p => ?_, fun p hp => ?_, fun p hp q hq heq => ?_⟩
  -- the new offer stands beside the old ones
  · have hmem := h.mem_iff p
    simp only [Stands, List.mem_append, List.mem_singleton] at hmem ⊢
    rw [hmem, or_right_comm]
  · rcases List.mem_append.mp hp with hp | hp
    · exact Nat.lt_succ_of_lt (h.below p hp)
    · obtain rfl := List.mem_singleton.mp hp
      exact Nat.lt_succ_self _
  -- two of the old ones are told apart as before, and a new ticket is none of theirs
  · simp only [List.mem_append, List.mem_singleton] at hp hq
    rcases hp with hp | rfl <;> rcases hq with hq | rfl
    · exact h.unique p hp q hq heq
    · exact absurd heq (hnew p hp)
    · exact absurd heq.symm (hnew q hq)
    · rfl

/-- A send that waited is settled. -/
theorem Tracks.withdraw (h : Tracks waiting c) (ticket : Nat) :
    Tracks (waiting.filter (·.1 != ticket)) (c.withdraw ticket) := by
  refine ⟨fun p => ?_, fun p hp => h.below p (List.mem_filter.mp hp).1, fun p hp q hq =>
    h.unique p (List.mem_filter.mp hp).1 q (List.mem_filter.mp hq).1⟩
  -- both sides lose just what has the ticket
  have hmem := h.mem_iff p
  simp only [Stands, Channel.withdraw, List.mem_filter] at hmem ⊢
  rw [hmem, or_and_right]

/-- **Settled with success:** the value the send waits with is put into the queue. -/
theorem Tracks.of_settled_ok (h : Tracks waiting c) (hw : (ticket, v) ∈ waiting)
    (hs : c.settled? ticket = some (.ok (), c')) :
    ∃ d, c.put? v = some d ∧ c' = d.withdraw ticket := by
  unfold settled? at hs
  cases hfind : c.admitted.find? (·.1 == ticket) with
  | some p =>
    obtain ⟨k, w⟩ := p
    -- the value that was admitted under the ticket is the one that waits
    have hk : k = ticket := by simpa using List.find?_some hfind
    have hkw : (k, w) ∈ waiting := (h.mem_iff _).mpr (.inr (List.mem_of_find?_eq_some hfind))
    obtain rfl : w = v := congrArg Prod.snd (h.unique _ hkw _ hw hk)
    simp only [hfind] at hs
    cases hput : c.put? w with
    | some d =>
      simp only [hput] at hs
      cases hs
      exact ⟨d, rfl, rfl⟩
    -- there is no room, and then the send goes on waiting or fails
    | none =>
      simp only [hput] at hs
      split at hs <;> cases hs
  | none =>
    -- nothing was admitted under the ticket, so the value is on offer still
    have hoffer : c.offers.any (·.1 == ticket) = true := by
      rcases (h.mem_iff _).mp hw with hmem | hmem
      · exact List.any_eq_true.mpr ⟨_, hmem, beq_self_eq_true ticket⟩
      · exact absurd (beq_self_eq_true ticket) (List.find?_eq_none.mp hfind _ hmem)
    simp only [hfind, hoffer, if_true] at hs
    split at hs <;> cases hs

/-- **Settled with a failure:** the channel has been closed. -/
theorem closed_of_settled_error {e : Error} (hs : c.settled? ticket = some (.error e, c')) :
    c.closed = true ∧ c' = c.withdraw ticket := by
  -- a send that is admitted and one on offer fail in the same way: because the channel is closed
  unfold settled? at hs
  split at hs
  · split at hs
    · cases hs
    · split at hs
      · next hclosed =>
        cases hs
        exact ⟨hclosed, rfl⟩
      · cases hs
  · split at hs
    · split at hs
      · next hclosed =>
        cases hs
        exact ⟨hclosed, rfl⟩
      · cases hs
    · cases hs

end Sync.Channel

namespace Delivery

variable {r : Ref .channel} {c c' : Sync.Channel Value} {s t : State} {E : Engine}
  {scope : Ref .scope} {span : Span} {v : Value}

/-! ### What the methods do -/

/-- The methods find the channel that is at the place. -/
theorem channel_of_some (hc : s.sync.channels.get? r = some c) :
    Method.channel r s = .done c s := by
  simp only [Method.channel, Eval.gets, hc]
  rfl

/-- What a method does with a channel, it does with the one that is there. -/
theorem channel_step {α : Type} (hc : s.sync.channels.get? r = some c) (site : CallSite)
    (f : Sync.Channel Value → Except Sync.Error α) (store : α → Eval Value) :
    (Method.channel r >>= fun c => Method.stepResult site (f c) store) s =
      Method.stepResult site (f c) store s :=
  Eval.bind_of_done (channel_of_some hc) _

/-- **To send** is done at once, or a wait with a ticket, or fails. -/
theorem invoke_send (hc : s.sync.channels.get? r = some c) (E : Engine) (scope : Ref .scope)
    (v : Value) (span : Span) :
    Dispatch.invoke E scope (.channel r) "send" [v] span s =
      match c.send v with
      | .error e => .stop (.fault ⟨.general e.message, span⟩) s
      | .ok (none, c') => .done .nil (s.withChannel r c')
      | .ok (some ticket, c') =>
        .wait (.offer r ticket) (s.withChannel r c') fun
          | .failed e, t => .stop (.fault ⟨.general e.message, span⟩) t
          | _, t => .done .nil t := by
  refine (channel_step hc ⟨scope, span, "send"⟩ (·.send v) _).trans ?_
  rcases c.send v with e | ⟨_ | ticket, c'⟩
  · rfl
  · rfl
  -- the three outcomes of `send`; for the one that waits, whatever the answer is
  · refine congrArg (Run.wait _ _) ?_
    funext a t
    cases a <;> rfl

/-- Where a call that lets others have a turn first was made, if it has its turn in the state `s`:
there, or in an earlier state in which there were others. -/
def Asked (s₀ s : State) : Prop := s₀ = s ∨ s₀.concurrent = true

/-- What a call that lets others have a turn comes to when it has its own in the state `s`. -/
def inTurn {α : Type} (s : State) : Run α → Run α
  | .wait .turn _ resume => resume .done s
  | run => run

/-- The turn is over once it has been waited for. -/
theorem inTurn_yieldTurn {α : Type} {s₀ : State} {m : Eval α} {run : Run α} (h : Asked s₀ s)
    (hm : m s = run) (hrun : inTurn s run = run) :
    inTurn s ((Eval.yieldTurn >>= fun _ => m) s₀) = run := by
  rw [Eval.bind_apply, Eval.yieldTurn]
  -- either there was somebody to have a turn before, or the call was made in the state itself
  by_cases hothers : s₀.concurrent = true
  · rw [if_pos hothers]
    exact hm
  · obtain rfl := h.resolve_right hothers
    rw [if_neg hothers]
    exact (congrArg _ hm).trans hrun

/-- **To try to send** is done when it has its turn, or fails. -/
theorem inTurn_trySend {s₀ : State} (hc : s.sync.channels.get? r = some c) (h : Asked s₀ s)
    (E : Engine) (scope : Ref .scope) (v : Value) (span : Span) :
    inTurn s (Dispatch.invoke E scope (.channel r) "trySend" [v] span s₀) =
      match c.trySend v with
      | .error e => .stop (.fault ⟨.general e.message, span⟩) s
      | .ok (sent, c') => .done (.bool sent) (s.withChannel r c') := by
  -- the rest of the call runs in the state of its turn, and does not wait again
  show inTurn s ((Eval.yieldTurn >>= fun _ => Method.channel r >>= fun c =>
    Method.stepResult ⟨scope, span, "trySend"⟩ (c.trySend v) _) s₀) = _
  refine inTurn_yieldTurn h ?_ ?_
  · rw [channel_step hc ⟨scope, span, "trySend"⟩ (·.trySend v)]
    cases c.trySend v <;> rfl
  · cases c.trySend v <;> rfl

/-- **To try to receive** is done when it has its turn. -/
theorem inTurn_tryRecv {s₀ : State} (hc : s.sync.channels.get? r = some c) (h : Asked s₀ s)
    (E : Engine) (scope : Ref .scope) (span : Span) :
    inTurn s (Dispatch.invoke E scope (.channel r) "tryRecv" [] span s₀) =
      match c.take? with
      | some (v, c') => .done v (s.withChannel r c')
      | none => .done .nil s := by
  show inTurn s ((Eval.yieldTurn >>= fun _ => Method.channel r >>= fun c =>
    match c.take? with
    | some (v, c) => do
      Method.setChannel r c
      return v
    | none => return .nil) s₀) = _
  refine inTurn_yieldTurn h ?_ ?_
  · rw [Eval.bind_of_done (channel_of_some hc)]
    cases c.take? <;> rfl
  · cases c.take? <;> rfl

/-- **To receive,** as the method `recv` and the loops do: it is done at once if there is a value or
the channel is closed, and else it is a wait. -/
theorem receive_eq (hc : s.sync.channels.get? r = some c) :
    Method.receive r s =
      match c.take? with
      | some (v, c') => .done (some v) (s.withChannel r c')
      | none =>
        if c.closed then .done none s
        else .wait (.receive r) (s.withChannel r c.await) fun
          | .value v, t => .done v t
          | _, t => .done none t := by
  rw [Method.receive, Eval.bind_of_done (channel_of_some hc)]
  -- a value, the end, or a wait
  cases c.take? with
  | some found => rfl
  | none =>
    cases hclosed : c.closed with
    | true => rfl
    | false =>
      refine congrArg (Run.wait _ _) ?_
      funext a t
      cases a <;> rfl

/-- **To close** is done at once. -/
theorem invoke_close (hc : s.sync.channels.get? r = some c) (E : Engine) (scope : Ref .scope)
    (span : Span) :
    Dispatch.invoke E scope (.channel r) "close" [] span s =
      .done .nil (s.withChannel r c.close) := by
  show (Method.channel r >>= fun c => do
    Method.setChannel r c.close
    return .nil : Eval Value) s = _
  rw [Eval.bind_of_done (channel_of_some hc)]
  rfl

/-! ### How a wait ends -/

variable {ticket : Nat}

/-- A send that waits goes on with success as the channel settles it. -/
theorem poll?_offer_done (hc : s.sync.channels.get? r = some c)
    (h : (Wait.offer r ticket).poll? s = some (.done, t)) :
    ∃ c', c.settled? ticket = some (.ok (), c') ∧ t = s.withChannel r c' := by
  simp only [Wait.poll?, hc, Option.bind_some, Option.map_eq_some_iff] at h
  obtain ⟨⟨result, c'⟩, hsettled, h⟩ := h
  cases result with
  | ok u =>
    cases h
    exact ⟨c', hsettled, rfl⟩
  | error e => cases h

/-- So it does with a failure. -/
theorem poll?_offer_failed {e : Sync.Error} (hc : s.sync.channels.get? r = some c)
    (h : (Wait.offer r ticket).poll? s = some (.failed e, t)) :
    ∃ c', c.settled? ticket = some (.error e, c') ∧ t = s.withChannel r c' := by
  simp only [Wait.poll?, hc, Option.bind_some, Option.map_eq_some_iff] at h
  obtain ⟨⟨result, c'⟩, hsettled, h⟩ := h
  cases result with
  | ok u => cases h
  | error e' =>
    cases h
    exact ⟨c', hsettled, rfl⟩

/-- A receiver that waits goes on with what the channel has for it. -/
theorem poll?_receive_eq_some {found : Option Value} (hc : s.sync.channels.get? r = some c) :
    (Wait.receive r).poll? s = some (.value found, t) ↔
      ∃ c', c.receive? = some (found, c') ∧ t = s.withChannel r c' := by
  simp only [Wait.poll?, hc, Option.bind_some, Option.map_eq_some_iff, Prod.mk.injEq,
    Answer.value.injEq]
  constructor
  · rintro ⟨⟨_, c'⟩, hreceive, rfl, rfl⟩
    exact ⟨c', hreceive, rfl⟩
  · rintro ⟨c', hreceive, rfl⟩
    exact ⟨(found, c'), hreceive, rfl, rfl⟩

/-! ### Steps -/

/-- What happens on a channel. -/
inductive Event where
  /-- A value is accepted: its send has succeeded. -/
  | sent (v : Value)
  /-- A send begins to wait. -/
  | offered (v : Value)
  /-- A send fails. -/
  | refused (v : Value)
  /-- There is no room for a value that is only tried. -/
  | full (v : Value)
  | received (v : Value)
  /-- A receiver begins to wait. -/
  | awaited
  /-- A receiver is told that the channel is closed and drained. -/
  | ended
  /-- There is nothing for a receiver that only tries. -/
  | empty
  | closed
  /-- Something that is no matter of this channel. -/
  | elsewhere

/-- A receiver gets no value. -/
def Event.FindsNothing (e : Event) : Prop := e = .ended ∨ e = .empty

/-- It moves no value, and does not close the channel. -/
def Event.MovesNothing : Event → Prop
  | .sent _ | .received _ | .closed => False
  | _ => True

/-- The values that have been accepted, in order. -/
def accepted (events : List Event) : List Value :=
  events.filterMap fun
    | .sent v => some v
    | _ => none

/-- The values that have been delivered, in order. -/
def delivered (events : List Event) : List Value :=
  events.filterMap fun
    | .received v => some v
    | _ => none

/-- Accepted values are counted event by event. -/
theorem accepted_append (xs ys : List Event) :
    accepted (xs ++ ys) = accepted xs ++ accepted ys := List.filterMap_append

/-- So are delivered ones. -/
theorem delivered_append (xs ys : List Event) :
    delivered (xs ++ ys) = delivered xs ++ delivered ys := List.filterMap_append

/-- The state that all tasks share, and the sends that wait, each with its ticket. -/
structure Config where
  state : State
  waiting : List (Nat × Value)

/-- There is a value in the queue. -/
def Queued (r : Ref .channel) (s : State) : Prop :=
  ∃ c, s.sync.channels.get? r = some c ∧ c.queue ≠ []

/-- One step on the channel at the place `r`, or elsewhere. -/
inductive Step (r : Ref .channel) : Config → Event → Config → Prop
  | send {s t : State} {waiting : List (Nat × Value)} {E : Engine} {scope : Ref .scope}
      {span : Span} {v : Value} :
      Dispatch.invoke E scope (.channel r) "send" [v] span s = .done .nil t →
      Step r ⟨s, waiting⟩ (.sent v) ⟨t, waiting⟩
  | sendWaits {s t : State} {waiting : List (Nat × Value)} {E : Engine} {scope : Ref .scope}
      {span : Span} {v : Value} {ticket : Nat} {resume : Answer → State → Run Value} :
      Dispatch.invoke E scope (.channel r) "send" [v] span s =
        .wait (.offer r ticket) t resume →
      Step r ⟨s, waiting⟩ (.offered v) ⟨t, waiting ++ [(ticket, v)]⟩
  | sendFails {s t : State} {waiting : List (Nat × Value)} {E : Engine} {scope : Ref .scope}
      {span : Span} {v : Value} {why : Stop} :
      Dispatch.invoke E scope (.channel r) "send" [v] span s = .stop why t →
      Step r ⟨s, waiting⟩ (.refused v) ⟨t, waiting⟩
  /-- A send that waits goes on and has succeeded. -/
  | settled {s t : State} {waiting : List (Nat × Value)} {ticket : Nat} {v : Value} :
      (ticket, v) ∈ waiting → (Wait.offer r ticket).poll? s = some (.done, t) →
      Step r ⟨s, waiting⟩ (.sent v) ⟨t, waiting.filter (·.1 != ticket)⟩
  /-- A send that waits goes on and has failed. -/
  | failed {s t : State} {waiting : List (Nat × Value)} {ticket : Nat} {v : Value}
      {e : Sync.Error} :
      (ticket, v) ∈ waiting → (Wait.offer r ticket).poll? s = some (.failed e, t) →
      Step r ⟨s, waiting⟩ (.refused v) ⟨t, waiting.filter (·.1 != ticket)⟩
  | trySend {s₀ s t : State} {waiting : List (Nat × Value)} {E : Engine} {scope : Ref .scope}
      {span : Span} {v : Value} :
      Asked s₀ s →
      inTurn s (Dispatch.invoke E scope (.channel r) "trySend" [v] span s₀) =
        .done (.bool true) t →
      Step r ⟨s, waiting⟩ (.sent v) ⟨t, waiting⟩
  | tryFull {s₀ s t : State} {waiting : List (Nat × Value)} {E : Engine} {scope : Ref .scope}
      {span : Span} {v : Value} :
      Asked s₀ s →
      inTurn s (Dispatch.invoke E scope (.channel r) "trySend" [v] span s₀) =
        .done (.bool false) t →
      Step r ⟨s, waiting⟩ (.full v) ⟨t, waiting⟩
  | tryFails {s₀ s t : State} {waiting : List (Nat × Value)} {E : Engine} {scope : Ref .scope}
      {span : Span} {v : Value} {why : Stop} :
      Asked s₀ s →
      inTurn s (Dispatch.invoke E scope (.channel r) "trySend" [v] span s₀) = .stop why t →
      Step r ⟨s, waiting⟩ (.refused v) ⟨t, waiting⟩
  /-- The method `recv` or a loop takes a value. -/
  | receive {s t : State} {waiting : List (Nat × Value)} {v : Value} :
      Method.receive r s = .done (some v) t → Step r ⟨s, waiting⟩ (.received v) ⟨t, waiting⟩
  | receiveEnds {s t : State} {waiting : List (Nat × Value)} :
      Method.receive r s = .done none t → Step r ⟨s, waiting⟩ .ended ⟨t, waiting⟩
  | receiveWaits {s t : State} {waiting : List (Nat × Value)}
      {resume : Answer → State → Run (Option Value)} :
      Method.receive r s = .wait (.receive r) t resume →
      Step r ⟨s, waiting⟩ .awaited ⟨t, waiting⟩
  /-- A receiver that waits is given a value. -/
  | wake {s t : State} {waiting : List (Nat × Value)} {v : Value} :
      (Wait.receive r).poll? s = some (.value (some v), t) →
      Step r ⟨s, waiting⟩ (.received v) ⟨t, waiting⟩
  /-- A receiver that waits is told of the end. -/
  | wakeEnds {s t : State} {waiting : List (Nat × Value)} :
      (Wait.receive r).poll? s = some (.value none, t) →
      Step r ⟨s, waiting⟩ .ended ⟨t, waiting⟩
  | tryRecv {s₀ s t : State} {waiting : List (Nat × Value)} {E : Engine} {scope : Ref .scope}
      {span : Span} {v : Value} :
      Asked s₀ s → Queued r s →
      inTurn s (Dispatch.invoke E scope (.channel r) "tryRecv" [] span s₀) = .done v t →
      Step r ⟨s, waiting⟩ (.received v) ⟨t, waiting⟩
  | tryNothing {s₀ s t : State} {waiting : List (Nat × Value)} {E : Engine} {scope : Ref .scope}
      {span : Span} {v : Value} :
      Asked s₀ s → ¬Queued r s →
      inTurn s (Dispatch.invoke E scope (.channel r) "tryRecv" [] span s₀) = .done v t →
      Step r ⟨s, waiting⟩ .empty ⟨t, waiting⟩
  | close {s t : State} {waiting : List (Nat × Value)} {E : Engine} {scope : Ref .scope}
      {span : Span} :
      Dispatch.invoke E scope (.channel r) "close" [] span s = .done .nil t →
      Step r ⟨s, waiting⟩ .closed ⟨t, waiting⟩
  | elsewhere {s t : State} {waiting : List (Nat × Value)} :
      t.sync.channels.get? r = s.sync.channels.get? r →
      Step r ⟨s, waiting⟩ .elsewhere ⟨t, waiting⟩

/-! ### What a step does to the channel -/

/-- **What an event does to a channel:** a value that is accepted comes to the end of the queue, and
one that is delivered was at its front. -/
structure Effect (e : Event) (c c' : Sync.Channel Value) : Prop where
  queue_eq : c.queue ++ accepted [e] = delivered [e] ++ c'.queue
  capacity_eq : c'.capacity = c.capacity
  closed_iff : c'.closed = true ↔ c.closed = true ∨ e = .closed
  length_le : ∀ n, c.capacity = some n → c.queue.length ≤ n → c'.queue.length ≤ n
  nothing : e.FindsNothing → c.queue = []

namespace Effect

/-- An event that moves no value. -/
theorem of_same {e : Event} (he : e.MovesNothing) (hqueue : c'.queue = c.queue)
    (hcapacity : c'.capacity = c.capacity) (hclosed : c'.closed = c.closed)
    (hnothing : e.FindsNothing → c.queue = []) : Effect e c c' := by
  refine ⟨?_, hcapacity, ?_, fun n _ hle => ?_, hnothing⟩
  · rw [hqueue]
    -- no value is accepted or delivered by such an event
    cases e <;> first | exact List.append_nil _ | exact he.elim
  · have hne : e ≠ .closed := by
      rintro rfl
      exact he
    rw [hclosed, or_iff_left hne]
  · rw [hqueue]
    exact hle

/-- A value that is put into the queue is accepted, within the capacity. -/
theorem of_put? (hcap : c.capacity ≠ some 0) (h : c.put? v = some c') : Effect (.sent v) c c' := by
  obtain ⟨hqueue, hcapacity, hclosed, -, -⟩ := Sync.Channel.requeued_put? h
  refine ⟨?_, hcapacity, ?_, fun n hn _ => ?_, nofun⟩
  · rw [hqueue]
    rfl
  · rw [hclosed, or_iff_left nofun]
  -- without a buffer nothing is put; with one, `put?` looks for room
  · have hpos : n ≠ 0 := by
      rintro rfl
      exact hcap hn
    exact Sync.Channel.length_le_of_put? hn hpos h

/-- A value that is taken off the front of the queue is delivered. -/
theorem of_requeued {rest : List Value} (hq : c.queue = v :: rest) (hc : c.Requeued c' rest) :
    Effect (.received v) c c' := by
  obtain ⟨hqueue, hcapacity, hclosed, -, -⟩ := hc
  refine ⟨?_, hcapacity, ?_, fun n _ hle => ?_, nofun⟩
  · rw [hqueue, hq]
    exact List.append_nil _
  · rw [hclosed, or_iff_left nofun]
  · rw [hq, List.length_cons] at hle
    rw [hqueue]
    exact Nat.le_of_succ_le hle

/-- Closing moves no value. -/
theorem of_close (c : Sync.Channel Value) : Effect .closed c c.close :=
  ⟨List.append_nil _, rfl, iff_of_true rfl (.inr rfl), fun _ _ hle => hle, nofun⟩

end Effect

variable {capacity : Option Nat} {k k' : Config} {e : Event} {events : List Event}
  {waiting : List (Nat × Value)}

/-- Whether there is a value in the queue can be seen in the channel. -/
theorem queued_iff (hc : s.sync.channels.get? r = some c) : Queued r s ↔ c.queue ≠ [] := by
  constructor
  · rintro ⟨d, hd, hq⟩
    obtain rfl := Option.some.inj (hd.symm.trans hc)
    exact hq
  · intro hq
    exact ⟨c, hc, hq⟩

section

variable {s₀ : State} {x : Value} {why : Stop}

/-- A send that is done at once has put its value into the queue of an open channel. -/
theorem put_of_send (hc : s.sync.channels.get? r = some c)
    (h : Dispatch.invoke E scope (.channel r) "send" [v] span s = .done x t) :
    c.closed = false ∧ ∃ c', c.put? v = some c' ∧ t = s.withChannel r c' := by
  -- of the three ways to send only the second one is done at once
  rcases c.send_cases v with ⟨-, hsend⟩ | ⟨hopen, c', hput, hsend⟩ | ⟨-, hsend⟩ <;>
    rw [invoke_send hc, hsend] at h <;> cases h
  exact ⟨hopen, c', hput, rfl⟩

/-- A send that waits does so with a new ticket of an open channel. -/
theorem offer_of_send {resume : Answer → State → Run Value}
    (hc : s.sync.channels.get? r = some c)
    (h : Dispatch.invoke E scope (.channel r) "send" [v] span s =
      .wait (.offer r ticket) t resume) :
    c.closed = false ∧ ticket = c.nextTicket ∧ t = s.withChannel r
      { c with offers := c.offers ++ [(c.nextTicket, v)], nextTicket := c.nextTicket + 1 } := by
  -- and only the third one waits
  rcases c.send_cases v with ⟨-, hsend⟩ | ⟨-, c', -, hsend⟩ | ⟨hopen, hsend⟩ <;>
    rw [invoke_send hc, hsend] at h <;> cases h
  exact ⟨hopen, rfl, rfl⟩

/-- A send that fails changes nothing. -/
theorem eq_of_send_fails (hc : s.sync.channels.get? r = some c)
    (h : Dispatch.invoke E scope (.channel r) "send" [v] span s = .stop why t) : t = s := by
  rcases c.send_cases v with ⟨-, hsend⟩ | ⟨-, c', -, hsend⟩ | ⟨-, hsend⟩ <;>
    rw [invoke_send hc, hsend] at h <;> cases h
  rfl

/-- A try to send that succeeds has put its value into the queue of an open channel. -/
theorem put_of_trySend (hc : s.sync.channels.get? r = some c) (hs : Asked s₀ s)
    (h : inTurn s (Dispatch.invoke E scope (.channel r) "trySend" [v] span s₀) =
      .done (.bool true) t) :
    c.closed = false ∧ ∃ c', c.put? v = some c' ∧ t = s.withChannel r c' := by
  rcases c.trySend_cases v with ⟨-, hsend⟩ | ⟨hopen, c', hput, hsend⟩ | ⟨-, hsend⟩ <;>
    rw [inTurn_trySend hc hs, hsend] at h <;> cases h
  exact ⟨hopen, c', hput, rfl⟩

/-- One that finds no room leaves the channel as it is. -/
theorem eq_of_trySend_full (hc : s.sync.channels.get? r = some c) (hs : Asked s₀ s)
    (h : inTurn s (Dispatch.invoke E scope (.channel r) "trySend" [v] span s₀) =
      .done (.bool false) t) : t = s.withChannel r c := by
  rcases c.trySend_cases v with ⟨-, hsend⟩ | ⟨-, c', -, hsend⟩ | ⟨-, hsend⟩ <;>
    rw [inTurn_trySend hc hs, hsend] at h <;> cases h
  rfl

/-- One that fails changes nothing. -/
theorem eq_of_trySend_fails (hc : s.sync.channels.get? r = some c) (hs : Asked s₀ s)
    (h : inTurn s (Dispatch.invoke E scope (.channel r) "trySend" [v] span s₀) = .stop why t) :
    t = s := by
  rcases c.trySend_cases v with ⟨-, hsend⟩ | ⟨-, c', -, hsend⟩ | ⟨-, hsend⟩ <;>
    rw [inTurn_trySend hc hs, hsend] at h <;> cases h
  rfl

/-- A receiver that is given a value at once has taken it. -/
theorem take_of_receive (hc : s.sync.channels.get? r = some c)
    (h : Method.receive r s = .done (some v) t) :
    ∃ c', c.take? = some (v, c') ∧ t = s.withChannel r c' := by
  rw [receive_eq hc] at h
  split at h
  · next w c' htake =>
    cases h
    exact ⟨c', htake, rfl⟩
  · split at h <;> cases h

/-- One that is told of the end found nothing to take. -/
theorem none_of_receive (hc : s.sync.channels.get? r = some c)
    (h : Method.receive r s = .done none t) :
    c.take? = none ∧ t = s := by
  rw [receive_eq hc] at h
  split at h
  · cases h
  · next htake =>
    split at h <;> cases h
    exact ⟨htake, rfl⟩

/-- One that waits is counted in. -/
theorem await_of_receive {resume : Answer → State → Run (Option Value)}
    (hc : s.sync.channels.get? r = some c)
    (h : Method.receive r s = .wait (.receive r) t resume) : t = s.withChannel r c.await := by
  rw [receive_eq hc] at h
  split at h
  · cases h
  · split at h <;> cases h
    rfl

/-- A try to receive takes a value, or finds nothing and changes nothing. -/
theorem take_of_tryRecv (hc : s.sync.channels.get? r = some c) (hs : Asked s₀ s)
    (h : inTurn s (Dispatch.invoke E scope (.channel r) "tryRecv" [] span s₀) = .done x t) :
    (∃ c', c.take? = some (x, c') ∧ t = s.withChannel r c') ∨ c.take? = none ∧ t = s := by
  rw [inTurn_tryRecv hc hs] at h
  split at h
  · next w c' htake =>
    cases h
    exact .inl ⟨c', htake, rfl⟩
  · next htake =>
    cases h
    exact .inr ⟨htake, rfl⟩

end

/-- **What a step does to the channel.** The sends that wait go on being those whose values
stand. -/
theorem Step.onChannel (h : Step r k e k') (hcap : c.capacity ≠ some 0)
    (hc : k.state.sync.channels.get? r = some c) (hw : c.Tracks k.waiting) :
    ∃ c', k'.state.sync.channels.get? r = some c' ∧ Effect e c c' ∧ c'.Tracks k'.waiting := by
  -- first what puts a value, then what leaves the values where they are, then what takes one
  cases h with
  | send hrun =>
    obtain ⟨-, c', hput, rfl⟩ := put_of_send hc hrun
    exact ⟨c', State.withChannel_channels hc c', .of_put? hcap hput,
      hw.requeued (Sync.Channel.requeued_put? hput)⟩
  | trySend hs hrun =>
    obtain ⟨-, c', hput, rfl⟩ := put_of_trySend hc hs hrun
    exact ⟨c', State.withChannel_channels hc c', .of_put? hcap hput,
      hw.requeued (Sync.Channel.requeued_put? hput)⟩
  | settled hmem hpoll =>
    obtain ⟨c', hsettled, rfl⟩ := poll?_offer_done hc hpoll
    -- by the invariant, what is settled is the value that the send waits with
    obtain ⟨d, hput, rfl⟩ := hw.of_settled_ok hmem hsettled
    have heffect := Effect.of_put? hcap hput
    exact ⟨_, State.withChannel_channels hc _,
      ⟨heffect.queue_eq, heffect.capacity_eq, heffect.closed_iff, heffect.length_le, nofun⟩,
      (hw.requeued (Sync.Channel.requeued_put? hput)).withdraw _⟩
  | sendWaits hrun =>
    obtain ⟨-, rfl, rfl⟩ := offer_of_send hc hrun
    exact ⟨_, State.withChannel_channels hc _, .of_same trivial rfl rfl rfl nofun, hw.offer _⟩
  | failed hmem hpoll =>
    obtain ⟨c', hsettled, rfl⟩ := poll?_offer_failed hc hpoll
    obtain ⟨-, rfl⟩ := Sync.Channel.closed_of_settled_error hsettled
    exact ⟨_, State.withChannel_channels hc _, .of_same trivial rfl rfl rfl nofun, hw.withdraw _⟩
  | sendFails hrun =>
    obtain rfl := eq_of_send_fails hc hrun
    exact ⟨c, hc, .of_same trivial rfl rfl rfl nofun, hw⟩
  | tryFails hs hrun =>
    obtain rfl := eq_of_trySend_fails hc hs hrun
    exact ⟨c, hc, .of_same trivial rfl rfl rfl nofun, hw⟩
  | tryFull hs hrun =>
    obtain rfl := eq_of_trySend_full hc hs hrun
    exact ⟨c, State.withChannel_channels hc c, .of_same trivial rfl rfl rfl nofun, hw⟩
  | receive hrun =>
    obtain ⟨c', htake, rfl⟩ := take_of_receive hc hrun
    obtain ⟨rest, hq, hrest⟩ := Sync.Channel.requeued_take? hcap htake
    exact ⟨c', State.withChannel_channels hc c', .of_requeued hq hrest, hw.requeued hrest⟩
  | wake hpoll =>
    obtain ⟨c', hreceive, rfl⟩ := (poll?_receive_eq_some hc).mp hpoll
    obtain ⟨rest, hq, hrest⟩ := Sync.Channel.requeued_receive? hcap hreceive
    exact ⟨c', State.withChannel_channels hc c', .of_requeued hq hrest, hw.requeued hrest⟩
  | tryRecv hs hqueued hrun =>
    rcases take_of_tryRecv hc hs hrun with ⟨c', htake, rfl⟩ | ⟨hnone, -⟩
    · obtain ⟨rest, hq, hrest⟩ := Sync.Channel.requeued_take? hcap htake
      exact ⟨c', State.withChannel_channels hc c', .of_requeued hq hrest, hw.requeued hrest⟩
    -- the event says that there was something in the queue
    · have hq := (Sync.Channel.take?_eq_none_of_buffered hcap).mp hnone
      exact absurd hq ((queued_iff hc).mp hqueued)
  | receiveEnds hrun =>
    obtain ⟨hnone, rfl⟩ := none_of_receive hc hrun
    have hq := (Sync.Channel.take?_eq_none_of_buffered hcap).mp hnone
    exact ⟨c, hc, .of_same trivial rfl rfl rfl fun _ => hq, hw⟩
  | wakeEnds hpoll =>
    obtain ⟨c', hreceive, rfl⟩ := (poll?_receive_eq_some hc).mp hpoll
    obtain ⟨-, hq, hsame⟩ := Sync.Channel.requeued_receive?_end hcap hreceive
    exact ⟨c', State.withChannel_channels hc c',
      .of_same trivial hsame.queue_eq hsame.capacity_eq hsame.closed_eq fun _ => hq,
      hw.requeued hsame⟩
  | tryNothing hs hqueued hrun =>
    have hq : c.queue = [] := not_not.mp (mt (queued_iff hc).mpr hqueued)
    rcases take_of_tryRecv hc hs hrun with ⟨c', htake, -⟩ | ⟨-, rfl⟩
    -- and here that there was nothing
    · have hnone := (Sync.Channel.take?_eq_none_of_buffered hcap).mpr hq
      exact nomatch hnone.symm.trans htake
    · exact ⟨c, hc, .of_same trivial rfl rfl rfl fun _ => hq, hw⟩
  | receiveWaits hrun =>
    obtain rfl := await_of_receive hc hrun
    exact ⟨_, State.withChannel_channels hc _, .of_same trivial rfl rfl rfl nofun,
      hw.requeued ⟨rfl, rfl, rfl, rfl, fun _ => .rfl⟩⟩
  | close hrun =>
    rw [invoke_close hc] at hrun
    cases hrun
    exact ⟨_, State.withChannel_channels hc _, .of_close c, hw.close⟩
  | elsewhere hsame =>
    exact ⟨c, hsame.trans hc, .of_same trivial rfl rfl rfl nofun, hw⟩

/-- On a closed channel for which no send waits, none succeeds or begins to wait. -/
theorem Step.over (h : Step r k e k') (hc : k.state.sync.channels.get? r = some c)
    (hclosed : c.closed = true) (hnone : k.waiting = []) :
    accepted [e] = [] ∧ k'.waiting = [] := by
  -- a channel that is closed accepts no send, and there is none that was accepted before
  cases h with
  | send hrun =>
    obtain ⟨hopen, -⟩ := put_of_send hc hrun
    exact nomatch hopen.symm.trans hclosed
  | sendWaits hrun =>
    obtain ⟨hopen, -⟩ := offer_of_send hc hrun
    exact nomatch hopen.symm.trans hclosed
  | trySend hs hrun =>
    obtain ⟨hopen, -⟩ := put_of_trySend hc hs hrun
    exact nomatch hopen.symm.trans hclosed
  | settled hmem _ | failed hmem _ =>
    cases hnone
    cases hmem
  | _ => exact ⟨rfl, hnone⟩

/-! ### Runs -/

/-- What a channel of some capacity is like after some events. -/
structure Sound (r : Ref .channel) (capacity : Option Nat) (past : List Event) (k : Config)
    (c : Sync.Channel Value) : Prop where
  channel : k.state.sync.channels.get? r = some c
  capacity_eq : c.capacity = capacity
  /-- Nothing is lost, doubled or out of order. -/
  in_order : accepted past = delivered past ++ c.queue
  length_le : ∀ n, capacity = some n → c.queue.length ≤ n
  closed_iff : c.closed = true ↔ .closed ∈ past
  tracks : c.Tracks k.waiting

/-- A fresh channel has delivered what it accepted: nothing. -/
theorem sound_fresh (hfresh : s.sync.channels.get? r = some (.fresh capacity)) :
    Sound r capacity [] ⟨s, []⟩ (.fresh capacity) :=
  ⟨hfresh, rfl, rfl, fun _ _ => Nat.zero_le _, iff_of_false nofun nofun,
    Sync.Channel.tracks_fresh capacity⟩

/-- **The invariant is kept by every step,** since a step has its effect. -/
theorem Sound.step {past : List Event} (hcap : capacity ≠ some 0)
    (h : Sound r capacity past k c) (hstep : Step r k e k') :
    ∃ c', Sound r capacity (past ++ [e]) k' c' := by
  obtain ⟨hc, rfl, hpast, hlength, hclosed, hw⟩ := h
  obtain ⟨c', hc', heffect, hw'⟩ := hstep.onChannel hcap hc hw
  refine ⟨c', hc', heffect.capacity_eq, ?_, fun n hn => heffect.length_le n hn (hlength n hn), ?_,
    hw'⟩
  -- what the step accepts comes behind the queue, and what it delivers was in front of it
  · calc accepted (past ++ [e])
        = delivered past ++ (c.queue ++ accepted [e]) := by
          rw [accepted_append, hpast, List.append_assoc]
      _ = delivered past ++ (delivered [e] ++ c'.queue) := by rw [heffect.queue_eq]
      _ = delivered (past ++ [e]) ++ c'.queue := by rw [delivered_append, List.append_assoc]
  · rw [heffect.closed_iff, hclosed, List.mem_append, List.mem_singleton, eq_comm (a := e)]

/-- So it is kept by every run. -/
theorem Sound.run {past : List Event} (hcap : capacity ≠ some 0)
    (h : Sound r capacity past k c) (hrun : Runs (Step r) k events k') :
    ∃ c', Sound r capacity (past ++ events) k' c' := by
  refine Runs.history (P := fun more k => ∃ c, Sound r capacity (past ++ more) k c) ?_ hrun
    ⟨c, by rwa [List.append_nil]⟩
  rintro more k e k' ⟨c, hc⟩ hstep
  obtain ⟨c', hc'⟩ := hc.step hcap hstep
  exact ⟨c', by rwa [← List.append_assoc]⟩

/-- What is in the queue is delivered before what is accepted later. -/
theorem Sound.queue_append {past : List Event} {c' : Sync.Channel Value}
    (h : Sound r capacity past k c) (h' : Sound r capacity (past ++ events) k' c') :
    c.queue ++ accepted events = delivered events ++ c'.queue := by
  have hboth := h'.in_order
  rw [accepted_append, delivered_append, h.in_order, List.append_assoc, List.append_assoc] at hboth
  exact List.append_cancel_left hboth

/-- Before a receiver finds nothing, all that is queued has been delivered. -/
theorem Sound.delivered_of_nothing {past : List Event} (hcap : capacity ≠ some 0)
    (h : Sound r capacity past k c) (he : e.FindsNothing)
    (hrun : Runs (Step r) k (events ++ [e]) k') :
    delivered events = c.queue ++ accepted events := by
  obtain ⟨k₁, hbefore, hlast⟩ := Runs.append_iff.mp hrun
  obtain ⟨k₂, hstep, -⟩ := Runs.cons_iff.mp hlast
  obtain ⟨c₁, h₁⟩ := h.run hcap hbefore
  -- the receiver's step is made in the state after the run, and its effect is that the queue is
  -- empty
  have hcap₁ : c₁.capacity ≠ some 0 := by
    rw [h₁.capacity_eq]
    exact hcap
  obtain ⟨_, -, heffect, -⟩ := hstep.onChannel hcap₁ h₁.channel h₁.tracks
  have hqueue := h.queue_append h₁
  rw [heffect.nothing he, List.append_nil] at hqueue
  exact hqueue.symm

/-! ### After the channel has been closed -/

/-- **What can be done with a closed channel.** Whoever sends fails and changes nothing. Whoever
receives is answered at once, with the first of the queue as long as there is one. -/
structure Over (r : Ref .channel) (k : Config) (c : Sync.Channel Value) : Prop where
  send : ∀ (E : Engine) (scope : Ref .scope) (v : Value) (span : Span),
    Dispatch.invoke E scope (.channel r) "send" [v] span k.state =
      .stop (.fault ⟨.general "send on closed channel", span⟩) k.state
  trySend : ∀ (E : Engine) (scope : Ref .scope) (v : Value) (span : Span) (s₀ : State),
    Asked s₀ k.state →
    inTurn k.state (Dispatch.invoke E scope (.channel r) "trySend" [v] span s₀) =
      .stop (.fault ⟨.general "send on closed channel", span⟩) k.state
  /-- So do `recv` and the loops. -/
  receive : ∃ t, Method.receive r k.state = .done c.queue.head? t
  /-- So is a receiver that has been waiting. -/
  wake : ∃ t, (Wait.receive r).poll? k.state = some (.value c.queue.head?, t)
  tryRecv : ∀ (E : Engine) (scope : Ref .scope) (span : Span) (s₀ : State), Asked s₀ k.state →
    ∃ t, inTurn k.state (Dispatch.invoke E scope (.channel r) "tryRecv" [] span s₀) =
      .done (c.queue.head?.getD .nil) t
  /-- If no send waits, none succeeds any more. -/
  silent : k.waiting = [] → ∀ events k', Runs (Step r) k events k' → accepted events = []

/-- From a closed channel the first of the queue is taken. -/
theorem take?_map_fst (hcap : c.capacity ≠ some 0) :
    c.take?.map Prod.fst = c.queue.head? := by
  cases htake : c.take? with
  | none =>
    rw [(Sync.Channel.take?_eq_none_of_buffered hcap).mp htake]
    rfl
  | some found =>
    obtain ⟨v, c'⟩ := found
    obtain ⟨rest, hq, -⟩ := Sync.Channel.requeued_take? hcap htake
    rw [hq]
    rfl

/-- A channel that has been closed is over. -/
theorem Sound.over {past : List Event} (hcap : capacity ≠ some 0)
    (h : Sound r capacity past k c) (hclosed : c.closed = true) : Over r k c := by
  have hc := h.channel
  have hcap' : c.capacity ≠ some 0 := by
    rw [h.capacity_eq]
    exact hcap
  have hhead := take?_map_fst hcap'
  refine ⟨fun E scope v span => ?_, fun E scope v span s₀ hs => ?_, ?_, ?_,
    fun E scope span s₀ hs => ?_, fun hnone events k' hrun => ?_⟩
  -- `send`: only the first way is left
  · rcases c.send_cases v with ⟨-, hsend⟩ | ⟨hopen, -⟩ | ⟨hopen, -⟩
    · rw [invoke_send hc, hsend]
      rfl
    · exact nomatch hopen.symm.trans hclosed
    · exact nomatch hopen.symm.trans hclosed
  -- `trySend`, in its turn
  · rcases c.trySend_cases v with ⟨-, hsend⟩ | ⟨hopen, -⟩ | ⟨hopen, -⟩
    · rw [inTurn_trySend hc hs, hsend]
      rfl
    · exact nomatch hopen.symm.trans hclosed
    · exact nomatch hopen.symm.trans hclosed
  -- `recv` and loops: the head of the queue, or the end at once
  · rw [receive_eq hc, ← hhead]
    cases c.take? with
    | none => exact ⟨_, if_pos hclosed⟩
    | some found => exact ⟨_, rfl⟩
  -- a receiver that has waited
  · obtain ⟨c', hreceive⟩ := Sync.Channel.exists_receive?_of_closed hcap' hclosed
    exact ⟨_, (poll?_receive_eq_some hc).mpr ⟨c', hreceive, rfl⟩⟩
  -- `tryRecv`, in its turn
  · rw [inTurn_tryRecv hc hs, ← hhead]
    cases c.take? with
    | none => exact ⟨_, rfl⟩
    | some found => exact ⟨_, rfl⟩
  · -- closed, and no send waits: so it stays, and nothing is accepted
    have hstays : (∃ c past, Sound r capacity past k' c ∧ c.closed = true ∧ k'.waiting = []) ∧
        accepted events = [] := by
      refine Runs.history (P := fun more k => (∃ c past, Sound r capacity past k c ∧
        c.closed = true ∧ k.waiting = []) ∧ accepted more = []) ?_ hrun
        ⟨⟨c, past, h, hclosed, hnone⟩, rfl⟩
      rintro more k e k' ⟨⟨c, past, h, hclosed, hnone⟩, hmore⟩ hstep
      obtain ⟨hsent, hnone'⟩ := hstep.over h.channel hclosed hnone
      obtain ⟨c', h'⟩ := h.step hcap hstep
      have hclosed' := h'.closed_iff.mpr (List.mem_append_left _ (h.closed_iff.mp hclosed))
      exact ⟨⟨c', _, h', hclosed', hnone'⟩, by rw [accepted_append, hmore, hsent]; rfl⟩
    exact hstays.2

/-- **What a channel delivers,** whoever uses it in whatever order. After every run on a fresh
channel of some capacity, or of none:

* the values accepted so far are those delivered so far and then the queue, and the queue is within
  the capacity (`Sound`);
* when a receiver next finds nothing, all that is queued now has been delivered first, in order;
* once the channel is closed, who sends fails and changes nothing, and who receives is answered with
  the first of the queue (`Over`). -/
theorem delivers (hcap : capacity ≠ some 0)
    (hfresh : s.sync.channels.get? r = some (.fresh capacity))
    (h : Runs (Step r) ⟨s, []⟩ events k) :
    ∃ c, Sound r capacity events k c ∧
      (∀ more e k', e.FindsNothing → Runs (Step r) k (more ++ [e]) k' →
        delivered more = c.queue ++ accepted more) ∧
      (.closed ∈ events → Over r k c) := by
  obtain ⟨c, hc⟩ := (sound_fresh hfresh).run hcap h
  refine ⟨c, hc, fun more e k' he hrun => hc.delivered_of_nothing hcap he hrun, fun hclosed => ?_⟩
  exact hc.over hcap (hc.closed_iff.mpr hclosed)

/-- A host's state with a channel for one value. -/
def withBuffer : State :=
  let s := State.initial ⟨.empty, .default, none, .empty, false, 0, 0⟩
  { s with sync := { s.sync with channels := ⟨#[.fresh (some 1)]⟩ } }

/-- A second send waits until the first value has been received. Then the channel is closed, and the
second value is received still. -/
theorem delivers_withBuffer :
    some 1 ≠ some 0 ∧ withBuffer.sync.channels.get? ⟨0⟩ = some (.fresh (some 1)) ∧
    ∃ k, Runs (Step ⟨0⟩) ⟨withBuffer, []⟩ [.sent (.int 1), .offered (.int 2), .full (.int 3),
        .received (.int 1), .sent (.int 2), .closed, .refused (.int 4)] k ∧
      ∃ c, k.state.sync.channels.get? ⟨0⟩ = some c ∧ c.queue = [.int 2] ∧
        ∀ more e k', e.FindsNothing → Runs (Step ⟨0⟩) k (more ++ [e]) k' →
          delivered more = [.int 2] := by
  have hcap : some 1 ≠ some 0 := nofun
  have hfresh : withBuffer.sync.channels.get? ⟨0⟩ = some (.fresh (some 1)) := rfl
  -- everybody uses the channel by its methods, in the scope that programs start in
  have sent {v : Value} {s t : State} {waiting : List (Nat × Value)} (h : Dispatch.invoke .idle
      State.root (.channel ⟨0⟩) "send" [v] .unknown s = .done .nil t) :
      Step ⟨0⟩ ⟨s, waiting⟩ (.sent v) ⟨t, waiting⟩ := .send h
  have offered {v : Value} {s t : State} {waiting : List (Nat × Value)} {ticket : Nat}
      {resume : Answer → State → Run Value} (h : Dispatch.invoke .idle State.root (.channel ⟨0⟩)
      "send" [v] .unknown s = .wait (.offer ⟨0⟩ ticket) t resume) :
      Step ⟨0⟩ ⟨s, waiting⟩ (.offered v) ⟨t, waiting ++ [(ticket, v)]⟩ := .sendWaits h
  have refused {v : Value} {s t : State} {waiting : List (Nat × Value)} {why : Stop}
      (h : Dispatch.invoke .idle State.root (.channel ⟨0⟩) "send" [v] .unknown s = .stop why t) :
      Step ⟨0⟩ ⟨s, waiting⟩ (.refused v) ⟨t, waiting⟩ := .sendFails h
  have full {v : Value} {s t : State} {waiting : List (Nat × Value)} (h : inTurn s
      (Dispatch.invoke .idle State.root (.channel ⟨0⟩) "trySend" [v] .unknown s) =
        .done (.bool false) t) :
      Step ⟨0⟩ ⟨s, waiting⟩ (.full v) ⟨t, waiting⟩ := .tryFull (.inl rfl) h
  have closed {s t : State} {waiting : List (Nat × Value)} (h : Dispatch.invoke .idle State.root
      (.channel ⟨0⟩) "close" [] .unknown s = .done .nil t) :
      Step ⟨0⟩ ⟨s, waiting⟩ .closed ⟨t, waiting⟩ := .close h
  obtain ⟨k, hrun, hwaiting⟩ : ∃ k, Runs (Step ⟨0⟩) ⟨withBuffer, []⟩ [.sent (.int 1),
      .offered (.int 2), .full (.int 3), .received (.int 1), .sent (.int 2), .closed,
      .refused (.int 4)] k ∧ k.waiting = [] :=
    ⟨_, .cons (sent rfl) <| .cons (offered rfl) <| .cons (full rfl) <| .cons (.receive rfl) <|
      .cons (.settled (.head _) rfl) <| .cons (closed rfl) <| .cons (refused rfl) <| .nil _, rfl⟩
  obtain ⟨c, hc, hnothing, hover⟩ := delivers hcap hfresh hrun
  have hclosed := hover (by simp)
  -- what has been accepted is what has been delivered and then the queue
  have horder : [.int 1] ++ [.int 2] = [.int 1] ++ c.queue := hc.in_order
  have hq : c.queue = [.int 2] := (List.append_cancel_left horder).symm
  refine ⟨hcap, hfresh, k, hrun, c, hc.channel, hq, fun more e k' he hmore => ?_⟩
  obtain ⟨k₁, hbefore, -⟩ := Runs.append_iff.mp hmore
  rw [hnothing more e k' he hmore, hq, hclosed.silent hwaiting more k₁ hbefore]
  rfl

end Delivery

end ScriptEngine
