import ScriptEngine.Proofs.Sync.Locks
import ScriptEngine.Proofs.Sync.Runs

/-!
# Readers and writers

A reader/writer lock is used by the methods `lock`, `unlock`, `rLock` and `rUnlock`, and the lock
does not know by whom: a task may unlock what another one has locked, unlock twice, or never. So a
run is any sequence of uses (`Sharing.Step`), each as a program's method makes it, as the scheduler
grants it to a task that waits, or as a condition variable makes it for a task that waits there;
in between, the programs do whatever leaves the lock alone.

What one use does is told by one equation for all four methods (`Sharing.invoke_eq`). From it a step
is seen to change the lock by a use that is granted, and not at all otherwise (`Step.onLock`). The
invariant ties the lock to the uses granted so far (`Sharing.Balanced`), and it is inductive only
together with the exclusion: that no reader is inside while a writer is. What the lock does in every
run follows (`Sharing.exclusion`).
-/

namespace ScriptEngine

/-- The state with another reader/writer lock at a place. -/
def State.withRwLock (s : State) (r : Ref .rwLock) (l : Sync.RwLock) : State :=
  Wait.withSync s fun t => { t with rwLocks := t.rwLocks.set r l }

/-- Where there is a lock, the new one takes its place. -/
theorem State.withRwLock_rwLocks {s : State} {r : Ref .rwLock} {l : Sync.RwLock}
    (h : s.sync.rwLocks.get? r = some l) (l' : Sync.RwLock) :
    (s.withRwLock r l').sync.rwLocks.get? r = some l' :=
  Table.get?_set_of_some h l'

namespace Sharing

/-! ### Uses -/

/-- What a task can do with a reader/writer lock. -/
inductive Use where
  | lock
  | unlock
  | rLock
  | rUnlock
deriving DecidableEq

/-- What comes of a use. -/
inductive Outcome where
  /-- It is granted, and this is the lock after it. -/
  | granted (l : Sync.RwLock)
  | waits (w : Wait)
  | refused (e : Sync.Error)

namespace Use

/-- The name a program uses. -/
def method : Use → String
  | lock => "lock"
  | unlock => "unlock"
  | rLock => "rLock"
  | rUnlock => "rUnlock"

/-- What comes of a use of the lock `l`, which stands at the place `r`. -/
def outcome (r : Ref .rwLock) (l : Sync.RwLock) : Use → Outcome
  | lock =>
    match l.lock? with
    | some l' => .granted l'
    | none => .waits (.write r)
  | unlock =>
    match l.unlock with
    | .ok l' => .granted l'
    | .error e => .refused e
  | rLock =>
    match l.readLock? with
    | some l' => .granted l'
    | none => .waits (.read r)
  | rUnlock =>
    match l.readUnlock with
    | .ok l' => .granted l'
    | .error e => .refused e

end Use

variable {r : Ref .rwLock} {l l' : Sync.RwLock} {s t : State}

/-- A writer is admitted exactly if nobody is inside. -/
theorem outcome_lock_iff : Use.lock.outcome r l = .granted l' ↔ l = .free ∧ l' = ⟨true, 0⟩ := by
  obtain ⟨writer, readers⟩ := l
  cases writer with
  | true => simp [Use.outcome, Sync.RwLock.lock?, Sync.RwLock.free]
  | false =>
    by_cases h : readers = 0
    · subst h
      -- an empty lock takes the writer
      simp [Use.outcome, Sync.RwLock.lock?, Sync.RwLock.free, eq_comm]
    -- readers keep the writer out
    · have hpos : 0 < readers := Nat.pos_of_ne_zero h
      simp [Use.outcome, Sync.RwLock.lock?, Sync.RwLock.free, h, hpos]

/-- Whoever unlocks needs a writer to be inside, and need not be it. -/
theorem outcome_unlock_iff :
    Use.unlock.outcome r l = .granted l' ↔ l.writer = true ∧ l' = ⟨false, l.readers⟩ := by
  obtain ⟨writer, readers⟩ := l
  cases writer <;> simp [Use.outcome, Sync.RwLock.unlock, eq_comm]

/-- A reader is admitted exactly if no writer is inside. -/
theorem outcome_rLock_iff :
    Use.rLock.outcome r l = .granted l' ↔ l.writer = false ∧ l' = ⟨false, l.readers + 1⟩ := by
  obtain ⟨writer, readers⟩ := l
  cases writer <;> simp [Use.outcome, Sync.RwLock.readLock?, eq_comm]

/-- A reader is counted out if one is inside. -/
theorem outcome_rUnlock_iff :
    Use.rUnlock.outcome r l = .granted l' ↔
      0 < l.readers ∧ l' = ⟨l.writer, l.readers - 1⟩ := by
  obtain ⟨writer, readers⟩ := l
  by_cases h : readers = 0
  · subst h
    simp [Use.outcome, Sync.RwLock.readUnlock]
  · have hpos : 0 < readers := Nat.pos_of_ne_zero h
    simp [Use.outcome, Sync.RwLock.readUnlock, h, hpos, eq_comm]

/-- **What a program's use of the lock does.** It is done at once, it waits, or it fails with the
message of its error; only in the first case it changes something, and that is the lock. -/
theorem invoke_eq (hl : s.sync.rwLocks.get? r = some l) (use : Use) (E : Engine)
    (scope : Ref .scope) (span : Span) :
    Dispatch.invoke E scope (.rwLock r) use.method [] span s =
      match use.outcome r l with
      | .granted l' => .done .nil (s.withRwLock r l')
      | .waits w => .wait w s fun _ t => .done .nil t
      | .refused e => .stop (.fault ⟨.general e.message, span⟩) s := by
  -- every method reads the lock first, and goes by what it finds
  have hread : Method.rwLock r s = .done l s := by
    simp only [Method.rwLock, Eval.gets, hl]
    rfl
  cases use with
  | lock =>
    show (do Method.lockWrite r; return .nil : Eval Value) s = _
    rw [Method.lockWrite, Eval.bind_apply, Eval.bind_of_done hread, Use.outcome]
    cases l.lock? <;> rfl
  | unlock =>
    show (Method.rwLock r >>= fun l => Method.stepResult ⟨scope, span, "unlock"⟩ l.unlock fun l => do
      Method.setRwLock r l
      return .nil) s = _
    rw [Eval.bind_of_done hread, Use.outcome]
    cases l.unlock <;> rfl
  | rLock =>
    show (Method.rwLock r >>= fun l => do
      match l.readLock? with
      | some l => Method.setRwLock r l
      | none => discard <| Eval.await (.read r)
      return .nil : Eval Value) s = _
    rw [Eval.bind_of_done hread, Use.outcome]
    cases l.readLock? <;> rfl
  | rUnlock =>
    show (Method.rwLock r >>= fun l =>
      Method.stepResult ⟨scope, span, "rUnlock"⟩ l.readUnlock fun l => do
        Method.setRwLock r l
        return .nil) s = _
    rw [Eval.bind_of_done hread, Use.outcome]
    cases l.readUnlock <;> rfl

/-! ### Ways to be granted -/

section

variable {use : Use} {E : Engine} {scope : Ref .scope} {span : Span}

/-- A use that is done at once has been granted. -/
theorem granted_of_done {v : Value} (hl : s.sync.rwLocks.get? r = some l)
    (h : Dispatch.invoke E scope (.rwLock r) use.method [] span s = .done v t) :
    ∃ l', use.outcome r l = .granted l' ∧ t = s.withRwLock r l' := by
  rw [invoke_eq hl] at h
  cases hout : use.outcome r l with
  | granted l' =>
    rw [hout] at h
    cases h
    exact ⟨l', rfl, rfl⟩
  | waits w =>
    rw [hout] at h
    cases h
  | refused e =>
    rw [hout] at h
    cases h

/-- Who has to wait changes nothing. -/
theorem eq_of_wait {w : Wait} {resume : Answer → State → Run Value}
    (hl : s.sync.rwLocks.get? r = some l)
    (h : Dispatch.invoke E scope (.rwLock r) use.method [] span s = .wait w t resume) : s = t := by
  rw [invoke_eq hl] at h
  cases hout : use.outcome r l <;> rw [hout] at h <;> cases h
  -- only a use that waits gives a run that waits
  rfl

/-- Who is refused changes nothing. -/
theorem eq_of_stop {why : Stop} (hl : s.sync.rwLocks.get? r = some l)
    (h : Dispatch.invoke E scope (.rwLock r) use.method [] span s = .stop why t) : s = t := by
  rw [invoke_eq hl] at h
  cases hout : use.outcome r l <;> rw [hout] at h <;> cases h
  rfl

end

/-- The scheduler admits a writer that waits by the rule of `lock`. -/
theorem poll?_write {a : Answer} (hl : s.sync.rwLocks.get? r = some l)
    (h : (Wait.write r).poll? s = some (a, t)) :
    ∃ l', Use.lock.outcome r l = .granted l' ∧ t = s.withRwLock r l' := by
  -- what the scheduler tries for the task that waits is `lock?` itself
  simp only [Wait.poll?, Wait.grant, hl, Option.bind_some, Option.map_eq_some_iff,
    Prod.mk.injEq] at h
  obtain ⟨l', hlock, -, rfl⟩ := h
  exact ⟨l', by rw [Use.outcome, hlock], rfl⟩

/-- And a reader that waits by the rule of `rLock`. -/
theorem poll?_read {a : Answer} (hl : s.sync.rwLocks.get? r = some l)
    (h : (Wait.read r).poll? s = some (a, t)) :
    ∃ l', Use.rLock.outcome r l = .granted l' ∧ t = s.withRwLock r l' := by
  simp only [Wait.poll?, Wait.grant, hl, Option.bind_some, Option.map_eq_some_iff,
    Prod.mk.injEq] at h
  obtain ⟨l', hlock, -, rfl⟩ := h
  exact ⟨l', by rw [Use.outcome, hlock], rfl⟩

/-- A condition variable over the lock releases it as `unlock` does. -/
theorem releaseLock_ok (hl : s.sync.rwLocks.get? r = some l)
    (h : Method.releaseLock (.rwLock r) s = .done (.ok ()) t) :
    ∃ l', Use.unlock.outcome r l = .granted l' ∧ t = s.withRwLock r l' := by
  simp only [Method.releaseLock, Method.rwLock, Eval.gets_bind_apply, hl, Option.getD_some] at h
  cases hu : l.unlock with
  -- the condition variable unlocks, and hands on an error of it
  | ok l' =>
    rw [hu] at h
    cases h
    exact ⟨l', by rw [Use.outcome, hu], rfl⟩
  | error e =>
    rw [hu] at h
    cases h

/-- And it takes the lock back as `lock` does. -/
theorem retakeLock_done (hl : s.sync.rwLocks.get? r = some l)
    (h : Method.retakeLock (.rwLock r) s = .done () t) :
    ∃ l', Use.lock.outcome r l = .granted l' ∧ t = s.withRwLock r l' := by
  simp only [Method.retakeLock, Method.lockWrite, Method.rwLock, Eval.gets_bind_apply, hl,
    Option.getD_some] at h
  -- the lock is free, for otherwise retaking it would wait
  cases hu : l.lock? with
  | some l' =>
    rw [hu] at h
    cases h
    exact ⟨l', by rw [Use.outcome, hu], rfl⟩
  | none =>
    rw [hu] at h
    cases h

/-! ### Steps -/

/-- What happens while the lock is shared. -/
inductive Event where
  | granted (use : Use)
  | waits (use : Use)
  | refused (use : Use)
  /-- Something that is no matter of this lock. -/
  | elsewhere
deriving DecidableEq

/-- One step on the lock at the place `r`, or elsewhere. -/
inductive Step (r : Ref .rwLock) : State → Event → State → Prop
  | use {s t : State} {use : Use} {E : Engine} {scope : Ref .scope} {span : Span} :
      Dispatch.invoke E scope (.rwLock r) use.method [] span s = .done .nil t →
      Step r s (.granted use) t
  | wait {s t : State} {use : Use} {E : Engine} {scope : Ref .scope} {span : Span} {w : Wait}
      {resume : Answer → State → Run Value} :
      Dispatch.invoke E scope (.rwLock r) use.method [] span s = .wait w t resume →
      Step r s (.waits use) t
  | refuse {s t : State} {use : Use} {E : Engine} {scope : Ref .scope} {span : Span}
      {why : Stop} :
      Dispatch.invoke E scope (.rwLock r) use.method [] span s = .stop why t →
      Step r s (.refused use) t
  /-- A task that waits to write is admitted. -/
  | write {s t : State} :
      (Wait.write r).poll? s = some (.done, t) → Step r s (.granted .lock) t
  /-- A task that waits to read is admitted. -/
  | read {s t : State} :
      (Wait.read r).poll? s = some (.done, t) → Step r s (.granted .rLock) t
  /-- A task begins to wait on a condition variable over the lock. -/
  | release {s t : State} :
      Method.releaseLock (.rwLock r) s = .done (.ok ()) t → Step r s (.granted .unlock) t
  /-- A task ends to wait on a condition variable over the lock. -/
  | retake {s t : State} :
      Method.retakeLock (.rwLock r) s = .done () t → Step r s (.granted .lock) t
  | elsewhere {s t : State} :
      t.sync.rwLocks.get? r = s.sync.rwLocks.get? r → Step r s .elsewhere t

/-- The lock after an event, if the event can happen to it. -/
def Event.OnLock (r : Ref .rwLock) (l l' : Sync.RwLock) : Event → Prop
  | granted use => use.outcome r l = .granted l'
  | _ => l' = l

/-- **What a step does to the lock:** a use that is granted changes it by its rule, and nothing
else changes it. -/
theorem Step.onLock {e : Event} (h : Step r s e t) (hl : s.sync.rwLocks.get? r = some l) :
    ∃ l', t.sync.rwLocks.get? r = some l' ∧ e.OnLock r l l' := by
  -- a granted use puts the new lock where the old one was
  have stored : ∀ {use : Use}, (∃ l', use.outcome r l = .granted l' ∧ t = s.withRwLock r l') →
      ∃ l', t.sync.rwLocks.get? r = some l' ∧ use.outcome r l = .granted l' := by
    rintro use ⟨l', hgranted, rfl⟩
    exact ⟨l', State.withRwLock_rwLocks hl l', hgranted⟩
  cases h with
  | use hrun => exact stored (granted_of_done hl hrun)
  | wait hrun =>
    obtain rfl := eq_of_wait hl hrun
    exact ⟨l, hl, rfl⟩
  | refuse hrun =>
    obtain rfl := eq_of_stop hl hrun
    exact ⟨l, hl, rfl⟩
  | write hpoll => exact stored (poll?_write hl hpoll)
  | read hpoll => exact stored (poll?_read hl hpoll)
  | release hrun => exact stored (releaseLock_ok hl hrun)
  | retake hrun => exact stored (retakeLock_done hl hrun)
  | elsewhere hsame => exact ⟨l, hsame.trans hl, rfl⟩

/-! ### The invariant -/

/-- How often a use has been granted. -/
def grants (use : Use) (events : List Event) : Nat := events.count (.granted use)

/-- One more event counts for its own use only. -/
theorem grants_append (use : Use) (events : List Event) (e : Event) :
    grants use (events ++ [e]) = grants use events + if e = .granted use then 1 else 0 := by
  rw [grants, List.count_append, List.count_singleton]
  simp only [grants, beq_iff_eq]

/-- **The lock balances the uses granted so far,** and no reader is inside while a writer is. -/
structure Balanced (events : List Event) (l : Sync.RwLock) : Prop where
  readers : l.readers + grants .rUnlock events = grants .rLock events
  writer : l.writer.toNat + grants .unlock events = grants .lock events
  exclusive : l.writer = true → l.readers = 0

/-- A free lock has been used equally often in both ways. -/
theorem balanced_free : Balanced [] .free := ⟨rfl, rfl, fun _ => rfl⟩

/-- One more event keeps the balance. The exclusion is what lets the writer's flag balance when a
reader is admitted, and the reader's count when a writer is. -/
theorem Balanced.onLock {events : List Event} {e : Event} (h : Balanced events l)
    (he : e.OnLock r l l') : Balanced (events ++ [e]) l' := by
  obtain ⟨hreaders, hwriter, hexclusive⟩ := h
  -- what is not granted counts for no use
  have unmoved : ∀ {e : Event}, (∀ use, e ≠ .granted use) → Balanced (events ++ [e]) l := by
    intro e hne
    refine ⟨?_, ?_, hexclusive⟩ <;> simp only [grants_append, hne, if_false, Nat.add_zero]
    · exact hreaders
    · exact hwriter
  cases e with
  | granted use =>
    have hgranted : use.outcome r l = .granted l' := he
    cases use with
    -- the lock was free, so nobody was inside
    | lock =>
      obtain ⟨rfl, rfl⟩ := outcome_lock_iff.mp hgranted
      refine ⟨?_, ?_, fun _ => rfl⟩ <;>
        simp [grants_append, Sync.RwLock.free] at hreaders hwriter ⊢ <;> omega
    | unlock =>
      obtain ⟨hw, rfl⟩ := outcome_unlock_iff.mp hgranted
      rw [hw] at hwriter
      refine ⟨?_, ?_, nofun⟩ <;> simp [grants_append] at hreaders hwriter ⊢ <;> omega
    | rLock =>
      obtain ⟨hw, rfl⟩ := outcome_rLock_iff.mp hgranted
      rw [hw] at hwriter
      refine ⟨?_, ?_, nofun⟩ <;> simp [grants_append] at hreaders hwriter ⊢ <;> omega
    -- one reader less, and there was one
    | rUnlock =>
      obtain ⟨hpos, rfl⟩ := outcome_rUnlock_iff.mp hgranted
      -- a reader is inside, so no writer is
      have hw : l.writer = false := by
        cases hw : l.writer with
        | false => rfl
        | true => exact absurd (hexclusive hw) (Nat.ne_of_gt hpos)
      rw [hw] at hwriter ⊢
      refine ⟨?_, ?_, nofun⟩ <;> simp [grants_append] at hreaders hwriter ⊢ <;> omega
  | waits use | refused use | elsewhere =>
    obtain rfl : l' = l := he
    exact unmoved nofun

/-- **Exclusion and balance** on a reader/writer lock, however it is used. After every run from a
free lock:

* the readers inside are as many as uses of `rLock` have been granted more than of `rUnlock`, and a
  writer is inside if and only if `lock` has been granted once more than `unlock`; otherwise they
  have been granted equally often;
* no reader is inside while a writer is;
* the next to be admitted as a writer finds nobody inside, the next reader finds no writer;
* without a writer `unlock` fails, and without a reader `rUnlock` does, and nothing changes. -/
theorem exclusion {events : List Event} (hfree : s.sync.rwLocks.get? r = some .free)
    (h : Runs (Step r) s events t) :
    ∃ l, t.sync.rwLocks.get? r = some l ∧ Balanced events l ∧
      (∀ u, Step r t (.granted .lock) u → l = .free) ∧
      (∀ u, Step r t (.granted .rLock) u → l.writer = false) ∧
      ∀ (E : Engine) (scope : Ref .scope) (span : Span),
        (l.writer = false → Dispatch.invoke E scope (.rwLock r) "unlock" [] span t =
          .stop (.fault ⟨.general "unlock of unlocked mutex", span⟩) t) ∧
        (l.readers = 0 → Dispatch.invoke E scope (.rwLock r) "rUnlock" [] span t =
          .stop (.fault ⟨.general "read unlock of unlocked rwmutex", span⟩) t) := by
  -- the balance is kept by every step, so it holds after the run
  obtain ⟨l, hl, hbalanced⟩ : ∃ l, t.sync.rwLocks.get? r = some l ∧ Balanced events l := by
    refine Runs.history (P := fun past s => ∃ l, s.sync.rwLocks.get? r = some l ∧
      Balanced past l) ?_ h ⟨_, hfree, balanced_free⟩
    rintro past s e t ⟨l, hl, hpast⟩ hstep
    obtain ⟨l', hl', he⟩ := hstep.onLock hl
    exact ⟨l', hl', hpast.onLock he⟩
  refine ⟨l, hl, hbalanced, fun u hu => ?_, fun u hu => ?_, fun E scope span => ⟨?_, ?_⟩⟩
  · obtain ⟨l', -, hgranted⟩ := hu.onLock hl
    exact (outcome_lock_iff.mp hgranted).1
  · obtain ⟨l', -, hgranted⟩ := hu.onLock hl
    exact (outcome_rLock_iff.mp hgranted).1
  -- without a writer `unlock` finds the flag down, and without a reader `rUnlock` the count zero
  · intro hw
    refine (invoke_eq hl .unlock E scope span).trans ?_
    rw [Use.outcome, Sync.RwLock.unlock, hw]
    rfl
  · intro hzero
    refine (invoke_eq hl .rUnlock E scope span).trans ?_
    rw [Use.outcome, Sync.RwLock.readUnlock, if_pos hzero]
    rfl

/-- A host's state with a free lock. -/
def withLock : State :=
  let s := State.initial ⟨.empty, .default, none, .empty, false, 0, 0⟩
  { s with sync := { s.sync with rwLocks := ⟨#[.free]⟩ } }

/-- While a writer waits, one of two readers leaves twice; so the second one is counted out too, and
the writer is admitted. -/
theorem exclusion_withLock :
    withLock.sync.rwLocks.get? ⟨0⟩ = some .free ∧
    ∃ t, Runs (Step ⟨0⟩) withLock [.granted .rLock, .granted .rLock, .waits .lock,
        .refused .unlock, .granted .rUnlock, .granted .rUnlock, .granted .lock] t ∧
      ∃ l, t.sync.rwLocks.get? ⟨0⟩ = some l ∧ l.readers = 0 ∧ l.writer = true := by
  have hfree : withLock.sync.rwLocks.get? ⟨0⟩ = some .free := rfl
  have use {use : Use} {s t : State} (h : Dispatch.invoke .idle State.root (.rwLock ⟨0⟩) use.method
      [] .unknown s = .done .nil t) : Step ⟨0⟩ s (.granted use) t := .use h
  have wait {s t : State} {w : Wait} {resume : Answer → State → Run Value}
      (h : Dispatch.invoke .idle State.root (.rwLock ⟨0⟩) "lock" [] .unknown s = .wait w t resume) :
      Step ⟨0⟩ s (.waits .lock) t := .wait h
  have refuse {s t : State} {why : Stop} (h : Dispatch.invoke .idle State.root (.rwLock ⟨0⟩) "unlock"
      [] .unknown s = .stop why t) : Step ⟨0⟩ s (.refused .unlock) t := .refuse h
  obtain ⟨t, ht⟩ : ∃ t, Runs (Step ⟨0⟩) withLock [.granted .rLock, .granted .rLock, .waits .lock,
      .refused .unlock, .granted .rUnlock, .granted .rUnlock, .granted .lock] t :=
    ⟨_, .cons (use rfl) <| .cons (use rfl) <| .cons (wait rfl) <| .cons (refuse rfl) <|
      .cons (use rfl) <| .cons (use rfl) <| .cons (.write rfl) <| .nil _⟩
  obtain ⟨l, hl, hbalanced, -⟩ := exclusion hfree ht
  refine ⟨hfree, t, ht, l, hl, ?_, ?_⟩
  -- as many readers have left as have come
  · have := hbalanced.readers
    simpa [grants] using this
  -- and one more writer has come than has left
  · have hwriter := hbalanced.writer
    cases hw : l.writer with
    | true => rfl
    | false => simp [grants, hw] at hwriter

end Sharing

end ScriptEngine
