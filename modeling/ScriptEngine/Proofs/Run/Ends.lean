import ScriptEngine.Task.Schedule

/-!
# How the run of a lone task ends

A `Run` is a tree: it is done, it stops, or it waits and goes on with whatever state the
scheduler hands back. While no other task exists, the scheduler serves the wait, moves the
clock and takes over what was spawned, and nothing else (`Idle`). `Run.Ends r o s` follows the
tree along such waits to an end: a value or a fault `o`, and the state `s`. A run that the host
aborts, or that lacks steps, has no end in this sense.

Each way to put runs together has one equation for its ends (`Run.ends_andThen_iff`,
`Run.ends_settle_iff`, `Run.ends_ensuring_iff`); the statements about `Eval` are the same ones
read at a state.

While there are other tasks, more may happen during a wait. `Run.EndsAmid rely r o s` says that `r`
ends in this way when what happens during its waits is in `rely`; the ends of a lone task are those
amid `Idle` (`Run.ends_iff_endsAmid`).
-/

namespace ScriptEngine

/-- What may change while the only task waits. -/
def Idle (s s' : State) : Prop :=
  ∃ sync clock spawned, s' = { s with sync, clock, spawned }

namespace Run

variable {α β γ : Type}

/-- The run of a lone task ends with a value or a fault, in a state. -/
inductive Ends : Run α → Except Fault α → State → Prop
  | done (a : α) (s : State) : Ends (.done a s) (.ok a) s
  | fault (f : Fault) (s : State) : Ends (.stop (.fault f) s) (.error f) s
  | wait {w : Wait} {s s' t : State} {resume : Answer → State → Run α} {answer : Answer}
      {o : Except Fault α} :
      Idle s s' → Ends (resume answer s') o t → Ends (.wait w s resume) o t

/-- The run ends with a value or a fault, in a state, when what happens during its waits is in
`rely`. -/
inductive EndsAmid (rely : State → State → Prop) : Run α → Except Fault α → State → Prop
  | done (a : α) (s : State) : EndsAmid rely (.done a s) (.ok a) s
  | fault (f : Fault) (s : State) : EndsAmid rely (.stop (.fault f) s) (.error f) s
  | wait {w : Wait} {s s' t : State} {resume : Answer → State → Run α} {answer : Answer}
      {o : Except Fault α} :
      rely s s' → EndsAmid rely (resume answer s') o t → EndsAmid rely (.wait w s resume) o t

section EndsAmid

variable {rely : State → State → Prop}

/-- A run that is done has one end, which is there. -/
@[simp] theorem endsAmid_done_iff {a : α} {s t : State} {o : Except Fault α} :
    (Run.done a s).EndsAmid rely o t ↔ o = .ok a ∧ t = s := by
  constructor
  · rintro ⟨⟩
    exact ⟨rfl, rfl⟩
  · rintro ⟨rfl, rfl⟩
    exact .done a t

/-- So does a run that has failed. -/
@[simp] theorem endsAmid_fault_iff {f : Fault} {s t : State} {o : Except Fault α} :
    (Run.stop (.fault f) s : Run α).EndsAmid rely o t ↔ o = .error f ∧ t = s := by
  constructor
  · rintro ⟨⟩
    exact ⟨rfl, rfl⟩
  · rintro ⟨rfl, rfl⟩
    exact .fault f t

/-- A run that the host aborts has no end. -/
@[simp] theorem not_endsAmid_abort {m : String} {s t : State} {o : Except Fault α} :
    ¬ (Run.stop (.abort m) s : Run α).EndsAmid rely o t := nofun

/-- Nor has one that lacks steps. -/
@[simp] theorem not_endsAmid_exhausted {s t : State} {o : Except Fault α} :
    ¬ (Run.stop .exhausted s : Run α).EndsAmid rely o t := nofun

/-- A run that waits ends as it goes on, for some answer and some state that may come. -/
theorem endsAmid_wait_iff {w : Wait} {s t : State} {resume : Answer → State → Run α}
    {o : Except Fault α} :
    (Run.wait w s resume).EndsAmid rely o t ↔
      ∃ a s', rely s s' ∧ (resume a s').EndsAmid rely o t := by
  constructor
  · rintro ⟨⟩
    exact ⟨_, _, ‹_›, ‹_›⟩
  · rintro ⟨a, s', h, h'⟩
    exact .wait h h'

/-- A sequence ends where its second part ends, or fails with its first part. -/
theorem endsAmid_andThen_iff {r : Run α} {f : α → State → Run β} {o : Except Fault β}
    {t : State} :
    (r.andThen f).EndsAmid rely o t ↔
      (∃ a s, r.EndsAmid rely (.ok a) s ∧ (f a s).EndsAmid rely o t) ∨
        ∃ e, o = .error e ∧ r.EndsAmid rely (.error e) t := by
  -- on the run of the first part: it is done, it stops, or it waits
  induction r with
  | done a s => simp [andThen, and_assoc]
  | stop why s =>
    cases why with
    -- a fault of the first part is the end of the whole
    | fault e =>
      constructor
      · intro h
        obtain ⟨rfl, rfl⟩ := endsAmid_fault_iff.mp h
        exact .inr ⟨e, rfl, .fault e t⟩
      · rintro (⟨a, s', h, -⟩ | ⟨e', rfl, h⟩)
        · exact nomatch h
        · obtain ⟨he, rfl⟩ := endsAmid_fault_iff.mp h
          cases he
          exact .fault e t
    | abort m => simp [andThen]
    | exhausted => simp [andThen]
  | wait w s resume ih =>
    -- waits of the first part are waits of the whole, with the same answers
    simp only [andThen, endsAmid_wait_iff, ih]
    constructor
    · rintro ⟨a, s', hs, ⟨b, s'', hb, hf⟩ | ⟨e, ho, he⟩⟩
      · exact .inl ⟨b, s'', ⟨a, s', hs, hb⟩, hf⟩
      · exact .inr ⟨e, ho, a, s', hs, he⟩
    · rintro (⟨b, s'', ⟨a, s', hs, hb⟩, hf⟩ | ⟨e, ho, a, s', hs, he⟩)
      · exact ⟨a, s', hs, .inl ⟨b, s'', hb, hf⟩⟩
      · exact ⟨a, s', hs, .inr ⟨e, ho, he⟩⟩

end EndsAmid

/-- The ends of a lone task. -/
theorem ends_iff_endsAmid {r : Run α} {o : Except Fault α} {t : State} :
    r.Ends o t ↔ r.EndsAmid Idle o t := by
  -- both ways on the end: the two relations have the same constructors
  constructor
  · intro h
    induction h with
    | done a s => exact .done a s
    | fault f s => exact .fault f s
    | wait hidle _ ih => exact .wait hidle ih
  · intro h
    induction h with
    | done a s => exact .done a s
    | fault f s => exact .fault f s
    | wait hidle _ ih => exact .wait hidle ih

/-- The same for a lone task: a run that is done has one end. -/
@[simp] theorem ends_done_iff {a : α} {s t : State} {o : Except Fault α} :
    (Run.done a s).Ends o t ↔ o = .ok a ∧ t = s := by
  constructor
  · rintro ⟨⟩
    exact ⟨rfl, rfl⟩
  · rintro ⟨rfl, rfl⟩
    exact .done a t

/-- So does a run that has failed. -/
@[simp] theorem ends_fault_iff {f : Fault} {s t : State} {o : Except Fault α} :
    (Run.stop (.fault f) s : Run α).Ends o t ↔ o = .error f ∧ t = s := by
  constructor
  · rintro ⟨⟩
    exact ⟨rfl, rfl⟩
  · rintro ⟨rfl, rfl⟩
    exact .fault f t

@[simp] theorem not_ends_abort {m : String} {s t : State} {o : Except Fault α} :
    ¬ (Run.stop (.abort m) s : Run α).Ends o t := nofun

@[simp] theorem not_ends_exhausted {s t : State} {o : Except Fault α} :
    ¬ (Run.stop .exhausted s : Run α).Ends o t := nofun

/-- A run that waits ends as it goes on, for some answer. -/
theorem ends_wait_iff {w : Wait} {s t : State} {resume : Answer → State → Run α}
    {o : Except Fault α} :
    (Run.wait w s resume).Ends o t ↔ ∃ a s', Idle s s' ∧ (resume a s').Ends o t := by
  constructor
  · rintro ⟨⟩
    exact ⟨_, _, ‹_›, ‹_›⟩
  · rintro ⟨a, s', h, h'⟩
    exact .wait h h'

/-- A sequence ends where its second part ends, or fails with its first part. -/
theorem ends_andThen_iff {r : Run α} {f : α → State → Run β} {o : Except Fault β} {t : State} :
    (r.andThen f).Ends o t ↔
      (∃ a s, r.Ends (.ok a) s ∧ (f a s).Ends o t) ∨ ∃ e, o = .error e ∧ r.Ends (.error e) t := by
  simp only [ends_iff_endsAmid]
  exact endsAmid_andThen_iff

/-- What follows an attempt goes on from every end of it, also from a fault. -/
theorem ends_settle_iff {r : Run α} {f : Except Fault α → State → Run β} {o : Except Fault β}
    {t : State} : (r.settle f).Ends o t ↔ ∃ x s, r.Ends x s ∧ (f x s).Ends o t := by
  induction r with
  | done a s => simp [settle, and_assoc]
  | stop why s =>
    cases why with
    | fault e => simp [settle, and_assoc]
    | abort m => simp [settle]
    | exhausted => simp [settle]
  -- waits of the attempt are waits of the whole
  | wait w s resume ih =>
    simp only [settle, ends_wait_iff, ih]
    constructor
    · rintro ⟨a, s', hs, x, s'', hx, hf⟩
      exact ⟨x, s'', ⟨a, s', hs, hx⟩, hf⟩
    · rintro ⟨x, s'', ⟨a, s', hs, hx⟩, hf⟩
      exact ⟨a, s', hs, x, s'', hx, hf⟩

/-- What is ensured happens at every end. -/
theorem ends_ensuring_iff {r : Run α} {f : State → State} {o : Except Fault α} {t : State} :
    (r.ensuring f).Ends o t ↔ ∃ s, r.Ends o s ∧ t = f s := by
  induction r with
  | done a s => simp [ensuring, and_assoc]
  | stop why s =>
    cases why with
    | fault e => simp [ensuring, and_assoc]
    | abort m => simp [ensuring]
    | exhausted => simp [ensuring]
  | wait w s resume ih =>
    -- and at no wait
    simp only [ensuring, ends_wait_iff, ih]
    constructor
    · rintro ⟨a, s', hs, s'', hr, ht⟩
      exact ⟨s'', ⟨a, s', hs, hr⟩, ht⟩
    · rintro ⟨s'', ⟨a, s', hs, hr⟩, ht⟩
      exact ⟨a, s', hs, s'', hr, ht⟩

/-- Sequences can be read from either side. -/
theorem andThen_assoc (r : Run α) (f : α → State → Run β) (g : β → State → Run γ) :
    (r.andThen f).andThen g = r.andThen fun a s => (f a s).andThen g := by
  induction r with
  | done a s => rfl
  | stop why s => rfl
  -- under a wait both sides are functions, which agree for every answer
  | wait w s resume ih =>
    simp only [andThen]
    congr 1
    funext a s
    exact ih a s

/-- What follows an attempt can be taken for a part of it. -/
theorem settle_andThen (r : Run α) (f : Except Fault α → State → Run β)
    (g : β → State → Run γ) :
    (r.settle f).andThen g = r.settle fun a s => (f a s).andThen g := by
  induction r with
  | done a s => rfl
  | stop why s => cases why <;> rfl
  | wait w s resume ih =>
    simp only [settle, andThen]
    congr 1
    funext a s
    exact ih a s

end Run

namespace Eval

variable {α β γ : Type}

/-- A step that is done at once hands its value to what follows. -/
theorem bind_of_done {m : Eval α} {s t : State} {a : α} (h : m s = .done a t) (f : α → Eval β) :
    (m >>= f) s = f a t := by
  rw [bind_apply, h]
  rfl

/-- Sequences of computations can be read from either side. -/
theorem bind_assoc (m : Eval α) (f : α → Eval β) (g : β → Eval γ) :
    (m >>= f) >>= g = m >>= fun a => f a >>= g := by
  funext s
  have hrest : (fun a => f a >>= g) = fun a s => (f a s).andThen g :=
    funext fun a => funext (bind_apply (f a) g)
  rw [bind_apply, bind_apply, bind_apply, hrest]
  exact Run.andThen_assoc (m s) f g

/-- A sequence that is done at once has done its parts at once. -/
theorem exists_of_bind_eq_done {m : Eval α} {f : α → Eval β} {b : β} {s t : State}
    (h : (m >>= f) s = .done b t) : ∃ a u, m s = .done a u ∧ f a u = .done b t := by
  rw [bind_apply] at h
  cases hm : m s with
  | done a u =>
    rw [hm] at h
    exact ⟨a, u, rfl, h⟩
  | stop why u =>
    rw [hm] at h
    exact nomatch h
  | wait w u resume =>
    rw [hm] at h
    exact nomatch h

/-- What stops is not followed by anything. -/
theorem bind_of_stop {m : Eval α} {s t : State} {why : Stop} (h : m s = .stop why t)
    (f : α → Eval β) : (m >>= f) s = .stop why t := by
  rw [bind_apply, h]
  rfl

/-- A read is followed by the rest in the same state. -/
theorem gets_bind_apply (g : State → α) (f : α → Eval β) (s : State) :
    (gets g >>= f) s = f (g s) s := rfl

/-- A change is followed by the rest in the new state. -/
theorem modify_bind_apply (g : State → State) (f : Unit → Eval β) (s : State) :
    (modify g >>= f) s = f () (g s) := rfl

/-- A change with an answer is followed by the rest in the new state. -/
theorem modifyGet_bind_apply (g : State → α × State) (f : α → Eval β) (s : State) :
    (modifyGet g >>= f) s = f (g s).1 (g s).2 := rfl

/-- A sequence ends where its second part ends, or fails with its first part. -/
theorem endsAmid_bind_iff {rely : State → State → Prop} {m : Eval α} {f : α → Eval β}
    {s t : State} {o : Except Fault β} :
    ((m >>= f) s).EndsAmid rely o t ↔
      (∃ a s', (m s).EndsAmid rely (.ok a) s' ∧ (f a s').EndsAmid rely o t) ∨
        ∃ e, o = .error e ∧ (m s).EndsAmid rely (.error e) t := by
  rw [bind_apply]
  exact Run.endsAmid_andThen_iff

/-- The same for a lone task. -/
theorem ends_bind_iff {m : Eval α} {f : α → Eval β} {s t : State} {o : Except Fault β} :
    ((m >>= f) s).Ends o t ↔
      (∃ a s', (m s).Ends (.ok a) s' ∧ (f a s').Ends o t) ∨
        ∃ e, o = .error e ∧ (m s).Ends (.error e) t := by
  rw [bind_apply]
  exact Run.ends_andThen_iff

/-- A sequence that ends well consists of steps that do. -/
theorem ends_ok_bind_iff {m : Eval α} {f : α → Eval β} {s t : State} {b : β} :
    ((m >>= f) s).Ends (.ok b) t ↔ ∃ a s', (m s).Ends (.ok a) s' ∧ (f a s').Ends (.ok b) t := by
  rw [ends_bind_iff]
  constructor
  · rintro (h | ⟨e, he, -⟩)
    · exact h
    · cases he
  · exact .inl

/-- An attempt settles a fault as a value, and lets all other stops through. -/
theorem attempt_apply (m : Eval α) (s : State) :
    attempt m s = (m s).settle fun r s => .done r s := by
  unfold attempt
  cases m s with
  | stop why s => cases why <;> rfl
  | _ => rfl

/-- What follows an attempt settles it. -/
theorem attempt_bind_apply (m : Eval α) (f : Except Fault α → Eval β) (s : State) :
    (attempt m >>= f) s = (m s).settle fun r t => f r t := by
  rw [bind_apply, attempt_apply]
  exact Run.settle_andThen (m s) _ f

/-- An attempt ends well whenever what it attempts ends at all. -/
theorem ends_attempt_iff {m : Eval α} {s t : State} {o : Except Fault (Except Fault α)} :
    (attempt m s).Ends o t ↔ ∃ r, o = .ok r ∧ (m s).Ends r t := by
  rw [attempt_apply, Run.ends_settle_iff]
  constructor
  · rintro ⟨r, s', hr, ho⟩
    obtain ⟨rfl, rfl⟩ := Run.ends_done_iff.mp ho
    exact ⟨r, rfl, hr⟩
  · rintro ⟨r, rfl, hr⟩
    exact ⟨r, t, hr, .done r t⟩

@[simp] theorem ends_pure_iff {a : α} {s t : State} {o : Except Fault α} :
    ((pure a : Eval α) s).Ends o t ↔ o = .ok a ∧ t = s :=
  Run.ends_done_iff

@[simp] theorem ends_conclude_iff {r : Except Fault α} {s t : State} {o : Except Fault α} :
    (conclude r s).Ends o t ↔ o = r ∧ t = s := by
  cases r with
  | ok a => exact Run.ends_done_iff
  | error f => exact Run.ends_fault_iff

@[simp] theorem ends_raise_iff {f : Fault} {s t : State} {o : Except Fault α} :
    ((raise f : Eval α) s).Ends o t ↔ o = .error f ∧ t = s :=
  Run.ends_fault_iff

@[simp] theorem ends_fail_iff {c : Cause} {span : Span} {s t : State} {o : Except Fault α} :
    ((fail c span : Eval α) s).Ends o t ↔ o = .error ⟨c, span⟩ ∧ t = s :=
  Run.ends_fault_iff

@[simp] theorem ends_gets_iff {f : State → α} {s t : State} {o : Except Fault α} :
    (gets f s).Ends o t ↔ o = .ok (f s) ∧ t = s :=
  Run.ends_done_iff

@[simp] theorem ends_modify_iff {f : State → State} {s t : State} {o : Except Fault Unit} :
    (modify f s).Ends o t ↔ o = .ok () ∧ t = f s :=
  Run.ends_done_iff

@[simp] theorem ends_modifyGet_iff {f : State → α × State} {s t : State} {o : Except Fault α} :
    (modifyGet f s).Ends o t ↔ o = .ok (f s).1 ∧ t = (f s).2 :=
  Run.ends_done_iff

/-- What is ensured happens at every end. -/
theorem ends_ensuring_iff {m : Eval α} {f : State → State} {s t : State} {o : Except Fault α} :
    (ensuring m f s).Ends o t ↔ ∃ s', (m s).Ends o s' ∧ t = f s' :=
  Run.ends_ensuring_iff

end Eval

/-! ### Waits of a lone task -/

/-- Nothing may happen. -/
theorem Idle.refl (s : State) : Idle s s := ⟨s.sync, s.clock, s.spawned, rfl⟩

/-- What may happen twice may happen once. -/
theorem Idle.trans {s s' s'' : State} (h : Idle s s') (h' : Idle s' s'') : Idle s s'' := by
  obtain ⟨_, _, _, rfl⟩ := h
  obtain ⟨sync, clock, spawned, rfl⟩ := h'
  exact ⟨sync, clock, spawned, rfl⟩

/-- Serving a wait changes the tables of what tasks synchronise with, and nothing else. -/
theorem Wait.exists_sync_of_poll? {w : Wait} {s s' : State} {a : Answer}
    (h : w.poll? s = some (a, s')) : ∃ sync, s' = { s with sync } := by
  have grant : ∀ {α : Type} (o : Option α) (f : α → SyncTables → SyncTables),
      Wait.grant o (fun a => withSync s (f a)) = some (a, s') → ∃ sync, s' = { s with sync } := by
    intro α o f h
    obtain ⟨b, -, hb⟩ := Option.map_eq_some_iff.mp h
    obtain ⟨-, rfl⟩ := Prod.mk.inj hb
    exact ⟨_, rfl⟩
  -- one goal for each wait: most put back what they are granted, and nothing else
  cases w with
  | mutex r => exact grant _ (fun m t => { t with mutexes := t.mutexes.set r m }) h
  | write r => exact grant _ (fun l t => { t with rwLocks := t.rwLocks.set r l }) h
  | read r => exact grant _ (fun l t => { t with rwLocks := t.rwLocks.set r l }) h
  | wakeup r => exact grant _ (fun c t => { t with conds := t.conds.set r c }) h
  | turn =>
    obtain ⟨-, rfl⟩ := Prod.mk.inj (Option.some.inj h)
    exact ⟨s.sync, rfl⟩
  | gate r | receive r | chunk r =>
    obtain ⟨b, -, hb⟩ := Option.map_eq_some_iff.mp h
    obtain ⟨-, rfl⟩ := Prod.mk.inj hb
    exact ⟨_, rfl⟩
  | offer r ticket =>
    obtain ⟨⟨result, c⟩, -, hb⟩ := Option.map_eq_some_iff.mp h
    cases result <;> obtain ⟨-, rfl⟩ := Prod.mk.inj hb <;> exact ⟨_, rfl⟩
  -- these only look
  | zero r | chunkTaken r ticket | clock time =>
    have hs : s' = s := by
      simp only [poll?] at h
      grind
    exact ⟨s.sync, hs⟩

/-- So serving a wait is among what may happen while the only task waits. -/
theorem Wait.idle_of_poll? {w : Wait} {s s' : State} {a : Answer}
    (h : w.poll? s = some (a, s')) : Idle s s' := by
  obtain ⟨sync, rfl⟩ := exists_sync_of_poll? h
  exact ⟨sync, s.clock, s.spawned, rfl⟩

/-- The run hands nothing to other tasks, wherever it waits. -/
inductive Run.Lone {α : Type} : Run α → Prop
  | done (a : α) (s : State) : Lone (.done a s)
  | stop (why : Stop) (s : State) : Lone (.stop why s)
  | wait {w : Wait} {s : State} {resume : Answer → State → Run α} :
      s.spawned = [] → (∀ a s', s'.spawned = [] → Lone (resume a s')) → Lone (.wait w s resume)

/-- A run that does not wait leaves no turn to other tasks. -/
theorem Run.Lone.of_rest {r : Run Value} (h : (Schedule.rest r).1.isNone = true) : r.Lone := by
  cases r with
  | done v s => exact .done v s
  | stop why s => exact .stop why s
  | wait w s resume => exact nomatch h

/-- The run fails at once with that code at that place, and nothing has changed. -/
def Run.Refused {α : Type} (r : Run α) (code : String) (span : Span) (s : State) : Prop :=
  ∃ cause : Cause, cause.code = code ∧ r = .stop (.fault ⟨cause, span⟩) s

end ScriptEngine
