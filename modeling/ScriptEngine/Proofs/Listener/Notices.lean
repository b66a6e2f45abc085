import ScriptEngine.Proofs.Run.Course
import ScriptEngine.Proofs.Sync.Runs

/-!
# What a listener is told of calls

A listener hears of each call twice: once its frame has been pushed, and when it is over. In between
the body runs, the frame comes down, and the calls that it has deferred are made, so a call can be
open without a frame. `Listener.Tells` has the steps in which a lone task goes on, with what the
listener is told in each: a call opens with a frame on top, the innermost open call lowers its
frame, and without a frame it returns; nothing else moves frames.

Two invariants follow from the steps. The frames of the task are those of the open calls that are
up, on top of what was there before (`Listener.frames_eq`). And an open call is as deep as the
frames below it are many, and its own (`Listener.Deep`). So whatever the steps lead to, the notices
are nested, and their depths are within the bounds (`Listener.reported`).
-/

namespace ScriptEngine.Listener

/-! ### Steps -/

/-- A call that the listener has heard of, and not yet that it is over. -/
structure OpenCall where
  info : CallInfo
  /-- Its frame is on the stack. -/
  up : Bool

/-- A state, and the calls that are open there, the innermost in front. -/
structure Config where
  state : State
  opened : List OpenCall

/-- The frames of a task, as far as the listener hears of them. -/
def framesOf (task : Nat) (s : State) : List (String × Span) :=
  (s.stack.ofTask task).map fun f => (f.function, f.callSpan)

/-- The frames of open calls. -/
def upFrames (opened : List OpenCall) : List (String × Span) :=
  (opened.filter (·.up)).map fun c => (c.info.function, c.info.span)

/-- The frames of a task stay, and the listener hears nothing. -/
structure Quiet (task : Nat) (s t : State) : Prop where
  others : Others (· = task) s t
  frames_eq : framesOf task t = framesOf task s
  events_eq : t.events = s.events
  listening_eq : t.listening = s.listening

/-- What the listener is told of a call whose frame is about to be pushed. -/
def infoOf (f : Frame) (s : State) : CallInfo :=
  ⟨f.function, f.callSpan, s.stack.depth f.task + 1⟩

/-- A step of a lone task, and what the listener is told in it. -/
inductive Tells (task : Nat) : Config → Option Notice → Config → Prop
  | quiet {s t : State} {opened : List OpenCall} :
      Quiet task s t → Tells task ⟨s, opened⟩ none ⟨t, opened⟩
  | statement {s : State} {opened : List OpenCall} (line : Nat) :
      Tells task ⟨s, opened⟩ (some (.statement line)) ⟨s.notified (.statement line), opened⟩
  /-- A frame is pushed, and the listener is told so. -/
  | call {s : State} {opened : List OpenCall} {f : Frame} :
      f.task = task → s.stack.depth task < Function.maxDepth →
      Tells task ⟨s, opened⟩ (some (.call (infoOf f s))) ⟨s.entered f, ⟨infoOf f s, true⟩ :: opened⟩
  /-- The innermost open call takes its frame down. -/
  | lower {s : State} {opened : List OpenCall} {c : CallInfo} {f : Frame} {k : CallStack} :
      s.stack.pop task = some (f, k) → f.function = c.function → f.callSpan = c.span →
      Tells task ⟨s, ⟨c, true⟩ :: opened⟩ none ⟨{ s with stack := k }, ⟨c, false⟩ :: opened⟩
  /-- It is over. -/
  | finish {s : State} {opened : List OpenCall} {c : CallInfo} :
      Tells task ⟨s, ⟨c, false⟩ :: opened⟩ (some (.return c)) ⟨s.notified (.return c), opened⟩

/-- What the listener is told in some steps. -/
def told (steps : List (Option Notice)) : List Notice := steps.filterMap id

/-- The steps of a lone task lead from one configuration to the other. -/
def Leads (task : Nat) (k k' : Config) : Prop := ∃ steps, Runs (Tells task) k steps k'

variable {task : Nat} {k k' : Config} {s t : State} {opened : List OpenCall} {n : Option Notice}
  {steps more : List (Option Notice)}

/-- What is told in one stretch after the other. -/
theorem told_append : told (steps ++ more) = told steps ++ told more := List.filterMap_append

namespace Leads

/-- No step at all. -/
theorem refl (k : Config) : Leads task k k := ⟨[], .nil k⟩

/-- One step. -/
theorem single (h : Tells task k n k') : Leads task k k' := ⟨[n], .cons h (.nil _)⟩

/-- One stretch after the other. -/
theorem trans {l : Config} (h : Leads task k l) (h' : Leads task l k') : Leads task k k' := by
  obtain ⟨steps, hsteps⟩ := h
  obtain ⟨more, hmore⟩ := h'
  exact ⟨steps ++ more, Runs.append_iff.mpr ⟨l, hsteps, hmore⟩⟩

end Leads

/-- A quiet step, whatever is open. -/
theorem Quiet.leads (h : Quiet task s t) : Leads task ⟨s, opened⟩ ⟨t, opened⟩ := .single (.quiet h)

/-- What is open further out makes no difference. -/
theorem Tells.under (h : Tells task k n k') (outer : List OpenCall) :
    Tells task ⟨k.state, k.opened ++ outer⟩ n ⟨k'.state, k'.opened ++ outer⟩ := by
  cases h with
  | quiet hquiet => exact .quiet hquiet
  | statement line => exact .statement line
  | call htask hdepth => exact .call htask hdepth
  | lower hpop hfunction hspan => exact .lower hpop hfunction hspan
  | finish => exact .finish

/-- So is it for several steps. -/
theorem Leads.under (h : Leads task k k') (outer : List OpenCall) :
    Leads task ⟨k.state, k.opened ++ outer⟩ ⟨k'.state, k'.opened ++ outer⟩ := by
  obtain ⟨steps, hsteps⟩ := h
  refine ⟨steps, ?_⟩
  induction hsteps with
  | nil => exact .nil _
  | cons hstep _ ih => exact .cons (hstep.under outer) ih

/-- A step of a lone task is one of another for every other task. -/
theorem Tells.others (h : Tells task k n k') : Others (· = task) k.state k'.state := by
  -- a notice is recorded, which is no matter of other tasks
  have notified : ∀ (s : State) (e : Notice), Others (· = task) s (s.notified e) := by
    intro s e
    unfold State.notified
    split <;> exact .of_extends (.refl _) rfl
  cases h with
  | quiet hquiet => exact hquiet.others
  | statement | finish => exact notified _ _
  | @call s _ f =>
    -- the frame that is pushed is one of the task itself
    have hpush : Others (· = task) s { s with stack := s.stack.push f } := .of_extends (.refl _) rfl
    exact hpush.trans (notified _ _)
  | lower => exact .of_extends (.refl _) rfl

/-- So are several steps. -/
theorem Leads.others (h : Leads task k k') : Others (· = task) k.state k'.state := by
  obtain ⟨steps, hsteps⟩ := h
  induction hsteps with
  | nil => exact .refl _
  | cons hstep _ ih => exact hstep.others.trans ih

/-! ### Frames -/

/-- The depth of a task is the number of its frames. -/
theorem depth_eq (task : Nat) (s : State) : s.stack.depth task = (framesOf task s).length := by
  simp [framesOf, CallStack.depth]

/-- A notice leaves frames alone. -/
@[simp] theorem framesOf_notified (s : State) (e : Notice) :
    framesOf task (s.notified e) = framesOf task s := by
  simp [framesOf]

/-- A frame that is pushed is on top. -/
theorem framesOf_entered {f : Frame} (hf : f.task = task) (s : State) :
    framesOf task (s.entered f) = (f.function, f.callSpan) :: framesOf task s := by
  subst hf
  simp [framesOf]

/-- The frame that comes down was on top. -/
theorem framesOf_of_pop {f : Frame} {c : CallStack} (h : s.stack.pop task = some (f, c)) :
    framesOf task s = (f.function, f.callSpan) :: framesOf task { s with stack := c } := by
  rw [framesOf, CallStack.ofTask_of_pop h]
  rfl

/-- Every open call is as deep as the frames are many that were below it when it began, with its
own. -/
def Deep (below : Nat) : List OpenCall → Prop
  | [] => True
  | c :: outer => c.info.depth = below + (upFrames outer).length + 1 ∧ Deep below outer

/-- The frames of the task are those of the open calls that are up, on top of others. -/
structure Stacked (task : Nat) (base : List (String × Span)) (k : Config) : Prop where
  frames_eq : framesOf task k.state = upFrames k.opened ++ base
  deep : Deep base.length k.opened

/-- At first nothing is open, and all frames are from before. -/
theorem stacked_start (task : Nat) (s : State) : Stacked task (framesOf task s) ⟨s, []⟩ :=
  ⟨rfl, trivial⟩

/-- **A step keeps the frames those of the open calls,** and these as deep as they were told to be. -/
theorem Stacked.step {base : List (String × Span)} (hk : Stacked task base k)
    (h : Tells task k n k') : Stacked task base k' := by
  obtain ⟨hframes, hdeep⟩ := hk
  cases h with
  | quiet hquiet => exact ⟨hquiet.frames_eq.trans hframes, hdeep⟩
  | statement line => exact ⟨(framesOf_notified _ _).trans hframes, hdeep⟩
  | @call s opened f htask hdepth =>
    refine ⟨?_, ?_, hdeep⟩
    · exact (framesOf_entered htask s).trans (congrArg _ hframes)
    · -- what is on the stack when the frame is pushed is below it
      show s.stack.depth f.task + 1 = _
      have hframes : framesOf task s = upFrames opened ++ base := hframes
      rw [htask, depth_eq, hframes, List.length_append, Nat.add_comm (upFrames opened).length]
  | lower hpop hfunction hspan =>
    -- the frame that comes down is the topmost, and the innermost open call has it
    have htop := (framesOf_of_pop hpop).symm.trans hframes
    exact ⟨(List.cons.inj htop).2, hdeep⟩
  | finish => exact ⟨(framesOf_notified _ _).trans hframes, hdeep.2⟩

/-- So do several steps. -/
theorem Stacked.leads {base : List (String × Span)} (hk : Stacked task base k)
    (h : Leads task k k') : Stacked task base k' := by
  obtain ⟨steps, hsteps⟩ := h
  exact Runs.invariant Stacked.step hsteps hk

/-- **The frames of a task are those of its open calls,** on top of what was there before. -/
theorem frames_eq (h : Leads task ⟨s, []⟩ ⟨t, opened⟩) :
    framesOf task t = upFrames opened ++ framesOf task s :=
  ((stacked_start task s).leads h).frames_eq

/-- A task never has more frames than calls are allowed. -/
theorem depth_le (hk : k.state.stack.depth task ≤ Function.maxDepth) (h : Leads task k k') :
    k'.state.stack.depth task ≤ Function.maxDepth := by
  obtain ⟨steps, hsteps⟩ := h
  -- by induction on the steps: only a call pushes, and it has looked at the depth before
  refine Runs.invariant (P := fun k => k.state.stack.depth task ≤ Function.maxDepth) ?_ hsteps hk
  intro k n k' hk hstep
  rw [depth_eq] at hk ⊢
  cases hstep with
  | quiet hquiet => rwa [hquiet.frames_eq]
  | statement line => rwa [framesOf_notified]
  | call htask hdepth =>
    rw [framesOf_entered htask, List.length_cons, ← depth_eq]
    exact hdepth
  | lower hpop =>
    rw [framesOf_of_pop hpop, List.length_cons] at hk
    exact Nat.le_of_succ_le hk
  | finish => rwa [framesOf_notified]

/-! ### Notices -/

/-- Goes through notices, the calls in `opened` being open at first: the calls that are open at the
end, the innermost in front, unless some call returns that is not the innermost one. -/
def unreturned? : List CallInfo → List Notice → Option (List CallInfo)
  | opened, [] => some opened
  | opened, .statement _ :: rest => unreturned? opened rest
  | opened, .call c :: rest => unreturned? (c :: opened) rest
  | c :: opened, .return c' :: rest => if c' = c then unreturned? opened rest else none
  | [], .return _ :: _ => none

/-- Notices can be gone through in two parts. -/
theorem unreturned?_append (opened : List CallInfo) (xs ys : List Notice) :
    unreturned? opened (xs ++ ys) = (unreturned? opened xs).bind (unreturned? · ys) := by
  induction xs generalizing opened with
  | nil => rfl
  | cons e rest ih =>
    cases e with
    | statement line => exact ih opened
    | call c => exact ih (c :: opened)
    -- a return closes the innermost call, if there is one and it is this one
    | «return» c =>
      cases opened with
      | nil => rfl
      | cons c' opened =>
        simp only [List.cons_append, unreturned?]
        split
        · exact ih opened
        · rfl

/-- **The notices are nested,** and leave open what is open. -/
theorem nested (h : Runs (Tells task) k steps k') :
    unreturned? (k.opened.map (·.info)) (told steps) = some (k'.opened.map (·.info)) := by
  -- by induction on the steps, with what has been told so far
  refine Runs.history (P := fun past k₁ => unreturned? (k.opened.map (·.info)) (told past) =
    some (k₁.opened.map (·.info))) ?_ h rfl
  intro past k₁ n k₂ hpast hstep
  rw [told_append, unreturned?_append, hpast, Option.bind_some]
  cases hstep with
  | quiet | statement | call | lower => rfl
  | finish => exact if_pos rfl

/-- The depth that a call is told with is within the bounds. -/
def Bounded : Notice → Prop
  | .statement _ => True
  | .call c | .return c => 1 ≤ c.depth ∧ c.depth ≤ Function.maxDepth

/-- **What is told is within the bounds.** -/
theorem bounded (h : Runs (Tells task) k steps k') (hk : ∀ c ∈ k.opened, Bounded (.call c.info)) :
    ∀ e ∈ told steps, Bounded e := by
  -- a call that returns is one that was open, so its depth has been told before
  have hall : (∀ c ∈ k'.opened, Bounded (.call c.info)) ∧ ∀ e ∈ told steps, Bounded e := by
    refine Runs.history (P := fun past k => (∀ c ∈ k.opened, Bounded (.call c.info)) ∧
      ∀ e ∈ told past, Bounded e) ?_ h ⟨hk, nofun⟩
    rintro past k n k' ⟨hopened, hpast⟩ hstep
    rw [told_append, List.forall_mem_append]
    cases hstep with
    | quiet => exact ⟨hopened, hpast, nofun⟩
    | statement line => exact ⟨hopened, hpast, List.forall_mem_singleton.mpr trivial⟩
    | call htask hdepth =>
      -- the frame is pushed below the limit, so the new depth is within it
      have hnew : Bounded (.call (infoOf _ _)) := ⟨Nat.succ_pos _, htask ▸ hdepth⟩
      exact ⟨List.forall_mem_cons.mpr ⟨hnew, hopened⟩, hpast, List.forall_mem_singleton.mpr hnew⟩
    | lower => exact ⟨List.forall_mem_cons.mpr (List.forall_mem_cons.mp hopened), hpast, nofun⟩
    | finish =>
      obtain ⟨hc, hopened⟩ := List.forall_mem_cons.mp hopened
      exact ⟨hopened, hpast, List.forall_mem_singleton.mpr hc⟩
  exact hall.2

/-- With a listener, what it is told is recorded, the latest in front. -/
theorem recorded (h : Runs (Tells task) k steps k') (hk : k.state.listening = true) :
    k'.state.listening = true ∧ k'.state.events = (told steps).reverse ++ k.state.events := by
  -- a notice is put in front of those recorded so far
  have notified : ∀ {s : State} {e : Notice}, s.listening = true →
      (s.notified e).listening = true ∧ (s.notified e).events = e :: s.events := by
    intro s e hs
    rw [State.notified, if_pos hs]
    exact ⟨hs, rfl⟩
  refine Runs.history (P := fun past k₁ => k₁.state.listening = true ∧
    k₁.state.events = (told past).reverse ++ k.state.events) ?_ h ⟨hk, rfl⟩
  rintro past k₁ n k₂ ⟨hlistening, hevents⟩ hstep
  rw [told_append, List.reverse_append, List.append_assoc, ← hevents]
  cases hstep with
  | quiet hquiet => exact ⟨hquiet.listening_eq.trans hlistening, hquiet.events_eq⟩
  | statement | call | finish => exact notified hlistening
  | lower => exact ⟨hlistening, rfl⟩

/-! ### Reports -/

/-- The frame of the call has just been pushed: it is on top, and the depth is the number of frames
that the task has. -/
structure Pushed (task : Nat) (c : CallInfo) (s : State) : Prop where
  depth_eq : s.stack.depth task = c.depth
  top : (framesOf task s).head? = some (c.function, c.span)

/-- **What a listener has been told** on the way from one state to the other, and which calls it has
left open. -/
structure Reported (task : Nat) (s t : State) (notices : List Notice) (opened : List OpenCall) :
    Prop where
  events_eq : t.events = notices.reverse ++ s.events
  /-- The notices are nested, each return with what was told of its call. -/
  nested : unreturned? [] notices = some (opened.map (·.info))
  bounded : ∀ e ∈ notices, Bounded e
  /-- Each call was told of when its frame had just been pushed. -/
  pushed : ∀ before c after, notices = before ++ .call c :: after → ∃ u inside,
    Leads task ⟨s, []⟩ ⟨u, inside⟩ ∧ Leads task ⟨u, inside⟩ ⟨t, opened⟩ ∧
      Pushed task c u ∧ u.events = .call c :: (before.reverse ++ s.events)
  /-- The frames of the task are those of its open calls, above those that were there before. -/
  frames_eq : framesOf task t = upFrames opened ++ framesOf task s
  deep : Deep (s.stack.depth task) opened
  depth_le : t.stack.depth task ≤ Function.maxDepth
  listening : t.listening = true
  /-- What was ready to be evaluated is so again. -/
  others : Others (· = task) s t

/-- What is told in some steps is told one notice after another. -/
theorem exists_step_of_told {before after : List Notice} {e : Notice}
    (h : Runs (Tells task) k steps k') (htold : told steps = before ++ e :: after) :
    ∃ past more k₁ k₂, Runs (Tells task) k past k₁ ∧ Tells task k₁ (some e) k₂ ∧
      Runs (Tells task) k₂ more k' ∧ told past = before := by
  -- the notices told are those of the steps that tell something
  obtain ⟨past, rest, rfl, hbefore, hrest⟩ := List.filterMap_eq_append_iff.mp htold
  obtain ⟨silent, n, more, rfl, hsilent, rfl, -⟩ := List.filterMap_eq_cons_iff.mp hrest
  obtain ⟨k₀, hpast, hlast⟩ := Runs.append_iff.mp h
  obtain ⟨k₁, hquiet, hnext⟩ := Runs.append_iff.mp hlast
  obtain ⟨k₂, hstep, hmore⟩ := Runs.cons_iff.mp hnext
  refine ⟨past ++ silent, more, k₁, k₂, Runs.append_iff.mpr ⟨k₀, hpast, hquiet⟩, hstep, hmore, ?_⟩
  have hnone : told silent = [] := List.filterMap_eq_nil_iff.mpr hsilent
  rw [told_append, hnone, List.append_nil]
  exact hbefore

/-- When a call is told of, its frame has just been pushed. -/
theorem pushed_of_call {c : CallInfo} (h : Tells task k (some (.call c)) k') :
    Pushed task c k'.state := by
  cases h with
  | @call s opened f htask hdepth =>
    refine ⟨?_, ?_⟩
    · rw [depth_eq, framesOf_entered htask, List.length_cons, ← depth_eq, ← htask]
      rfl
    · rw [framesOf_entered htask]
      rfl

/-- **What the steps of a lone task lead to is reported.** -/
theorem reported (hlistening : s.listening = true) (hdepth : s.stack.depth task ≤ Function.maxDepth)
    (h : Leads task ⟨s, []⟩ ⟨t, opened⟩) : ∃ notices, Reported task s t notices opened := by
  obtain ⟨hframes, hdeep⟩ := (stacked_start task s).leads h
  have hle := depth_le hdepth h
  -- what has been told is read off the steps themselves
  have hothers : Others (· = task) s t := h.others
  obtain ⟨steps, hsteps⟩ := h
  obtain ⟨hlistening', hevents⟩ := recorded hsteps hlistening
  refine ⟨told steps, hevents, nested hsteps, bounded hsteps nofun, ?_, hframes, ?_, hle,
    hlistening', hothers⟩
  · intro before c after htold
    obtain ⟨past, more, k₁, k₂, hpast, hstep, hmore, hbefore⟩ := exists_step_of_told hsteps htold
    -- up to the call: the steps before it, and the call itself
    have hupto : Runs (Tells task) ⟨s, []⟩ (past ++ [some (.call c)]) k₂ :=
      Runs.append_iff.mpr ⟨k₁, hpast, .cons hstep (.nil _)⟩
    have hevents := (recorded hupto hlistening).2
    rw [told_append, hbefore, List.reverse_append] at hevents
    exact ⟨k₂.state, k₂.opened, ⟨_, hupto⟩, ⟨_, hmore⟩, pushed_of_call hstep, hevents⟩
  · rw [depth_eq]
    exact hdeep

end ScriptEngine.Listener
