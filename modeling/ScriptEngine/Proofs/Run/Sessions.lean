import ScriptEngine.Proofs.Run.Course
import ScriptEngine.Session

/-!
# Tasks together

What `Run.Along` says of one run, provided that the others do what is in `rely`, is put together
here for all tasks of a schedule and for all programs of a session. `Schedule.Rules R rely I` says
that programs and spawned calls keep to the rules when they start in states of which `I` holds. What
tasks do is in `R`, and `R` is part of `rely`, so each of them may rely on what the others do;
therefore a schedule is in `R` as a whole (`Schedule.Rules.runMain`), and so is a session, but for
the moments between two programs, when what was printed and told is handed over
(`Schedule.Rules.runAll`).
-/

namespace ScriptEngine

variable {R rely : State → State → Prop} {I : State → Prop}

/-- From a state on, a waiting task will keep to the rules. -/
def Task.Keeps (R rely : State → State → Prop) (s : State) (t : Task) : Prop :=
  ∀ a u, rely s u → (t.resume a u).Along R rely u

/-- All of the tasks will keep to the rules from the state on. -/
abbrev Task.AllKeep (R rely : State → State → Prop) (s : State) (tasks : List Task) : Prop :=
  ∀ t ∈ tasks, t.Keeps R rely s

/-- Programs and spawned calls keep to the rules if they start in a state of which `I` holds, and so
does the scheduler. -/
structure Schedule.Rules (R rely : State → State → Prop) (I : State → Prop) : Prop where
  kept {s t : State} : I s → rely s t → I t
  idle {s t : State} : Idle s t → R s t
  handedOver (s : State) : rely s { s with output := "", events := [] }
  program (p : Program) {s : State} : I s → (Engine.top.program State.root p s).Along R rely s
  spawned (d : Spawned) (answer : Answer) {s : State} :
    I s → ((ofSpawned d).resume answer s).Along R rely s

variable [Run.Guarantees R rely] {s u : State} {tasks : List Task}

theorem Task.Keeps.after {t : Task} (h : t.Keeps R rely s) (hu : rely s u) : t.Keeps R rely u :=
  fun a v hv => h a v (Run.Guarantees.rely_trans R hu hv)

theorem Task.AllKeep.after (h : AllKeep R rely s tasks) (hu : R s u) : AllKeep R rely u tasks :=
  fun t ht => (h t ht).after (Run.Guarantees.relied hu)

namespace Schedule.Rules

/-- The tasks that are taken over keep to the rules, too. -/
theorem adopt (h : Rules R rely I) (hs : I s) (hu : R s u) (htasks : Task.AllKeep R rely s tasks) :
    R s (Schedule.adopt tasks u).2 ∧
      Task.AllKeep R rely (Schedule.adopt tasks u).2 (Schedule.adopt tasks u).1 := by
  have hadopt : R s (Schedule.adopt tasks u).2 :=
    Run.Guarantees.trans rely hu (h.idle ⟨u.sync, u.clock, [], rfl⟩)
  refine ⟨hadopt, fun t ht => ?_⟩
  obtain ht | ht := List.mem_append.mp ht
  · exact htasks.after hadopt t ht
  · obtain ⟨d, -, rfl⟩ := List.mem_map.mp ht
    intro answer v hv
    exact h.spawned d answer (h.kept (h.kept hs (Run.Guarantees.relied hadopt)) hv)

omit [Run.Guarantees R rely] in
/-- What a run leaves behind. -/
theorem rest {r : Run Value} (hr : r.Along R rely s) :
    R s (Schedule.rest r).2 ∧
      ∀ t ∈ (Schedule.rest r).1, t.Keeps R rely (Schedule.rest r).2 := by
  cases hr with
  | done h => exact ⟨h, nofun⟩
  | stop h => exact ⟨h, nofun⟩
  | wait h hr =>
    refine ⟨h, fun t ht => ?_⟩
    obtain rfl := Option.some.inj ht
    exact hr

/-- **One turn for each task.** -/
theorem turns (h : Rules R rely I) (htasks : Task.AllKeep R rely s tasks) :
    R s (Schedule.turns tasks s).2.2 ∧
      Task.AllKeep R rely (Schedule.turns tasks s).2.2 (Schedule.turns tasks s).1 := by
  induction tasks generalizing s with
  | nil => exact ⟨Run.Guarantees.refl rely s, nofun⟩
  | cons t others ih =>
    have hothers : Task.AllKeep R rely s others := fun o ho => htasks o (.tail _ ho)
    unfold Schedule.turns
    cases hp : t.wait.poll? s with
    | none =>
      -- the task waits on while the others go
      obtain ⟨hR, hleft⟩ := ih hothers
      refine ⟨hR, fun o ho => ?_⟩
      obtain rfl | ho := List.mem_cons.mp ho
      · exact htasks.after hR o (.head _)
      · exact hleft o ho
    | some found =>
      obtain ⟨answer, s₁⟩ := found
      have h₁ : R s s₁ := h.idle (Wait.idle_of_poll? hp)
      obtain ⟨h₂, hnext⟩ := rest (htasks t (.head _) answer s₁ (Run.Guarantees.relied h₁))
      have h₁₂ := Run.Guarantees.trans rely h₁ h₂
      obtain ⟨h₃, hleft⟩ := ih (hothers.after h₁₂)
      refine ⟨Run.Guarantees.trans rely h₁₂ h₃, fun o ho => ?_⟩
      obtain ho | ho := List.mem_append.mp ho
      · exact (hnext o (Option.mem_toList.mp ho)).after (Run.Guarantees.relied h₃)
      · exact hleft o ho

/-- **A schedule** keeps to the rules, and so will the tasks that are left. -/
theorem runMain (h : Rules R rely I) (fuel : Nat) {r : Run Value} (hs : I s)
    (hr : r.Along R rely s) (htasks : Task.AllKeep R rely s tasks) :
    R s (Schedule.runMain fuel r tasks).2.2 ∧
      Task.AllKeep R rely (Schedule.runMain fuel r tasks).2.2
        (Schedule.runMain fuel r tasks).2.1 := by
  induction fuel generalizing s r tasks with
  | zero =>
    cases hr with
    | done hst => exact h.adopt hs hst htasks
    | @stop _ _ why hst => cases why <;> exact h.adopt hs hst htasks
    | wait hst _ => exact ⟨hst, htasks.after hst⟩
  | succ fuel ih =>
    cases hr with
    | done hst => exact h.adopt hs hst htasks
    | @stop _ _ why hst => cases why <;> exact h.adopt hs hst htasks
    | @wait _ s₀ w resume hst hresume =>
      have hs₀ : I s₀ := h.kept hs (Run.Guarantees.relied hst)
      -- the others have their turns, and a little time passes
      obtain ⟨hadopt, hadopted⟩ :=
        h.adopt hs₀ (Run.Guarantees.refl rely s₀) (htasks.after hst)
      unfold Schedule.runMain
      generalize Schedule.adopt tasks s₀ = adopted at hadopt hadopted ⊢
      obtain ⟨waiting, s₁⟩ := adopted
      obtain ⟨hturns, hleft⟩ := h.turns hadopted
      dsimp only at hadopt hturns hleft ⊢
      generalize Schedule.turns waiting s₁ = turned at hturns hleft ⊢
      obtain ⟨left, moved, s₂⟩ := turned
      dsimp only at hturns hleft ⊢
      have hround : R s₀ s₂ := Run.Guarantees.trans rely hadopt hturns
      have hbefore : R s s₂ := Run.Guarantees.trans rely hst hround
      -- the main task goes on, or waits on: either way the rest of the schedule starts later
      have next : ∀ {u : State} {r' : Run Value}, R s₂ u → r'.Along R rely u →
          R s (Schedule.runMain fuel r' left).2.2 ∧
            Task.AllKeep R rely (Schedule.runMain fuel r' left).2.2
              (Schedule.runMain fuel r' left).2.1 := by
        intro u r' hu hr'
        have hsu : R s u := Run.Guarantees.trans rely hbefore hu
        obtain ⟨hlast, hkeep⟩ :=
          ih (h.kept hs (Run.Guarantees.relied hsu)) hr' (hleft.after hu)
        exact ⟨Run.Guarantees.trans rely hsu hlast, hkeep⟩
      have relied : ∀ {u}, R s₂ u → rely s₀ u :=
        fun hu => Run.Guarantees.relied (Run.Guarantees.trans rely hround hu)
      have waits : ∀ u : State, R s₂ u → (Run.wait w u resume).Along R rely u :=
        fun u hu => .wait (Run.Guarantees.refl rely u)
          fun a v hv => hresume a v (Run.Guarantees.rely_trans R (relied hu) hv)
      have htime : ∀ clock, R s₂ { s₂ with clock } :=
        fun clock => h.idle ⟨s₂.sync, clock, s₂.spawned, rfl⟩
      split
      · next answer s₃ hpoll =>
        have h₃ : R s₂ s₃ :=
          Run.Guarantees.trans rely (htime _) (h.idle (Wait.idle_of_poll? hpoll))
        exact next h₃ (hresume answer s₃ (relied h₃))
      · split
        · exact next (htime _) (waits _ (htime _))
        · split
          · exact next (htime _) (waits _ (htime _))
          · exact ⟨Run.Guarantees.trans rely hbefore (htime _), hleft.after (htime _)⟩

/-- A program of a session, until what it has printed is handed over. -/
theorem run (h : Rules R rely I) {σ : Session} (hs : I σ.state)
    (htasks : Task.AllKeep R rely σ.state σ.tasks) (p : Program) :
    rely σ.state (σ.run p).2.state ∧
      Task.AllKeep R rely (σ.run p).2.state (σ.run p).2.tasks := by
  obtain ⟨hR, hkeep⟩ := h.runMain Schedule.maxRounds hs (h.program p hs) htasks
  exact ⟨Run.Guarantees.rely_trans R (Run.Guarantees.relied hR) (h.handedOver _),
    fun t ht => (hkeep t ht).after (h.handedOver _)⟩

/-- **Programs that run one after another** keep to the rules. -/
theorem runAll (h : Rules R rely I) {σ : Session} (hs : I σ.state)
    (htasks : Task.AllKeep R rely σ.state σ.tasks) (programs : List Program) :
    rely σ.state (σ.runAll programs).2.state ∧
      Task.AllKeep R rely (σ.runAll programs).2.state (σ.runAll programs).2.tasks := by
  induction programs generalizing σ with
  | nil => exact ⟨Run.Guarantees.rely_refl R _, htasks⟩
  | cons p rest ih =>
    obtain ⟨hrely, hkeep⟩ := h.run hs htasks p
    unfold Session.runAll
    dsimp only
    split
    · exact ⟨hrely, hkeep⟩
    · obtain ⟨hrest, hlast⟩ := ih (h.kept hs hrely) hkeep
      exact ⟨Run.Guarantees.rely_trans R hrely hrest, hlast⟩

end Schedule.Rules

end ScriptEngine
