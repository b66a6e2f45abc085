/-!
# Runs of tasks that share something

Tasks that share a lock, a channel or a condition variable take atomic steps in any order. Who
takes which step next is not determined, so what they share is described by a relation
`Step s e t`: in the configuration `s` the event `e` can happen, and leads to `t`. A run
`Runs Step s events t` is a sequence of such events, one interleaving of the tasks.

Two ways to reason about a run are used: an invariant of the configuration alone
(`Runs.invariant`), and one that ties the configuration to the events so far
(`Runs.history`).
-/

namespace ScriptEngine

/-- The events happen one after the other and lead from one configuration to the other. -/
inductive Runs {σ ε : Type} (Step : σ → ε → σ → Prop) : σ → List ε → σ → Prop
  | nil (s : σ) : Runs Step s [] s
  | cons {s t u : σ} {e : ε} {rest : List ε} :
      Step s e t → Runs Step t rest u → Runs Step s (e :: rest) u

namespace Runs

variable {σ ε : Type} {Step : σ → ε → σ → Prop} {s t u : σ} {e : ε} {events more : List ε}

theorem nil_iff : Runs Step s [] t ↔ s = t := by
  constructor
  · rintro ⟨⟩
    rfl
  · rintro rfl
    exact .nil s

theorem cons_iff : Runs Step s (e :: events) u ↔ ∃ t, Step s e t ∧ Runs Step t events u := by
  constructor
  · rintro (_ | ⟨he, h⟩)
    exact ⟨_, he, h⟩
  · rintro ⟨t, he, h⟩
    exact .cons he h

theorem append_iff :
    Runs Step s (events ++ more) u ↔ ∃ t, Runs Step s events t ∧ Runs Step t more u := by
  induction events generalizing s with
  | nil => simp [nil_iff]
  | cons e rest ih =>
    simp only [List.cons_append, cons_iff, ih]
    constructor
    · rintro ⟨t, he, v, hrest, hmore⟩
      exact ⟨v, ⟨t, he, hrest⟩, hmore⟩
    · rintro ⟨v, ⟨t, he, hrest⟩, hmore⟩
      exact ⟨t, he, v, hrest, hmore⟩

/-- What every step preserves holds at the end of a run if it holds at its beginning. -/
theorem invariant {P : σ → Prop} (hstep : ∀ {s e t}, P s → Step s e t → P t)
    (h : Runs Step s events t) (hs : P s) : P t := by
  induction h with
  | nil => exact hs
  | cons he _ ih => exact ih (hstep hs he)

/-- The same for a statement about a configuration and the events that have led to it. -/
theorem history {P : List ε → σ → Prop}
    (hstep : ∀ {past s e t}, P past s → Step s e t → P (past ++ [e]) t)
    (h : Runs Step s events t) (hs : P [] s) : P events t := by
  -- the events so far grow at the end, so they are kept beside the rest of the run
  have along : ∀ past, P past s → P (past ++ events) t := by
    clear hs
    induction h with
    | nil => simp
    | cons he _ ih =>
      intro past hpast
      have := ih _ (hstep hpast he)
      rwa [List.append_assoc, List.singleton_append] at this
  exact along [] hs

end Runs

end ScriptEngine
