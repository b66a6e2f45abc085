import ScriptEngine.Proofs.Run.Ends

/-!
# Replaying a run

Where a run waits, it goes on with what the scheduler hands back: an answer, and the state that the
other tasks have left. A list of such replies settles the whole course of the run.
`Run.replay r replies` is what `r` ends with on that course, and in which state; there is none if
`r` needs more replies, or fewer.

As this is a function, a course has one end. So what has ended with a value on a course, and is
followed by something that ends on another one, ends as a whole on the two courses together
(`Eval.replay_bind`), and what ends otherwise ends there for good (`Eval.replay_bind_of_stop`).
-/

namespace ScriptEngine

namespace Run

variable {α β : Type}

/-- What a run ends with, and in which state, if the scheduler replies to its waits in this way. -/
def replay : Run α → List (Answer × State) → Option (Except Stop α × State)
  | .done a s, [] => some (.ok a, s)
  | .stop why s, [] => some (.error why, s)
  | .wait _ _ resume, (a, s) :: rest => (resume a s).replay rest
  | _, _ => none

variable {r : Run α} {f : α → State → Run β} {replies first rest : List (Answer × State)}
  {s : State} {a : α} {why : Stop}

/-- **What has answered goes on** with what comes behind, on the replies that are left. -/
theorem replay_andThen (h : r.replay first = some (.ok a, s)) :
    (r.andThen f).replay (first ++ rest) = (f a s).replay rest := by
  -- by induction on the run, each wait of which takes the next reply
  induction r generalizing first with
  | done b t =>
    cases first with
    | nil =>
      cases h
      rfl
    | cons => cases h
  | stop => cases first <;> cases h
  | wait w t resume ih =>
    cases first with
    | nil => cases h
    | cons reply first => exact ih reply.1 reply.2 h

/-- **What has stopped ends there,** whatever was to come behind. -/
theorem replay_andThen_of_stop (h : r.replay replies = some (.error why, s)) :
    (r.andThen f).replay replies = some (.error why, s) := by
  -- by induction on the run again: what stops does not go on
  induction r generalizing replies with
  | done => cases replies <;> cases h
  | stop =>
    cases replies with
    | nil =>
      cases h
      rfl
    | cons => cases h
  | wait w t resume ih =>
    cases replies with
    | nil => cases h
    | cons reply rest => exact ih reply.1 reply.2 h

end Run

namespace Eval

variable {α β : Type} {m : Eval α} {f : α → Eval β} {replies first rest : List (Answer × State)}
  {s t : State} {a : α} {why : Stop}

/-- So a computation goes on with the next one. -/
theorem replay_bind (h : (m s).replay first = some (.ok a, t)) :
    ((m >>= f) s).replay (first ++ rest) = (f a t).replay rest := by
  rw [bind_apply]
  exact Run.replay_andThen h

/-- And it ends with the one that has stopped. -/
theorem replay_bind_of_stop (h : (m s).replay replies = some (.error why, t)) :
    ((m >>= f) s).replay replies = some (.error why, t) := by
  rw [bind_apply]
  exact Run.replay_andThen_of_stop h

/-- What needs no more replies ends on the course of what it follows. -/
theorem replay_bind_last (h : (m s).replay replies = some (.ok a, t)) :
    ((m >>= f) s).replay replies = (f a t).replay [] := by
  -- there are no replies left for what comes behind
  have hbind : ((m >>= f) s).replay (replies ++ []) = (f a t).replay [] := replay_bind h
  rwa [List.append_nil] at hbind

end Eval

end ScriptEngine
