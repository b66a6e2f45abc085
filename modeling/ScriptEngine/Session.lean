import ScriptEngine.Task.Schedule

/-!
# Sessions

A session runs programs one after another in one scope, so that names, packages and tasks
outlive the program that made them. `Session.run` gives what a program ended with, what it
printed, and what a listener was told.
-/

namespace ScriptEngine

/-- What is left between two programs. -/
structure Session where
  state : State
  tasks : List Task

/-- An entry of the trace in a report. Of the place a call was made from it keeps the line. -/
inductive Event where
  | statement (line : Nat)
  | call (function : String) (line depth : Nat)
  | return (function : String) (line depth : Nat)
deriving DecidableEq, Repr

/-- What the trace says of something that the listener was told. -/
def Event.ofNotice : Notice → Event
  | .statement line => .statement line
  | .call c => .call c.function c.span.line c.depth
  | .return c => .return c.function c.span.line c.depth

/-- What a program did. -/
structure Report where
  outcome : Outcome
  output : String
  events : List Event

/-- The status a host ends with after a program. -/
def Outcome.status : Outcome → Nat
  | .value _ => 0
  | _ => 1

namespace Session

/-- A session in which nothing has run. -/
def start (setup : Setup) : Session := ⟨.initial setup, []⟩

/-- Runs a program. -/
def run (s : Session) (program : Program) : Report × Session :=
  let main := Engine.top.program State.root program s.state
  let (outcome, tasks, state) := Schedule.runMain Schedule.maxRounds main s.tasks
  (⟨outcome, state.output, state.events.reverse.map .ofNotice⟩,
    ⟨{ state with output := "", events := [] }, tasks⟩)

/-- Runs programs until one is aborted by the host. -/
def runAll (s : Session) : List Program → List Report × Session
  | [] => ([], s)
  | p :: rest =>
    let (report, s) := s.run p
    match report.outcome with
    | .abort _ => ([report], s)
    | _ =>
      let (reports, s) := s.runAll rest
      (report :: reports, s)

end Session

end ScriptEngine
