import ScriptEngine.Eval.Level
import ScriptEngine.Task.Wait

/-!
# Scheduling

One task runs at a time, until it waits or ends. The main task goes first; whenever it waits,
every other task gets a turn in the order of creation, and then the main task is asked again.
If nobody can go on, the clock jumps to the next time somebody waits for. A fault ends the
task it happens in and, unless that is the main one, nothing else.

Time passes only a little with every round, so a task that keeps asking meets the ones that
sleep.
-/

namespace ScriptEngine

/-- A task that waits. -/
structure Task where
  wait : Wait
  resume : Answer → State → Run Value

/-- How the main task ended. -/
inductive Outcome where
  | value (v : Value)
  | fault (f : Fault)
  /-- The host could not carry on. -/
  | abort (message : String)
  /-- Every task waits for another one, or the bound on steps was reached. -/
  | exhausted

namespace Schedule

/-- A call that was handed to a new task, waiting for its first turn. -/
def ofSpawned (t : Spawned) : Task where
  wait := .turn
  resume _ s := Dispatch.call .top t.scope t.callee t.args t.span s

/-- Takes over the tasks that were spawned, behind the others. -/
def adopt (tasks : List Task) (s : State) : List Task × State :=
  (tasks ++ s.spawned.reverse.map ofSpawned, { s with spawned := [] })

/-- The state and the task that a run leaves behind; a run that has ended leaves none. -/
def rest : Run Value → Option Task × State
  | .done _ s => (none, s)
  | .stop _ s => (none, s)
  | .wait w s resume => (some ⟨w, resume⟩, s)

/-- Gives every task a turn: the tasks that are left, whether any could go on, and the
state. -/
def turns : List Task → State → List Task × Bool × State
  | [], s => ([], false, s)
  | t :: others, s =>
    match t.wait.poll? s with
    | none =>
      let (left, moved, s) := turns others s
      (t :: left, moved, s)
    | some (answer, s) =>
      let (next, s) := rest (t.resume answer s)
      let (left, _, s) := turns others s
      (next.toList ++ left, true, s)

/-- The next time a task waits for. -/
def nextTime? (waits : List Wait) : Option Nat := (waits.filterMap Wait.wakeTime?).min?

/-- Nanoseconds that pass with a round. -/
def roundTime : Nat := 1000

/-- Runs the main task to its end, with the other tasks whenever it waits. The first argument
bounds the number of rounds. -/
def runMain : Nat → Run Value → List Task → Outcome × List Task × State
  | _, .done v s, tasks =>
    let (tasks, s) := adopt tasks s
    (.value v, tasks, s)
  | _, .stop why s, tasks =>
    let (tasks, s) := adopt tasks s
    match why with
    | .fault f => (.fault f, tasks, s)
    | .abort message => (.abort message, tasks, s)
    | .exhausted => (.exhausted, tasks, s)
  | 0, .wait _ s _, tasks => (.exhausted, tasks, s)
  | fuel + 1, .wait w s resume, tasks =>
    let (tasks, s) := adopt tasks s
    let (tasks, moved, s) := turns tasks s
    let s := { s with clock := s.clock + roundTime }
    match w.poll? s with
    | some (answer, s) => runMain fuel (resume answer s) tasks
    | none =>
      if moved || !s.spawned.isEmpty then runMain fuel (.wait w s resume) tasks
      else
        match nextTime? (w :: tasks.map (·.wait)) with
        | some time => runMain fuel (.wait w { s with clock := max s.clock time } resume) tasks
        | none => (.exhausted, tasks, s)

/-- More rounds than any program takes. -/
def maxRounds : Nat := 1152921504606846976

end Schedule

end ScriptEngine
