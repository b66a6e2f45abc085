import ScriptEngine.Value

/-!
# The call stack

One stack carries the frames of all tasks, the latest in front. Every question and every
removal names a task and looks at that task's frames only, so each task sees a stack of
its own.
-/

namespace ScriptEngine

/-- A call that waits for the end of a frame. -/
structure Deferred where
  callee : Value
  args : List Value
  span : Span

/-- A call in progress. -/
structure Frame where
  function : String
  task : Nat
  callSpan : Span
  /-- The deferred calls, the latest in front. -/
  deferred : List Deferred

/-- The frames of all tasks, the latest in front. -/
structure CallStack where
  frames : List Frame

namespace CallStack

def empty : CallStack := ⟨[]⟩

def push (c : CallStack) (f : Frame) : CallStack := ⟨f :: c.frames⟩

/-- The frames of a task, the innermost in front. -/
def ofTask (c : CallStack) (task : Nat) : List Frame := c.frames.filter (·.task == task)

/-- Takes out the first frame of a task. -/
def takeFirst (task : Nat) : List Frame → Option (Frame × List Frame)
  | [] => none
  | f :: rest =>
    if f.task = task then some (f, rest)
    else (takeFirst task rest).map fun (g, others) => (g, f :: others)

/-- Removes the innermost frame of a task. -/
def pop (c : CallStack) (task : Nat) : Option (Frame × CallStack) :=
  (takeFirst task c.frames).map fun (f, rest) => (f, ⟨rest⟩)

/-- The innermost frame of a task. -/
def current? (c : CallStack) (task : Nat) : Option Frame := c.frames.find? (·.task == task)

/-- The frame that made the innermost call of a task. -/
def caller? (c : CallStack) (task : Nat) : Option Frame := (c.ofTask task)[1]?

def depth (c : CallStack) (task : Nat) : Nat := (c.ofTask task).length

def size (c : CallStack) : Nat := c.frames.length

/-- Function names of a task, the outermost call first. -/
def backtrace (c : CallStack) (task : Nat) : List String :=
  ((c.ofTask task).map (·.function)).reverse

/-- Changes the first frame of a task. -/
def editFirst (task : Nat) (f : Frame → Frame) : List Frame → Option (List Frame)
  | [] => none
  | g :: rest =>
    if g.task = task then some (f g :: rest) else (editFirst task f rest).map (g :: ·)

/-- Changes the innermost frame of a task, if it has one. -/
def edit (c : CallStack) (task : Nat) (f : Frame → Frame) : Option CallStack :=
  (editFirst task f c.frames).map (⟨·⟩)

@[simp] theorem pop_push (c : CallStack) (f : Frame) : (c.push f).pop f.task = some (f, c) := by
  simp [push, pop, takeFirst]

end CallStack

end ScriptEngine
