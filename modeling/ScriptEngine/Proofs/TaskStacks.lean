import Mathlib.Algebra.BigOperators.Group.Finset.Basic
import ScriptEngine.Machine.CallStack

/-!
# A stack for each task

The frames of all tasks lie interleaved in one list, and a pop may take a frame out of its middle.
Seen by one task, it is a stack of its own all the same: what a task sees of the shared stack is
`CallStack.ofTask`, every answer it gets can be read off that list, and whatever another task does
leaves the list as it is.

`CallStack.serve` answers requests of many tasks in the order in which they come, and
`PlainStack.serve` those of a single task on a plain list. The result is a refinement, of the shared
stack into one plain stack for each task (`CallStack.serve_refines`); its step is
`CallStack.perform_refines`, for the task that asks, and `CallStack.ofTask_perform_of_ne`, for all
the others.
-/

namespace ScriptEngine

/-! ### Requests and replies -/

/-- A change to a frame. It stays a frame of its task. -/
structure FrameEdit where
  apply : Frame → Frame
  task_apply : ∀ f, (apply f).task = f.task

/-- What a task can ask of a call stack. -/
inductive StackRequest where
  | push (function : String) (callSpan : Span) (deferred : List Deferred)
  | pop
  | current
  | edit (e : FrameEdit)
  | caller
  | depth
  | backtrace

inductive StackReply where
  | done
  | frame (f : Option Frame)
  /-- Whether there was a frame to change. -/
  | found (isFound : Bool)
  | count (n : Nat)
  | names (names : List String)

/-- What belongs to one task in a list of things of several tasks. -/
def entriesOf {α : Type} (task : Nat) (entries : List (Nat × α)) : List α :=
  (entries.filter (·.1 == task)).map (·.2)

/-- What belongs to a task is in front. -/
theorem entriesOf_cons_self {α : Type} (task : Nat) (a : α) (rest : List (Nat × α)) :
    entriesOf task ((task, a) :: rest) = a :: entriesOf task rest := by
  simp [entriesOf]

/-- What belongs to another one is left out. -/
theorem entriesOf_cons_of_ne {α : Type} {task other : Nat} (h : other ≠ task) (a : α)
    (rest : List (Nat × α)) : entriesOf task ((other, a) :: rest) = entriesOf task rest := by
  simp [entriesOf, h]

namespace CallStack

/-- Serves a request of a task. -/
def perform (c : CallStack) (task : Nat) : StackRequest → StackReply × CallStack
  | .push function callSpan deferred => (.done, c.push ⟨function, task, callSpan, deferred⟩)
  | .pop =>
    match c.pop task with
    | some (f, k) => (.frame (some f), k)
    | none => (.frame none, c)
  | .current => (.frame (c.current? task), c)
  | .edit e =>
    match c.edit task e.apply with
    | some k => (.found true, k)
    | none => (.found false, c)
  | .caller => (.frame (c.caller? task), c)
  | .depth => (.count (c.depth task), c)
  | .backtrace => (.names (c.backtrace task), c)

/-- Serves requests in turn: the replies, each with the task that asked, and the stack that is
left. -/
def serve (c : CallStack) : List (Nat × StackRequest) → List (Nat × StackReply) × CallStack
  | [] => ([], c)
  | (task, r) :: rest =>
    let (reply, c) := c.perform task r
    let (replies, c) := c.serve rest
    ((task, reply) :: replies, c)

/-- The tasks that have a frame. -/
def tasks (c : CallStack) : Finset Nat := (c.frames.map (·.task)).toFinset

end CallStack

/-! ### A plain stack -/

namespace PlainStack

/-- Serves a request on a plain stack of frames, the innermost in front. All that is known of the
task is the mark its frames carry. -/
def perform (task : Nat) (frames : List Frame) : StackRequest → StackReply × List Frame
  | .push function callSpan deferred => (.done, ⟨function, task, callSpan, deferred⟩ :: frames)
  | .pop => (.frame frames.head?, frames.tail)
  | .current => (.frame frames.head?, frames)
  | .edit e =>
    match frames with
    | [] => (.found false, [])
    | f :: outer => (.found true, e.apply f :: outer)
  | .caller => (.frame frames.tail.head?, frames)
  | .depth => (.count frames.length, frames)
  | .backtrace => (.names (frames.reverse.map (·.function)), frames)

/-- Serves requests in turn, on a plain stack. -/
def serve (task : Nat) (frames : List Frame) :
    List StackRequest → List StackReply × List Frame
  | [] => ([], frames)
  | r :: rest =>
    let (reply, frames) := perform task frames r
    let (replies, frames) := serve task frames rest
    (reply :: replies, frames)

end PlainStack

namespace CallStack

variable {c k : CallStack} {task other : Nat} {f : Frame}

/-! ### What a task sees -/

/-- A frame that the task pushes is on top of those it has. -/
@[simp] theorem ofTask_push_self (c : CallStack) (f : Frame) :
    (c.push f).ofTask f.task = f :: c.ofTask f.task := by
  simp [push, ofTask]

/-- A frame that another task pushes is not seen. -/
theorem ofTask_push_of_ne (c : CallStack) (h : f.task ≠ other) :
    (c.push f).ofTask other = c.ofTask other := by
  simp [push, ofTask, h]

/-- The current frame is the topmost one that the task has. -/
theorem current?_eq (c : CallStack) (task : Nat) : c.current? task = (c.ofTask task).head? := by
  simp [current?, ofTask]

/-- What is taken out is the first frame of the task, and the rest keeps its order. -/
theorem takeFirst_eq_some {frames rest : List Frame}
    (h : takeFirst task frames = some (f, rest)) :
    f.task = task ∧ ∃ front back, frames = front ++ f :: back ∧ rest = front ++ back ∧
      ∀ g ∈ front, g.task ≠ task := by
  -- by induction on the frames, from the top
  induction frames generalizing rest with
  | nil => simp [takeFirst] at h
  | cons g frames ih =>
    unfold takeFirst at h
    split at h
    · next hg =>
      obtain ⟨rfl, rfl⟩ := Prod.mk.inj (Option.some.inj h)
      exact ⟨hg, [], frames, rfl, rfl, List.forall_mem_nil _⟩
    · next hg =>
      obtain ⟨⟨f', rest'⟩, hrest, he⟩ := Option.map_eq_some_iff.mp h
      obtain ⟨rfl, rfl⟩ := Prod.mk.inj he
      obtain ⟨hf, front, back, rfl, rfl, hfront⟩ := ih hrest
      exact ⟨hf, g :: front, back, rfl, rfl, List.forall_mem_cons.mpr ⟨hg, hfront⟩⟩

/-- If nothing is taken out, there is no frame of the task. -/
theorem takeFirst_eq_none {frames : List Frame} (h : takeFirst task frames = none) :
    ∀ g ∈ frames, g.task ≠ task := by
  -- by induction again: no frame is the first one of the task
  induction frames with
  | nil => exact List.forall_mem_nil _
  | cons g frames ih =>
    unfold takeFirst at h
    split at h
    · cases h
    · next hg => exact List.forall_mem_cons.mpr ⟨hg, ih (Option.map_eq_none_iff.mp h)⟩

/-- A pop takes the topmost frame that the task has. -/
theorem ofTask_of_pop (h : c.pop task = some (f, k)) : c.ofTask task = f :: k.ofTask task := by
  obtain ⟨⟨f', rest⟩, hrest, he⟩ := Option.map_eq_some_iff.mp h
  obtain ⟨rfl, rfl⟩ := Prod.mk.inj he
  obtain ⟨hf, front, back, hc, rfl, hfront⟩ := takeFirst_eq_some hrest
  -- the frames in front of it are of other tasks, so it is the topmost
  have hnone : front.filter (·.task == task) = [] := by simpa using hfront
  simp [ofTask, hc, hf, hnone]

/-- A pop by another task is not seen. -/
theorem ofTask_of_pop_of_ne (h : c.pop task = some (f, k)) (hother : task ≠ other) :
    k.ofTask other = c.ofTask other := by
  obtain ⟨⟨f', rest⟩, hrest, he⟩ := Option.map_eq_some_iff.mp h
  obtain ⟨rfl, rfl⟩ := Prod.mk.inj he
  obtain ⟨rfl, front, back, hc, rfl, -⟩ := takeFirst_eq_some hrest
  simp [ofTask, hc, hother]

/-- There is nothing to pop if the task has no frames. -/
theorem ofTask_of_pop_eq_none (h : c.pop task = none) : c.ofTask task = [] := by
  have hframes := takeFirst_eq_none (Option.map_eq_none_iff.mp h)
  simpa [ofTask] using hframes

/-- An edit changes the first frame of the task in its place. -/
theorem editFirst_eq_some {g : Frame → Frame} {frames edited : List Frame}
    (h : editFirst task g frames = some edited) :
    ∃ f front back, f.task = task ∧ frames = front ++ f :: back ∧
      edited = front ++ g f :: back ∧ ∀ b ∈ front, b.task ≠ task := by
  -- by induction on the frames, from the top
  induction frames generalizing edited with
  | nil => simp [editFirst] at h
  | cons b frames ih =>
    unfold editFirst at h
    split at h
    · next hb =>
      obtain rfl := Option.some.inj h
      exact ⟨b, [], frames, hb, rfl, rfl, List.forall_mem_nil _⟩
    · next hb =>
      obtain ⟨edited', hedited, rfl⟩ := Option.map_eq_some_iff.mp h
      obtain ⟨f, front, back, hf, rfl, rfl, hfront⟩ := ih hedited
      exact ⟨f, b :: front, back, hf, rfl, rfl, List.forall_mem_cons.mpr ⟨hb, hfront⟩⟩

/-- If nothing is edited, there is no frame of the task. -/
theorem editFirst_eq_none {g : Frame → Frame} {frames : List Frame}
    (h : editFirst task g frames = none) : ∀ b ∈ frames, b.task ≠ task := by
  induction frames with
  | nil => exact List.forall_mem_nil _
  | cons b frames ih =>
    unfold editFirst at h
    split at h
    · cases h
    · next hb => exact List.forall_mem_cons.mpr ⟨hb, ih (Option.map_eq_none_iff.mp h)⟩

/-- An edit changes the topmost frame that the task has. -/
theorem ofTask_of_edit {g : Frame → Frame} (hg : ∀ b, (g b).task = b.task)
    (h : c.edit task g = some k) :
    ∃ f outer, c.ofTask task = f :: outer ∧ k.ofTask task = g f :: outer := by
  obtain ⟨edited, hedited, rfl⟩ := Option.map_eq_some_iff.mp h
  obtain ⟨f, front, back, hf, hc, rfl, hfront⟩ := editFirst_eq_some hedited
  -- the frames in front of it are seen by other tasks only
  have hnone : front.filter (·.task == task) = [] := by simpa using hfront
  refine ⟨f, back.filter (·.task == task), ?_, ?_⟩ <;> simp [ofTask, hc, hg, hf, hnone]

/-- An edit by another task is not seen. -/
theorem ofTask_of_edit_of_ne {g : Frame → Frame} (hg : ∀ b, (g b).task = b.task)
    (h : c.edit task g = some k) (hother : task ≠ other) : k.ofTask other = c.ofTask other := by
  obtain ⟨edited, hedited, rfl⟩ := Option.map_eq_some_iff.mp h
  obtain ⟨f, front, back, rfl, hc, rfl, -⟩ := editFirst_eq_some hedited
  simp [ofTask, hc, hg, hother]

/-- There is nothing to edit if the task has no frames. -/
theorem ofTask_of_edit_eq_none {g : Frame → Frame} (h : c.edit task g = none) :
    c.ofTask task = [] := by
  have hframes := editFirst_eq_none (Option.map_eq_none_iff.mp h)
  simpa [ofTask] using hframes

/-! ### One request -/

/-- **One request, seen by the task that makes it,** is served as on a plain stack. -/
theorem perform_refines (c : CallStack) (task : Nat) (r : StackRequest) :
    (c.perform task r).1 = (PlainStack.perform task (c.ofTask task) r).1 ∧
      (c.perform task r).2.ofTask task = (PlainStack.perform task (c.ofTask task) r).2 := by
  cases r with
  | push function callSpan deferred => exact ⟨rfl, ofTask_push_self c _⟩
  -- the pop is found in both stacks, or in neither
  | pop =>
    cases h : c.pop task with
    | some found => simp [perform, PlainStack.perform, h, ofTask_of_pop h]
    | none => simp [perform, PlainStack.perform, h, ofTask_of_pop_eq_none h]
  | current => simp [perform, PlainStack.perform, current?_eq]
  -- the same of an edit
  | edit e =>
    cases h : c.edit task e.apply with
    | some k =>
      obtain ⟨f, outer, hc, hk⟩ := ofTask_of_edit e.task_apply h
      simp [perform, PlainStack.perform, h, hc, hk]
    | none => simp [perform, PlainStack.perform, h, ofTask_of_edit_eq_none h]
  | caller => simp [perform, PlainStack.perform, caller?, List.head?_eq_getElem?]
  | depth => exact ⟨rfl, rfl⟩
  | backtrace => simp [perform, PlainStack.perform, backtrace]

/-- **One request, seen by every other task,** changes nothing. -/
theorem ofTask_perform_of_ne (c : CallStack) (r : StackRequest) (h : task ≠ other) :
    (c.perform task r).2.ofTask other = c.ofTask other := by
  cases r with
  | push function callSpan deferred => exact ofTask_push_of_ne c h
  | pop =>
    cases hp : c.pop task with
    | some found => simpa [perform, hp] using ofTask_of_pop_of_ne hp h
    | none => simp [perform, hp]
  | edit e =>
    cases he : c.edit task e.apply with
    | some k => simpa [perform, he] using ofTask_of_edit_of_ne e.task_apply he h
    | none => simp [perform, he]
  | current | caller | depth | backtrace => rfl

/-! ### Any interleaving of requests -/

/-- The replies to a task and the frames it is left with are those of a plain stack. -/
theorem serve_refines_of_task (c : CallStack) (requests : List (Nat × StackRequest))
    (task : Nat) :
    (entriesOf task (c.serve requests).1, (c.serve requests).2.ofTask task) =
      PlainStack.serve task (c.ofTask task) (entriesOf task requests) := by
  induction requests generalizing c with
  | nil => rfl
  | cons request rest ih =>
    obtain ⟨asking, r⟩ := request
    -- the requests that follow are served from what this one leaves
    have hrest := Prod.mk.inj (ih (c.perform asking r).2)
    by_cases h : asking = task
    · subst h
      obtain ⟨hreply, hframes⟩ := perform_refines c asking r
      rw [hframes] at hrest
      simp [serve, PlainStack.serve, entriesOf_cons_self, hreply, hrest]
    · rw [ofTask_perform_of_ne c r h] at hrest
      simp [serve, entriesOf_cons_of_ne h, hrest]

/-- The frames are those of the tasks, counted task by task. -/
theorem size_eq_sum_depth (c : CallStack) : c.size = ∑ task ∈ c.tasks, c.depth task := by
  -- the depth of a task is how often its number is on the stack
  have hdepth : ∀ task, c.depth task = (c.frames.map (·.task)).count task := by
    intro task
    rw [List.count_eq_countP, List.countP_map, List.countP_eq_length_filter]
    rfl
  simp only [hdepth, tasks, List.sum_toFinset_count_eq_length, List.length_map, size]

/-- **The shared stack is one plain stack for each task.** However the requests of the tasks are
interleaved, the replies each task receives are those it would get for the same requests, in the
same order, from a plain stack of its own, which starts with the frames the task has and ends with
the frames it is left with. The length of the shared stack is the sum of the depths of the tasks. -/
theorem serve_refines (c : CallStack) (requests : List (Nat × StackRequest)) :
    (∀ task,
      (entriesOf task (c.serve requests).1, (c.serve requests).2.ofTask task) =
        PlainStack.serve task (c.ofTask task) (entriesOf task requests)) ∧
    (c.serve requests).2.size =
      ∑ task ∈ (c.serve requests).2.tasks,
        (PlainStack.serve task (c.ofTask task) (entriesOf task requests)).2.length := by
  refine ⟨serve_refines_of_task c requests, ?_⟩
  rw [size_eq_sum_depth]
  refine Finset.sum_congr rfl fun task _ => ?_
  rw [← serve_refines_of_task c requests task]
  rfl

end CallStack

end ScriptEngine
