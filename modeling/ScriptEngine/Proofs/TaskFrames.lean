import ScriptEngine.Proofs.Run.Course

/-!
# Whose frames a spawned call touches

A spawned call starts in a scope of a new task, and the calls made from there push, pop and edit
frames of that task. But a method that is spawned was packaged first, and a packaged method is
called from the scope it was packaged in (`Dispatch.call`): its frame belongs to the task that
evaluated the `spawn`. The same goes for every packaged method that the new task comes by.

So what a spawned call leaves alone are the frames of the tasks for which nothing has been
packaged (`Schedule.ofSpawned_keepsFrames`). If no method has been packaged at all, these are the
frames of all tasks but its own.
-/

namespace ScriptEngine

open Eval

/-- At the end of each of its stretches, a run has left the frames of the tasks outside of `T` as
they were at the beginning of the stretch, as long as the others package methods for tasks in `T`
only. -/
abbrev Run.KeepsFrames {α : Type} (T : Nat → Prop) (s : State) (r : Run α) : Prop :=
  r.Along (fun s t => ∀ task, ¬ T task → t.stack.ofTask task = s.stack.ofTask task) (Others T) s

/-- A call that has been captured is handed over with a scope of a new task. -/
theorem Capture.spawn_ends {E : Engine} {scope : Ref .scope} {e : Expr} {span : Span}
    {s t : State} {v : Value} (h : (spawn E scope e span s).Ends (.ok v) t) :
    ∃ (task : Nat) (callee : Value) (args : List Value) (inner : Ref .scope) (u : State),
      (callable E scope e .badSpawn span s).Ends (.ok (callee, args)) u ∧
      t.spawned = ⟨inner, callee, args, span⟩ :: u.spawned ∧ task = u.nextTask ∧
      t.nextTask = task + 1 ∧ t.scopes.ServedBy (· = task) inner := by
  obtain ⟨⟨callee, args⟩, u, hu, h⟩ | ⟨e, he, -⟩ := ends_bind_iff.mp h
  · simp only [taskScope, modifyGet_bind_apply, modify_bind_apply] at h
    obtain ⟨-, rfl⟩ := ends_pure_iff.mp h
    refine ⟨u.nextTask, callee, args, u.newScope, u, hu, rfl, rfl, rfl, ?_⟩
    -- the scope was added last, with the number of the task
    exact .of_isSome (by simp [State.newScope]) (Function.task_newScope u _)
  · cases he

/-- **A spawned call keeps the frames of all tasks for which no method has been packaged,** apart
from its own. What `spawn` hands to the scheduler is a call with a scope of a new task. Whenever the
scheduler starts it, all that the call does, up to each of its waits and to its end, leaves every
other task's frames as they are, their deferred calls included, unless a method was packaged for
that task; whatever the others do meanwhile, as long as they package none for it either. -/
theorem Schedule.ofSpawned_keepsFrames {n : Nat} {scope : Ref .scope} {e : Expr} {span : Span}
    {s t : State} {v : Value}
    (h : (Capture.spawn (.level n) scope e span s).Ends (.ok v) t) :
    ∃ (task : Nat) (d : Spawned), t.spawned.head? = some d ∧ t.nextTask = task + 1 ∧
      t.scopes.task d.scope = task ∧
      ∀ (T : Nat → Prop) (u : State) (answer : Answer), T task →
        t.scopes.Extends u.scopes → u.PackagedFor T →
        ((ofSpawned d).resume answer u).KeepsFrames T u := by
  obtain ⟨task, callee, args, inner, before, -, hspawned, -, hnext, hserved⟩ :=
    Capture.spawn_ends h
  refine ⟨task, ⟨inner, callee, args, span⟩, by rw [hspawned]; rfl, hnext, hserved.task, ?_⟩
  intro T u answer hT hu hpackaged
  have hready : u.Ready T inner := by
    refine ⟨fun w hw => ?_, hpackaged⟩
    have : w.task inner = task := hserved w (hu.trans hw)
    rwa [this]
  exact (ofSpawned_acts _ answer u hready).mono (fun hst _ => hst.ofTask_eq) id

/-- A host's state in which `worker` names an object with a method `spin` that never ends. -/
def withWorker : State :=
  let s := State.initial ⟨.empty, .default, none, .empty, false, 0, 0⟩
  let loop : Stmt := .mk (.while (.mk (.bool true) .unknown) []) .unknown
  let spin : MethodDef := ⟨⟨"spin", [], [loop], State.root, .unknown, .method⟩, .isPublic, false, []⟩
  let cls : ClassDef :=
    { ClassTable.bare "Worker" .normal none with
      parent := some ClassTable.base, methods := Assoc.empty.insert "spin" spin }
  { s with
    classes := (s.classes.add cls).2
    heap := { s.heap with objects := ⟨#[⟨⟨4⟩, .empty⟩]⟩ }
    scopes := ⟨#[(Scope.fresh none 0 none).bind "worker" (.object ⟨0⟩)]⟩ }

/-- A function literal that is spawned keeps the frames of all tasks but its own. -/
theorem Schedule.ofSpawned_keepsFrames_literal :
    ∃ (t : State) (d : Spawned),
      (Capture.spawn (.level 2) State.root (.mk (.function none [] []) .unknown) .unknown
        withWorker).Ends (.ok .nil) t ∧
      t.spawned.head? = some d ∧ t.scopes.task d.scope = 1 ∧
      ((ofSpawned d).resume .done t).KeepsFrames (· = 1) t := by
  obtain ⟨t, ht, hnext, hbounds⟩ : ∃ t, (Capture.spawn (.level 2) State.root
      (.mk (.function none [] []) .unknown) .unknown withWorker).Ends (.ok .nil) t ∧
      t.nextTask = 2 ∧ t.heap.bounds = .empty := ⟨_, .done _ _, rfl, rfl⟩
  obtain ⟨task, d, hd, htask, hscope, hkeeps⟩ := ofSpawned_keepsFrames ht
  obtain rfl : task = 1 := by omega
  refine ⟨t, d, ht, hd, hscope, hkeeps (· = 1) t .done rfl (.refl _) fun r b hb => ?_⟩
  -- nothing has been packaged
  rw [hbounds] at hb
  simp [Table.get?, Table.empty] at hb

/-- The task that calls the packaged method `spin`. -/
def spinTask : Spawned := ⟨⟨1⟩, .bound ⟨0⟩, [], .unknown⟩

/-- The state after `worker.spin()` has been spawned. -/
def withSpinTask : State :=
  { withWorker with
    heap := { withWorker.heap with
      bounds := ⟨#[⟨.object ⟨0⟩, "spin", "Worker.spin", State.root, .unknown⟩]⟩ }
    scopes := (withWorker.scopes.add (.fresh (some State.root) 1 none)).2
    spawned := [spinTask]
    concurrent := true
    nextTask := 2 }

/-- **A spawned method runs on a frame of the task that spawned it.** Its scope belongs to task
1; but when it waits for the first time, its frame is one of task 0, in which nothing is being
called, and task 1 has none. -/
theorem Schedule.ofSpawned_method_frame :
    Capture.spawn (.level 2) State.root
      (.mk (.methodCall (.mk (.name "worker") .unknown) "spin" []) .unknown) .unknown
      withWorker = .done .nil withSpinTask ∧
    withSpinTask.scopes.task spinTask.scope = 1 ∧ withSpinTask.stack.ofTask 0 = [] ∧
    ∃ (t : State) (resume : Answer → State → Run Value),
      (ofSpawned spinTask).resume .done withSpinTask = .wait .turn t resume ∧
      (t.stack.ofTask 0).map (·.function) = ["spin"] ∧ t.stack.ofTask 1 = [] :=
  ⟨rfl, rfl, rfl, _, _, rfl, rfl, rfl⟩

end ScriptEngine
