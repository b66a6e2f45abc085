import ScriptEngine.Method.Answer
import ScriptEngine.Proofs.Run.Ends
import ScriptEngine.Task.Wait

/-!
# Taking and releasing a lock

What the steps of a lock do to the lock, and what the methods of locks and condition variables do
to the state with them. A task that asks for a mutex gets it at once if it is free
(`Method.invoke_lock_of_free`) and waits for it if it is held (`Method.invoke_lock_of_held`); the
scheduler gives it to a waiting task by the same rule (`Wait.poll?_mutex_eq_some`).
-/

namespace ScriptEngine

/-- A wait whose answer does not matter. -/
theorem Eval.discard_await_apply (w : Wait) (s : State) :
    (discard (await w) : Eval Unit) s = .wait w s fun _ t => .done () t := rfl

/-- A mutex is taken only while it is free, and then it is held. -/
theorem Sync.Mutex.lock?_eq_some {m m' : Mutex} : m.lock? = some m' ↔ m = free ∧ m' = ⟨true⟩ := by
  obtain ⟨locked⟩ := m
  cases locked <;> simp [lock?, free, eq_comm]

/-- The state with another mutex at a place. -/
def State.withMutex (s : State) (r : Ref .mutex) (m : Sync.Mutex) : State :=
  Wait.withSync s fun t => { t with mutexes := t.mutexes.set r m }

/-- The mutex at the place is the one that was stored. -/
theorem State.withMutex_mutexes {s : State} {r : Ref .mutex} {m : Sync.Mutex}
    (h : s.sync.mutexes.get? r = some m) (m' : Sync.Mutex) :
    (s.withMutex r m').sync.mutexes.get? r = some m' :=
  Table.get?_set_of_some h m'

/-- The scheduler gives a mutex to a task that waits for it once it is free. -/
theorem Wait.poll?_mutex_eq_some {r : Ref .mutex} {s t : State} {a : Answer} :
    (Wait.mutex r).poll? s = some (a, t) ↔
      s.sync.mutexes.get? r = some .free ∧ a = .done ∧ t = s.withMutex r ⟨true⟩ := by
  -- a wait for a mutex is granted by the step of the mutex itself
  simp only [Wait.poll?, Wait.grant, Option.map_eq_some_iff, Option.bind_eq_some_iff,
    Prod.mk.injEq]
  constructor
  · rintro ⟨m', ⟨m, hm, hlock⟩, rfl, rfl⟩
    obtain ⟨rfl, rfl⟩ := Sync.Mutex.lock?_eq_some.mp hlock
    exact ⟨hm, rfl, rfl⟩
  · rintro ⟨hm, rfl, rfl⟩
    exact ⟨⟨true⟩, ⟨.free, hm, rfl⟩, rfl, rfl⟩

namespace Method

variable {s t : State}

/-! ### Mutexes -/

/-- Asking for a mutex that is free takes it at once. -/
theorem lockMutex_of_free {r : Ref .mutex} (h : s.sync.mutexes.get? r = some .free) :
    lockMutex r s = .done () (s.withMutex r ⟨true⟩) := by
  simp only [lockMutex, mutex, Eval.gets_bind_apply, h]
  rfl

/-- Asking for a mutex that is held is a wait for it. -/
theorem lockMutex_of_held {r : Ref .mutex} (h : s.sync.mutexes.get? r = some ⟨true⟩) :
    lockMutex r s = .wait (.mutex r) s fun _ t => .done () t := by
  simp only [lockMutex, mutex, Eval.gets_bind_apply, h]
  rfl

/-- A program's `lock` on a mutex that is free takes it at once. -/
theorem invoke_lock_of_free {E : Engine} {scope : Ref .scope} {r : Ref .mutex} {span : Span}
    (h : s.sync.mutexes.get? r = some .free) :
    Dispatch.invoke E scope (.mutex r) "lock" [] span s = .done .nil (s.withMutex r ⟨true⟩) := by
  -- the method takes no arguments, so it asks for the mutex at once
  have hlock : Dispatch.invoke E scope (.mutex r) "lock" [] span s =
      (do lockMutex r; return .nil : Eval Value) s := rfl
  rw [hlock, Eval.bind_of_done (lockMutex_of_free h)]
  rfl

/-- A program's `lock` on a mutex that is held waits for it. -/
theorem invoke_lock_of_held {E : Engine} {scope : Ref .scope} {r : Ref .mutex} {span : Span}
    (h : s.sync.mutexes.get? r = some ⟨true⟩) :
    Dispatch.invoke E scope (.mutex r) "lock" [] span s =
      .wait (.mutex r) s fun _ t => .done .nil t := by
  have hlock : Dispatch.invoke E scope (.mutex r) "lock" [] span s =
      (do lockMutex r; return .nil : Eval Value) s := rfl
  rw [hlock, Eval.bind_apply, lockMutex_of_held h]
  rfl

/-- A program's `unlock` of a mutex that is held releases it. -/
theorem invoke_unlock_of_held {E : Engine} {scope : Ref .scope} {r : Ref .mutex} {span : Span}
    (h : s.sync.mutexes.get? r = some ⟨true⟩) :
    Dispatch.invoke E scope (.mutex r) "unlock" [] span s = .done .nil (s.withMutex r .free) := by
  have hunlock : Dispatch.invoke E scope (.mutex r) "unlock" [] span s =
      unlockMutex ⟨scope, span, "unlock"⟩ r s := rfl
  -- the mutex is held, so its step is not refused
  rw [hunlock, unlockMutex, mutex, Eval.gets_bind_apply, h]
  rfl

/-! ### The lock of a condition variable -/

variable {lock : Sync.CondLock}

/-- Releasing the lock of a condition variable leaves all condition variables as they are. -/
theorem releaseLock_conds {o : Except Sync.Error Unit}
    (h : releaseLock lock s = .done o t) : t.sync.conds = s.sync.conds := by
  cases lock with
  | mutex r =>
    simp only [releaseLock, mutex, Eval.gets_bind_apply] at h
    -- a lock that was not held is an error that is answered, with the state as it was
    generalize Sync.Mutex.unlock _ = u at h
    cases u with
    | error e => cases h; rfl
    | ok m => cases h; rfl
  | rwLock r =>
    simp only [releaseLock, rwLock, Eval.gets_bind_apply] at h
    generalize Sync.RwLock.unlock _ = u at h
    cases u with
    | error e => cases h; rfl
    | ok l => cases h; rfl

/-- So does taking it back. If it is not free, that is a wait and no end. -/
theorem retakeLock_conds (h : retakeLock lock s = .done () t) :
    t.sync.conds = s.sync.conds := by
  cases lock with
  | mutex r =>
    simp only [retakeLock, lockMutex, mutex, Eval.gets_bind_apply] at h
    -- a lock that is not free makes the task wait, which is no end
    generalize Sync.Mutex.lock? _ = u at h
    cases u with
    | none => cases h
    | some m => cases h; rfl
  | rwLock r =>
    simp only [retakeLock, lockWrite, rwLock, Eval.gets_bind_apply] at h
    generalize Sync.RwLock.lock? _ = u at h
    cases u with
    | none => cases h
    | some l => cases h; rfl

/-- Taking a lock back is not a wait for a wakeup. -/
theorem retakeLock_ne_wakeup {r : Ref .cond} {resume : Answer → State → Run Unit} :
    retakeLock lock s ≠ .wait (.wakeup r) t resume := by
  intro h
  cases lock with
  | mutex r =>
    -- it answers at once, or waits for the mutex itself
    simp only [retakeLock, lockMutex, mutex, Eval.gets_bind_apply] at h
    generalize Sync.Mutex.lock? _ = u at h
    cases u <;> cases h
  | rwLock r =>
    simp only [retakeLock, lockWrite, rwLock, Eval.gets_bind_apply] at h
    generalize Sync.RwLock.lock? _ = u at h
    cases u <;> cases h

end Method

end ScriptEngine
