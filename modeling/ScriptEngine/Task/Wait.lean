import ScriptEngine.Machine.Eval

/-!
# When a wait ends

`Wait.poll? w s` is the one rule for every kind of wait: `none` as long as the task has to
wait on, and otherwise the answer it gets, with the state in which it has taken what it
waited for.
-/

namespace ScriptEngine.Wait

/-- The state with other synchronisation tables. -/
def withSync (s : State) (f : SyncTables → SyncTables) : State := { s with sync := f s.sync }

/-- A lock that is taken as soon as it can be. -/
def grant {α : Type} (o : Option α) (store : α → State) : Option (Answer × State) :=
  o.map fun a => (.done, store a)

/-- The answer to a wait that can end in a state. -/
def poll? (w : Wait) (s : State) : Option (Answer × State) :=
  match w with
  | turn => some (.done, s)
  | mutex r =>
    grant ((s.sync.mutexes.get? r).bind (·.lock?)) fun m =>
      withSync s fun t => { t with mutexes := t.mutexes.set r m }
  | write r =>
    grant ((s.sync.rwLocks.get? r).bind (·.lock?)) fun l =>
      withSync s fun t => { t with rwLocks := t.rwLocks.set r l }
  | read r =>
    grant ((s.sync.rwLocks.get? r).bind (·.readLock?)) fun l =>
      withSync s fun t => { t with rwLocks := t.rwLocks.set r l }
  | wakeup r =>
    grant ((s.sync.conds.get? r).bind (·.consume?)) fun c =>
      withSync s fun t => { t with conds := t.conds.set r c }
  | gate r =>
    ((s.sync.onces.get? r).bind (·.enter?)).map fun (isFirst, o) =>
      (.first isFirst, withSync s fun t => { t with onces := t.onces.set r o })
  | zero r =>
    match s.sync.groups.get? r with
    | some g => if g.isZero then some (.done, s) else none
    | none => some (.done, s)
  | offer r ticket =>
    ((s.sync.channels.get? r).bind (·.settled? ticket)).map fun (result, c) =>
      let s := withSync s fun t => { t with channels := t.channels.set r c }
      match result with
      | .ok () => (.done, s)
      | .error e => (.failed e, s)
  | receive r =>
    ((s.sync.channels.get? r).bind (·.receive?)).map fun (v, c) =>
      (.value v, withSync s fun t => { t with channels := t.channels.set r c })
  | chunkTaken r ticket =>
    match s.sync.pipes.get? r with
    | some p => if p.isTaken ticket then some (.done, s) else none
    | none => some (.done, s)
  | chunk r =>
    ((s.sync.pipes.get? r).bind (·.read?)).map fun (text, p) =>
      (.text text, withSync s fun t => { t with pipes := t.pipes.set r p })
  | clock time => if time ≤ s.clock then some (.done, s) else none

/-- The time at which a wait ends by itself. -/
def wakeTime? : Wait → Option Nat
  | clock time => some time
  | _ => none

end ScriptEngine.Wait
