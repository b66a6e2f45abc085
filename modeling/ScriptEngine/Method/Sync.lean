import ScriptEngine.Method.Sequence

/-!
# Methods of locks, gates, groups and channels

A method that has to wait makes only its own task wait. Methods that ask without waiting let
other tasks have a turn first, so that a task which asks again and again does not keep the
others from what it asks for.
-/

namespace ScriptEngine.Method

open Eval

/-- The outcome of a step that may be used wrongly. -/
def stepResult {α : Type} (site : CallSite) (r : Except Sync.Error α)
    (store : α → Eval Value) : Eval Value :=
  match r with
  | .ok a => store a
  | .error e => site.general e.message

/-! ### Locks -/

def setMutex (r : Ref .mutex) (m : Sync.Mutex) : Eval Unit :=
  modify fun s => { s with sync := { s.sync with mutexes := s.sync.mutexes.set r m } }

def setRwLock (r : Ref .rwLock) (l : Sync.RwLock) : Eval Unit :=
  modify fun s => { s with sync := { s.sync with rwLocks := s.sync.rwLocks.set r l } }

def setCond (r : Ref .cond) (c : Sync.Cond) : Eval Unit :=
  modify fun s => { s with sync := { s.sync with conds := s.sync.conds.set r c } }

def mutex (r : Ref .mutex) : Eval Sync.Mutex := gets fun s => (s.sync.mutexes.get? r).getD .free

def rwLock (r : Ref .rwLock) : Eval Sync.RwLock :=
  gets fun s => (s.sync.rwLocks.get? r).getD .free

/-- Takes a mutex, waiting for it if need be. -/
def lockMutex (r : Ref .mutex) : Eval Unit := do
  match (← mutex r).lock? with
  | some m => setMutex r m
  | none => discard <| await (.mutex r)

/-- Takes a lock for writing, waiting for it if need be. -/
def lockWrite (r : Ref .rwLock) : Eval Unit := do
  match (← rwLock r).lock? with
  | some l => setRwLock r l
  | none => discard <| await (.write r)

/-- Releases a mutex. -/
def unlockMutex (site : CallSite) (r : Ref .mutex) : Eval Value := do
  stepResult site (← mutex r).unlock fun m => do
    setMutex r m
    return .nil

def ofMutex : MethodTable (Ref .mutex) := [
  ("lock", plain fun _ r => do
    lockMutex r
    return .nil),
  ("unlock", plain unlockMutex),
  ("tryLock", plain fun _ r => do
    yieldTurn
    match (← mutex r).lock? with
    | some m =>
      setMutex r m
      return .bool true
    | none => return .bool false)]

def ofRwLock : MethodTable (Ref .rwLock) := [
  ("lock", plain fun _ r => do
    lockWrite r
    return .nil),
  ("unlock", plain fun site r => do
    stepResult site (← rwLock r).unlock fun l => do
      setRwLock r l
      return .nil),
  ("rLock", plain fun _ r => do
    match (← rwLock r).readLock? with
    | some l => setRwLock r l
    | none => discard <| await (.read r)
    return .nil),
  ("rUnlock", plain fun site r => do
    stepResult site (← rwLock r).readUnlock fun l => do
      setRwLock r l
      return .nil)]

/-! ### Condition variables -/

/-- Releases the lock of a condition variable. -/
def releaseLock : Sync.CondLock → Eval (Except Sync.Error Unit)
  | .mutex r => do
    match (← mutex r).unlock with
    | .ok m =>
      setMutex r m
      return .ok ()
    | .error e => return .error e
  | .rwLock r => do
    match (← rwLock r).unlock with
    | .ok l =>
      setRwLock r l
      return .ok ()
    | .error e => return .error e

/-- Takes the lock of a condition variable. -/
def retakeLock : Sync.CondLock → Eval Unit
  | .mutex r => lockMutex r
  | .rwLock r => lockWrite r

/-- Registers and releases the lock, consumes a wakeup, waiting for one if need be, and takes
the lock again. -/
def waitOn (site : CallSite) (r : Ref .cond) : Eval Value := do
  match ← gets (·.sync.conds.get? r) with
  | none => return .nil
  | some c =>
    match ← releaseLock c.lock with
    | .error e => site.general e.message
    | .ok () =>
      match c.register.consume? with
      | some c => setCond r c
      | none =>
        setCond r c.register
        discard <| await (.wakeup r)
      retakeLock c.lock
      return .nil

/-- Grants wakeups. If that hands over the turn, the tasks that are woken go on first. -/
def notify (r : Ref .cond) (f : Sync.Cond → Nat → Sync.Cond) : Eval Value := do
  match ← gets (·.sync.conds.get? r) with
  | none => return .nil
  | some c =>
    let now ← gets (·.clock)
    setCond r (f c now)
    if c.handsOver now then yieldTurn
    return .nil

def ofCond : MethodTable (Ref .cond) := [
  ("wait", plain waitOn),
  ("signal", plain fun _ r => notify r Sync.Cond.signal),
  ("broadcast", plain fun _ r => notify r Sync.Cond.broadcast)]

/-! ### Gates and groups -/

def setOnce (r : Ref .once) (f : Sync.Once → Sync.Once) (s : State) : State :=
  { s with sync := { s.sync with onces := s.sync.onces.modify r f } }

/-- Enters a gate: whether the caller is the first. -/
def enterOnce (r : Ref .once) : Eval Bool := do
  match ((← gets (·.sync.onces.get? r)).getD .fresh).enter? with
  | some (isFirst, o) =>
    modify (setOnce r fun _ => o)
    return isFirst
  | none =>
    match ← await (.gate r) with
    | .first isFirst => return isFirst
    | _ => return false

def ofOnce : MethodTable (Ref .once) := [
  ("do", fun E site r args => do
    site.exactly 1 args
    let callee := args.headD .nil
    if !callee.isCallable then site.wrongType 0 "*Function" callee
    else if ← enterOnce r then
      ensuring (site.call E callee []) (setOnce r Sync.Once.leave)
    else return .nil)]

def setGroup (r : Ref .waitGroup) (g : Sync.WaitGroup) : Eval Unit :=
  modify fun s => { s with sync := { s.sync with groups := s.sync.groups.set r g } }

/-- Adds to the counter of a group. The host cannot carry on if the sum leaves the 64 bits. -/
def addToGroup (site : CallSite) (r : Ref .waitGroup) (delta : Int64) : Eval Value := do
  let g := (← gets (·.sync.groups.get? r)).getD .fresh
  match g.add delta with
  | none => abort "attempt to add with overflow"
  | some outcome =>
    stepResult site outcome fun g => do
      setGroup r g
      return .nil

def ofWaitGroup : MethodTable (Ref .waitGroup) := [
  ("add", fun _ site r args => do
    site.exactly 1 args
    let delta ← site.intArg args 0
    addToGroup site r delta),
  ("done", plain fun site r => addToGroup site r (-1)),
  ("wait", plain fun _ r => do
    let g := (← gets (·.sync.groups.get? r)).getD .fresh
    if !g.isZero then discard <| await (.zero r)
    return .nil)]

/-! ### Channels -/

def channel (r : Ref .channel) : Eval (Sync.Channel Value) :=
  gets fun s => (s.sync.channels.get? r).getD (.fresh none)

def setChannel (r : Ref .channel) (c : Sync.Channel Value) : Eval Unit :=
  modify fun s => { s with sync := { s.sync with channels := s.sync.channels.set r c } }

/-- Takes the next value of a channel, waiting for it; none at the end. -/
def receive (r : Ref .channel) : Eval (Option Value) := do
  let c ← channel r
  match c.take? with
  | some (v, c) =>
    setChannel r c
    return some v
  | none =>
    if c.closed then return none
    else
      setChannel r c.await
      match ← await (.receive r) with
      | .value v => return v
      | _ => return none

def ofChannel : MethodTable (Ref .channel) := [
  ("send", fun _ site r args => do
    site.exactly 1 args
    stepResult site ((← channel r).send (args.headD .nil)) fun (ticket, c) => do
      setChannel r c
      match ticket with
      | none => return .nil
      | some ticket =>
        match ← await (.offer r ticket) with
        | .failed e => site.general e.message
        | _ => return .nil),
  ("recv", plain fun _ r => return (← receive r).getD .nil),
  ("trySend", fun _ site r args => do
    site.exactly 1 args
    yieldTurn
    stepResult site ((← channel r).trySend (args.headD .nil)) fun (sent, c) => do
      setChannel r c
      return .bool sent),
  ("tryRecv", plain fun _ r => do
    yieldTurn
    match (← channel r).take? with
    | some (v, c) =>
      setChannel r c
      return v
    | none => return .nil),
  ("close", plain fun _ r => do
    setChannel r (← channel r).close
    return .nil),
  ("len", plain fun _ r => return countValue (← channel r).size)]

end ScriptEngine.Method
