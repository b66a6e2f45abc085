import ScriptEngine.Checked

/-!
# Locks

Mutexes, reader/writer locks, gates that open once, and countdown groups, each as a state
with the steps a task can take on it. A step that has to wait answers `none`; one that is
used wrongly answers with an error and changes nothing.
-/

namespace ScriptEngine.Sync

/-- A step that is not allowed in the present state. -/
inductive Error where
  | notLocked
  | notReadLocked
  | negativeCounter
  | closed
deriving DecidableEq, Repr

def Error.message : Error → String
  | notLocked => "unlock of unlocked mutex"
  | notReadLocked => "read unlock of unlocked rwmutex"
  | negativeCounter => "negative WaitGroup counter"
  | closed => "send on closed channel"

/-- A lock for one task at a time. -/
structure Mutex where
  locked : Bool
deriving DecidableEq, Repr, Inhabited

namespace Mutex

def free : Mutex := ⟨false⟩

/-- Takes the lock if it is free. -/
def lock? (m : Mutex) : Option Mutex := if m.locked then none else some ⟨true⟩

def unlock (m : Mutex) : Except Error Mutex := if m.locked then .ok ⟨false⟩ else .error .notLocked

end Mutex

/-- A lock for one writer or any number of readers. -/
structure RwLock where
  writer : Bool
  readers : Nat
deriving DecidableEq, Repr, Inhabited

namespace RwLock

def free : RwLock := ⟨false, 0⟩

/-- Admits a writer if nobody is inside. -/
def lock? (l : RwLock) : Option RwLock :=
  if l.writer || 0 < l.readers then none else some { l with writer := true }

def unlock (l : RwLock) : Except Error RwLock :=
  if l.writer then .ok { l with writer := false } else .error .notLocked

/-- Admits a reader if no writer is inside. -/
def readLock? (l : RwLock) : Option RwLock :=
  if l.writer then none else some { l with readers := l.readers + 1 }

def readUnlock (l : RwLock) : Except Error RwLock :=
  if l.readers = 0 then .error .notReadLocked else .ok { l with readers := l.readers - 1 }

end RwLock

/-- A gate that lets the first call through. While that call runs, others wait. -/
structure Once where
  done : Bool
  running : Bool
deriving DecidableEq, Repr, Inhabited

namespace Once

def fresh : Once := ⟨false, false⟩

/-- Enters the gate: `true` for the first one, `false` for later ones, and waiting while the
first one runs. -/
def enter? (o : Once) : Option (Bool × Once) :=
  if o.running then none
  else if o.done then some (false, o)
  else some (true, ⟨true, true⟩)

def leave (o : Once) : Once := { o with running := false }

end Once

/-- A counter to wait for. -/
structure WaitGroup where
  count : Int64
deriving DecidableEq, Repr, Inhabited

namespace WaitGroup

def fresh : WaitGroup := ⟨0⟩

/-- Adds to the counter; a negative counter is refused. There is no answer at all if the sum
leaves the 64 bits. -/
def add (g : WaitGroup) (delta : Int64) : Option (Except Error WaitGroup) :=
  (checkedAdd g.count delta).map fun next =>
    if next < 0 then .error .negativeCounter else .ok ⟨next⟩

def isZero (g : WaitGroup) : Bool := decide (g.count ≤ 0)

end WaitGroup

end ScriptEngine.Sync
