import ScriptEngine.Sync.Lock
import ScriptEngine.Value

/-!
# Condition variables

A task that waits registers and releases its lock in one step, then consumes a wakeup, then
takes the lock again. A signal grants one wakeup and a broadcast as many as there are
waiters, never more than are registered. Wakeups are counted and not addressed: if one is left
over from before, a task that registers consumes it at once.

Whether the tasks that are woken come first to what they were granted, or the one that woke
them goes on, is a matter of fairness. The host hands over the turn now and then: a
notification that wakes somebody lets the others go first, unless one did so within the last
millisecond.
-/

namespace ScriptEngine.Sync

/-- The lock a condition variable belongs to. -/
inductive CondLock where
  | mutex (r : Ref .mutex)
  | rwLock (r : Ref .rwLock)
deriving DecidableEq, Repr

/-- A condition variable: registered waiters, and wakeups granted but not yet consumed. -/
structure Cond where
  lock : CondLock
  waiters : Nat
  wakeups : Nat
  /-- The time on the clock from which a notification hands over the turn. -/
  fairFrom : Nat
deriving DecidableEq, Repr

namespace Cond

def fresh (lock : CondLock) : Cond := ⟨lock, 0, 0, 0⟩

def register (c : Cond) : Cond := { c with waiters := c.waiters + 1 }

/-- Consumes a wakeup, if there is one. -/
def consume? (c : Cond) : Option Cond :=
  if c.wakeups = 0 then none
  else some { c with wakeups := c.wakeups - 1, waiters := c.waiters - 1 }

/-- Nanoseconds for which no turn is handed over once one has been. -/
def fairPeriod : Nat := 1000000

/-- Whether a notification at a time wakes somebody and hands over the turn. -/
def handsOver (c : Cond) (now : Nat) : Bool := decide (c.wakeups < c.waiters ∧ c.fairFrom ≤ now)

/-- The given number of wakeups is pending, if that is more than there are. -/
def grant (c : Cond) (now wakeups : Nat) : Cond :=
  if c.wakeups < c.waiters then
    { c with wakeups, fairFrom := if c.fairFrom ≤ now then now + fairPeriod else c.fairFrom }
  else c

def signal (c : Cond) (now : Nat) : Cond := c.grant now (c.wakeups + 1)

def broadcast (c : Cond) (now : Nat) : Cond := c.grant now c.waiters

end Cond

end ScriptEngine.Sync
