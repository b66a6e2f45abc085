import ScriptEngine.Sync.Lock

/-!
# Channels and pipes

A channel is a queue of values with an optional capacity. To send is to obtain a sender, which
an open channel gives to everybody, and then to put the value into the queue. Who finds no room
there leaves the value as an *offer* and waits. A receiver that makes room *admits* the first
offer, and the one who made it puts it into the queue when it goes on. A channel of capacity zero
has no room but for receivers that are waiting already, and receivers take offers over directly.

Closing gives out no more senders and refuses what is on offer; what is queued can still be
received. A sender that was obtained before, and an offer that was admitted before, stay good.

A pipe passes texts from one task to another without a queue.
-/

namespace ScriptEngine.Sync

/-- A channel of values of type `α`. -/
structure Channel (α : Type) where
  /-- The number of values the queue may hold, if there is a bound. -/
  capacity : Option Nat
  queue : List α
  /-- Values of waiting senders, each with the ticket of its sender. -/
  offers : List (Nat × α)
  /-- Offers for which a receiver has made room, until their senders go on. -/
  admitted : List (Nat × α)
  /-- Receivers that are waiting. -/
  waiting : Nat
  closed : Bool
  nextTicket : Nat

namespace Channel

variable {α : Type}

def fresh (capacity : Option Nat) : Channel α := ⟨capacity, [], [], [], 0, false, 0⟩

/-- Whether the queue takes another value: within the capacity, or for a receiver that is
waiting and has not been told of the end. -/
def hasRoom (c : Channel α) : Bool :=
  match c.capacity with
  | none => true
  | some 0 => !c.closed && decide (c.queue.length < c.waiting)
  | some n => decide (c.queue.length < n)

/-- The length a program sees: what is handed to waiting receivers does not count. -/
def size (c : Channel α) : Nat :=
  match c.capacity with
  | some 0 => 0
  | _ => c.queue.length

/-- Obtains a sender, which is there as long as the channel is open. -/
def sender (c : Channel α) : Except Error Unit := if c.closed then .error .closed else .ok ()

/-- Puts a value into the queue if there is room. It takes a sender to do so; one that has been
obtained stays good when the channel is closed. -/
def put? (c : Channel α) (v : α) : Option (Channel α) :=
  if c.hasRoom then some { c with queue := c.queue ++ [v] } else none

/-- Sends without waiting: whether there was room. -/
def trySend (c : Channel α) (v : α) : Except Error (Bool × Channel α) := do
  c.sender
  match c.put? v with
  | some c => return (true, c)
  | none => return (false, c)

/-- Starts to send: done at once if there is room, else with the ticket of an offer. -/
def send (c : Channel α) (v : α) : Except Error (Option Nat × Channel α) := do
  c.sender
  match c.put? v with
  | some c => return (none, c)
  | none =>
    return (some c.nextTicket,
      { c with offers := c.offers ++ [(c.nextTicket, v)], nextTicket := c.nextTicket + 1 })

/-- Takes an offer back. -/
def withdraw (c : Channel α) (ticket : Nat) : Channel α :=
  { c with
    offers := c.offers.filter (·.1 != ticket)
    admitted := c.admitted.filter (·.1 != ticket) }

/-- What has become of an offer: `none` as long as it stands. One that was admitted goes into
the queue, even if the channel has been closed meanwhile; one that was not is refused then. -/
def settled? (c : Channel α) (ticket : Nat) : Option (Except Error Unit × Channel α) :=
  match c.admitted.find? (·.1 == ticket) with
  | some (_, v) =>
    match c.put? v with
    | some c => some (.ok (), c.withdraw ticket)
    | none => if c.closed then some (.error .closed, c.withdraw ticket) else none
  | none =>
    if c.offers.any (·.1 == ticket) then
      if c.closed then some (.error .closed, c.withdraw ticket) else none
    else some (.ok (), c)

/-- Admits the first offer if there is room for it. -/
def admitFirst (c : Channel α) : Channel α :=
  match c.offers with
  | offer :: rest =>
    if !c.closed && c.hasRoom then { c with offers := rest, admitted := c.admitted ++ [offer] }
    else c
  | [] => c

/-- Takes the next value without waiting. -/
def take? (c : Channel α) : Option (α × Channel α) :=
  match c.queue with
  | v :: rest => some (v, admitFirst { c with queue := rest })
  | [] =>
    match c.offers with
    | (_, v) :: rest =>
      if c.capacity == some 0 && !c.closed then some (v, { c with offers := rest }) else none
    | [] => none

/-- Registers a receiver that waits. -/
def await (c : Channel α) : Channel α := { c with waiting := c.waiting + 1 }

/-- Takes the next value for a receiver that has been waiting: `none` as long as it has to
wait on, `some none` at the end of a closed channel. -/
def receive? (c : Channel α) : Option (Option α × Channel α) :=
  let left := { c with waiting := c.waiting - 1 }
  match left.take? with
  | some (v, c) => some (some v, c)
  | none => if c.closed then some (none, left) else none

def close (c : Channel α) : Channel α := { c with closed := true }

end Channel

/-- A pipe: chunks of waiting writers, each with the ticket of its writer. -/
structure Pipe where
  chunks : List (Nat × String)
  closed : Bool
  nextTicket : Nat

namespace Pipe

def fresh : Pipe := ⟨[], false, 0⟩

/-- Offers a chunk. A closed pipe takes none. -/
def write? (p : Pipe) (text : String) : Option (Nat × Pipe) :=
  if p.closed then none
  else
    some (p.nextTicket,
      { p with chunks := p.chunks ++ [(p.nextTicket, text)], nextTicket := p.nextTicket + 1 })

/-- Whether a chunk has been taken. -/
def isTaken (p : Pipe) (ticket : Nat) : Bool := !p.chunks.any (·.1 == ticket)

/-- The next chunk, or the end once the pipe is closed and nothing is on offer; `none` as
long as the reader has to wait. -/
def read? (p : Pipe) : Option (Option String × Pipe) :=
  match p.chunks with
  | (_, text) :: rest => some (some text, { p with chunks := rest })
  | [] => if p.closed then some (none, p) else none

def close (p : Pipe) : Pipe := { p with closed := true }

end Pipe

end ScriptEngine.Sync
