/-!
# Sockets

Connections and the listeners that wait for them. What a network answers to a request is up to the
host, and depends on what has been asked of it before; so a `Network` is an oracle that is given the
requests so far. It tells the message of the host where a request fails.
-/

namespace ScriptEngine.Host

/-- The kinds of addresses. -/
inductive Transport where
  | stream
  | packet
  | path
deriving DecidableEq, Repr

/-- What a program asks of the network. A socket goes by its number. -/
inductive Request where
  | dial (transport : Transport) (address : String)
  | listen (transport : Transport) (address : String)
  | accept (socket : Nat)
  | read (socket : Nat) (max : Nat)
  | readLine (socket : Nat)
  | write (socket : Nat) (text : String)
deriving DecidableEq, Repr

/-- The address of a new socket or the text that has been read, and nothing at the end of a connection;
or the message of the host. -/
abbrev Reply := Except String (Option String)

/-- What the network answers to a request after others. -/
abbrev Network := List Request → Request → Reply

/-- No network. -/
def Network.unreachable : Network := fun _ _ => .error "Network is unreachable (os error 101)"

structure Socket where
  isListener : Bool
  address : String
  isOpen : Bool

end ScriptEngine.Host
