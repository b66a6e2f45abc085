import ScriptEngine.Method.Resource
import ScriptEngine.Method.Sync

/-!
# Making things to share

Built-in functions that make locks, channels, files, loggers, record readers and writers,
pipes and database handles.
-/

namespace ScriptEngine.Builtin

open Eval

/-! ### Things of the scheduler -/

/-- Adds a thing to a table of the synchronisation tables. -/
def addSync {s : Store} {α : Type} (get : SyncTables → Table s α)
    (set : SyncTables → Table s α → SyncTables) (a : α) : Eval (Ref s) :=
  modifyGet fun st =>
    let (r, t) := (get st.sync).add a
    (r, { st with sync := set st.sync t })

def newMutex : Eval Value := do
  return .mutex (← addSync (·.mutexes) (fun s t => { s with mutexes := t }) .free)

def newRwLock : Eval Value := do
  return .rwLock (← addSync (·.rwLocks) (fun s t => { s with rwLocks := t }) .free)

/-- A condition variable of a lock. -/
def newCond (site : CallSite) (v : Value) : Eval Value := do
  let add (lock : Sync.CondLock) : Eval Value := do
    return .cond (← addSync (·.conds) (fun s t => { s with conds := t }) (.fresh lock))
  match v with
  | .mutex r => add (.mutex r)
  | .rwLock r => add (.rwLock r)
  | other => site.wrongType 0 "*Mutex|*RWMutex" other

def newOnce : Eval Value := do
  return .once (← addSync (·.onces) (fun s t => { s with onces := t }) .fresh)

def newWaitGroup : Eval Value := do
  return .waitGroup (← addSync (·.groups) (fun s t => { s with groups := t }) .fresh)

/-- A channel, whose capacity may be bounded. -/
def newChannel (site : CallSite) (args : List Value) : Eval Value := do
  let add (capacity : Option Nat) : Eval Value := do
    return .channel (← addSync (·.channels) (fun s t => { s with channels := t }) (.fresh capacity))
  match args with
  | [] => add none
  | .int n :: _ => if 0 ≤ n then add (some n.toInt.toNat) else site.wrongType 0 "*Integer|*UInteger" (.int n)
  | .uint n :: _ => add (some n.toNat)
  | other :: _ => site.wrongType 0 "*Integer|*UInteger" other

def newPipe : Eval Value := do
  return .pipe (← addSync (·.pipes) (fun s t => { s with pipes := t }) .fresh)

/-! ### Things of the host -/

/-- Adds a thing to a table of the host. -/
def addHost {s : Store} {α : Type} (get : HostTables → Table s α)
    (set : HostTables → Table s α → HostTables) (a : α) : Eval (Ref s) :=
  modifyGet fun st =>
    let (r, t) := (get st.host).add a
    (r, { st with host := set st.host t })

def addFile (f : Host.File) : Eval (Ref .file) :=
  addHost (·.files) (fun h t => { h with files := t }) f

/-- Opens a file of the disk. -/
def openHandle (site : CallSite) (path : String) (mode : Host.Mode) : Eval Host.File := do
  match (← Method.disk).openFile path mode with
  | .ok (f, d) =>
    Method.setDisk d
    return f
  | .error e => site.fail (.fileOpen (path ++ ": " ++ e.message))

/-- Opens a file in the mode of a short name. -/
def openFile (site : CallSite) (args : List Value) : Eval Value := do
  let path ← site.textArg args 0
  let mode ← if args.length = 2 then
      let name ← site.textArg args 1
      ofOption (Host.Mode.ofName? name) (.fileMode name) site.span
    else pure .read
  return .file (← addFile (← openHandle site path mode))

/-- The delimiter of records: a text of one byte, and a comma if it is left out. -/
def delimiterArg (site : CallSite) (args : List Value) : Eval UInt8 := do
  if args.length ≤ 1 then return 44
  else
    let text ← site.textArg args 1
    match Host.encode text with
    | [b] => return b
    | bytes => site.fail (.inputLength site.name 1 bytes.length)

def newCsvReader (site : CallSite) (args : List Value) : Eval Value := do
  let path ← site.textArg args 0
  let delimiter ← delimiterArg site args
  let f ← openHandle site path .read
  return .csvReader (← addHost (·.csvReaders) (fun h t => { h with csvReaders := t })
    ⟨path, delimiter, none, f, true⟩)

/-- A writer of records over an open file, or over a new one. -/
def newCsvWriter (site : CallSite) (args : List Value) : Eval Value := do
  let delimiter ← delimiterArg site args
  let sink ← match args.headD .nil with
    | .file r => pure r
    | .text path => do addFile (← openHandle site path .write)
    | other => site.wrongType 0 "*File|*String" other
  return .csvWriter (← addHost (·.csvWriters) (fun h t => { h with csvWriters := t })
    ⟨sink, delimiter, []⟩)

/-- The flags of a logger that shows date and time. -/
def standardFlags : Int64 := 3

/-- A logger for the program's output or for a given destination. -/
def newLogger (site : CallSite) (args : List Value) : Eval Value := do
  let add (l : Logger) : Eval Value := do
    return .logger (← addHost (·.loggers) (fun h t => { h with loggers := t }) l)
  match args with
  | [] => add ⟨.output, "", standardFlags⟩
  | out :: _ =>
    let sink ← match out with
      | .nil => pure LogSink.output
      | .file r => pure (LogSink.file r)
      | .text "stdout" => pure LogSink.output
      | .text "stderr" => pure LogSink.discard
      | other => site.wrongType 0 "Writable" other
    let label ← site.textArg args 1
    let flags ← site.intArg args 2
    add ⟨sink, label, flags⟩

/-- Opens a database with a driver. -/
def openDatabase (site : CallSite) (args : List Value) : Eval Value := do
  let driver ← site.textArg args 0
  let source ← site.textArg args 1
  match Host.Database.open? driver source with
  | .ok d => return .database (← addHost (·.databases) (fun h t => { h with databases := t }) d)
  | .error e => site.fail (.database e.message)

/-- The address of a socket, behind the name of one of the networks. -/
def addressArg (networks : List String) (site : CallSite) (args : List Value) : Eval String := do
  site.exactly 2 args
  let network ← site.textArg args 0
  if !networks.contains network then site.invalid network
  else site.textArg args 1

/-- A connection to an address, which is that of the socket unless the network knows better. -/
def dial (networks : List String) (transport : Host.Transport) (site : CallSite)
    (args : List Value) : Eval Value := do
  let address ← addressArg networks site args
  let peer ← Method.request site (.dial transport address)
  Method.newSocket ⟨false, peer.getD address, true⟩

/-- A listener at an address. -/
def listen (networks : List String) (transport : Host.Transport) (site : CallSite)
    (args : List Value) : Eval Value := do
  let address ← addressArg networks site args
  let own ← Method.request site (.listen transport address)
  Method.newSocket ⟨true, own.getD address, true⟩

def streamNetworks : List String := ["tcp", "tcp4", "tcp6"]

def packetNetworks : List String := ["udp", "udp4", "udp6"]

def pathNetworks : List String := ["unix"]

end ScriptEngine.Builtin
