import ScriptEngine.Method.Sequence

/-!
# Methods of files, sockets, loggers, record readers and writers, and pipes

What goes wrong on the host is a general fault with the host's message. A record writer
collects bytes and hands them on in blocks; the rest follows when it is flushed.
-/

namespace ScriptEngine.Method

open Eval

variable {α : Type}

/-- A result of the host, or the fault that tells why there is none. -/
def hostResult (site : CallSite) (r : Except Host.FileError α) : Eval α :=
  match r with
  | .ok a => pure a
  | .error e => site.general e.message

/-! ### Files -/

def file (r : Ref .file) : Eval Host.File :=
  gets fun s => (s.host.files.get? r).getD ⟨"", none, .read, false, 0, []⟩

def disk : Eval Host.Disk := gets (·.host.disk)

def setFile (r : Ref .file) (f : Host.File) : Eval Unit :=
  modify fun s => { s with host := { s.host with files := s.host.files.set r f } }

def setDisk (d : Host.Disk) : Eval Unit := modify fun s => { s with host := { s.host with disk := d } }

/-- Writes bytes to a file. -/
def writeBytes (r : Ref .file) (bytes : Host.Bytes) : Eval (Except Host.FileError Unit) := do
  match (← disk).write (← file r) bytes with
  | .ok (f, d) =>
    setFile r f
    setDisk d
    return .ok ()
  | .error e => return .error e

/-- Writes a text to a file and gives the number of bytes. -/
def writeText (site : CallSite) (r : Ref .file) (text : String) : Eval Value := do
  hostResult site (← writeBytes r (Host.encode text))
  return countValue text.utf8ByteSize

/-- A line without the line ends behind it. -/
def chomp (line : String) : String :=
  String.ofList (line.toList.reverse.dropWhile fun c => c == '\n' || c == '\r').reverse

def ofFile : MethodTable (Ref .file) := [
  ("read", plain fun site r => do
    let (bytes, f) ← hostResult site ((← disk).readAll (← file r))
    setFile r f
    return .text (← hostResult site (Host.decode bytes))),
  ("readLine", plain fun site r => do
    let (bytes, f) ← hostResult site ((← disk).readLine (← file r))
    setFile r f
    if bytes.isEmpty then return .nil
    else return .text (chomp (← hostResult site (Host.decode bytes)))),
  ("write", fun _ site r args => do
    site.exactly 1 args
    writeText site r (← CallSite.inspect (args.headD .nil))),
  ("writeLine", fun _ site r args => do
    site.exactly 1 args
    writeText site r ((← CallSite.inspect (args.headD .nil)) ++ "\n")),
  ("close", plain fun _ r => do
    setFile r { (← file r) with isOpen := false }
    return .nil),
  ("name", plain fun _ r => return .text (← file r).path)]

/-! ### Sockets -/

def socket (r : Ref .socket) : Eval Host.Socket :=
  gets fun s => (s.host.sockets.get? r).getD ⟨false, "", false⟩

def setSocket (r : Ref .socket) (k : Host.Socket) : Eval Unit :=
  modify fun s => { s with host := { s.host with sockets := s.host.sockets.set r k } }

/-- A new socket. -/
def newSocket (k : Host.Socket) : Eval Value :=
  modifyGet fun s =>
    let (r, t) := s.host.sockets.add k
    (.socket r, { s with host := { s.host with sockets := t } })

/-- Asks something of the network. -/
def request (site : CallSite) (q : Host.Request) : Eval (Option String) := do
  let answer ← modifyGet fun s =>
    (s.host.network s.host.requests q,
      { s with host := { s.host with requests := s.host.requests ++ [q] } })
  match answer with
  | .ok text => return text
  | .error message => site.general message

/-- Asks for something that only an open socket of one kind can do. -/
def requestOf (site : CallSite) (r : Ref .socket) (isListener : Bool) (refusal : String)
    (q : Host.Request) : Eval (Option String) := do
  let k ← socket r
  if k.isListener != isListener then site.general refusal
  else if !k.isOpen then site.general (k.address ++ " is closed")
  else request site q

/-- Sends or receives something over a connection. -/
def transfer (site : CallSite) (r : Ref .socket) (q : Host.Request) : Eval (Option String) :=
  requestOf site r false "listener cannot carry data" q

/-- The number of bytes a connection is read for if nothing is said about it. -/
def defaultRead : Nat := 4096

def ofSocket : MethodTable (Ref .socket) := [
  ("read", fun _ site r args => do
    site.oneOf [0, 1] args
    let max ← if args.isEmpty then pure defaultRead
      else do
        let n ← site.intArg args 0
        pure (if n < 0 then defaultRead else n.toInt.toNat)
    return .text ((← transfer site r (.read r.index max)).getD "")),
  ("readLine", plain fun site r => do
    match ← transfer site r (.readLine r.index) with
    | some line => return .text (chomp line)
    | none => return .nil),
  ("write", fun _ site r args => do
    site.exactly 1 args
    let text ← CallSite.inspect (args.headD .nil)
    discard <| transfer site r (.write r.index text)
    return countValue text.utf8ByteSize),
  ("accept", plain fun site r => do
    let address ← requestOf site r true "connection cannot accept" (.accept r.index)
    newSocket ⟨false, address.getD "", true⟩),
  ("close", plain fun _ r => do
    setSocket r { (← socket r) with isOpen := false }
    return .nil),
  ("addr", plain fun _ r => return .text (← socket r).address)]

/-! ### Loggers -/

/-- What a logger writes in front of a message: its label, unless that goes to the end, and
the date and time its flags ask for. -/
def logHeader (l : Logger) (now : Calendar.Moment) : String :=
  let has (flag : Int64) : Bool := l.flags &&& flag != 0
  let now := if has 32 then now.withOffset 0 else now
  let date := if has 1 then now.format "%Y/%m/%d " else ""
  let time :=
    if has 4 then now.format "%H:%M:%S%.6f "
    else if has 2 then now.format "%H:%M:%S "
    else ""
  if has 64 then date ++ time ++ l.label else l.label ++ date ++ time

def logger (r : Ref .logger) : Eval Logger :=
  gets fun s => (s.host.loggers.get? r).getD ⟨.discard, "", 0⟩

def setLogger (r : Ref .logger) (l : Logger) : Eval Unit :=
  modify fun s => { s with host := { s.host with loggers := s.host.loggers.set r l } }

/-- Writes an entry on a line of its own. -/
def logEntry (site : CallSite) (r : Ref .logger) (message : String) : Eval Value := do
  let l ← logger r
  let entry := logHeader l (← gets (·.now)) ++ message
  let line := if entry.endsWith "\n" then entry else entry ++ "\n"
  match l.sink with
  | .output => print line
  | .file f => hostResult site (← writeBytes f (Host.encode line))
  | .discard => pure ()
  return .nil

/-- Writes the texts of values as an entry. -/
def logValues (sep : String) : Method (Ref .logger) := fun _ site r args => do
  let parts ← gets fun s => args.map s.inspect
  logEntry site r (String.intercalate sep parts)

def ofLogger : MethodTable (Ref .logger) := [
  ("print", logValues ""),
  ("println", logValues " "),
  ("printf", fun _ site r args => do logEntry site r (← site.filled args)),
  ("prefix", plain fun _ r => return .text (← logger r).label),
  ("setPrefix", fun _ site r args => do
    site.exactly 1 args
    let label ← site.textArg args 0
    setLogger r { (← logger r) with label }
    return .nil),
  ("flags", plain fun _ r => return .int (← logger r).flags),
  ("setFlags", fun _ site r args => do
    site.exactly 1 args
    let flags ← site.intArg args 0
    setLogger r { (← logger r) with flags }
    return .nil)]

/-! ### Record readers -/

def setCsvReader (r : Ref .csvReader) (reader : CsvReader) : Eval Unit :=
  modify fun s => { s with host := { s.host with csvReaders := s.host.csvReaders.set r reader } }

/-- The next record of an open reader, and the reader behind it. The file is read when the
first record is. -/
def nextRecord (site : CallSite) (r : Ref .csvReader) (reader : CsvReader) :
    Eval (Option (List String) × CsvReader) := do
  if !reader.isOpen then site.general (reader.path ++ " is closed")
  else
    let start ← match reader.cursor with
      | some c => pure c
      | none => do
        let all ← hostResult site ((← disk).contents reader.file)
        pure (Host.Csv.Cursor.start all)
    let (record, next) := start.next reader.delimiter
    let reader := { reader with cursor := some next }
    setCsvReader r reader
    match record with
    | none => return (none, reader)
    | some fields =>
      match Host.Csv.texts 0 fields with
      | .ok texts => return (some texts, reader)
      | .error e => site.general (e.message start)

/-- The records that are left; `fuel` bounds their number. -/
def recordsWithin (site : CallSite) (r : Ref .csvReader) : Nat → CsvReader → Eval (List (List String))
  | 0, _ => return []
  | fuel + 1, reader => do
    match ← nextRecord site r reader with
    | (some record, reader) => return record :: (← recordsWithin site r fuel reader)
    | (none, _) => return []

/-- An array of texts. -/
def recordValue (texts : List String) : Eval Value := newArrayOf (texts.map .text)

/-- The records that are left. A record takes at least a byte. -/
def remainingRecords (site : CallSite) (r : Ref .csvReader) (reader : CsvReader) :
    Eval (List (List String)) := do
  match ← nextRecord site r reader with
  | (none, _) => return []
  | (some record, reader) =>
    let left := (reader.cursor.map (·.rest.length)).getD 0
    return record :: (← recordsWithin site r (left + 1) reader)

def ofCsvReader : MethodTable (Ref .csvReader) :=
  let withReader (f : CallSite → Ref .csvReader → CsvReader → Eval Value) : Method (Ref .csvReader) :=
    plain fun site r => do
      match ← gets (·.host.csvReaders.get? r) with
      | some reader => f site r reader
      | none => return .nil
  [("read", withReader fun site r reader => do
      match (← nextRecord site r reader).1 with
      | some texts => recordValue texts
      | none => return .nil),
   ("readAll", withReader fun site r reader => do
      newArrayOf (← mapList recordValue (← remainingRecords site r reader))),
   ("close", withReader fun _ r reader => do
      setCsvReader r { reader with isOpen := false }
      return .nil)]

/-! ### Record writers -/

def setPending (r : Ref .csvWriter) (pending : Host.Bytes) : Eval Unit :=
  modify fun s =>
    { s with host := { s.host with
      csvWriters := s.host.csvWriters.modify r fun w => { w with pending } } }

/-- Adds a record to the bytes of a writer, which are handed on in full blocks. -/
def writeRecord (site : CallSite) (r : Ref .csvWriter) (texts : List String) : Eval Unit := do
  match ← gets (·.host.csvWriters.get? r) with
  | none => return ()
  | some w =>
    let pending := w.pending ++ Host.Csv.record w.delimiter (texts.map Host.encode)
    let full := (pending.length - 1) / Host.blockSize * Host.blockSize
    if full > 0 then hostResult site (← writeBytes w.sink (pending.take full))
    setPending r (pending.drop full)

/-- Hands on all bytes of a writer. -/
def flushRecords (site : CallSite) (r : Ref .csvWriter) : Eval Unit := do
  match ← gets (·.host.csvWriters.get? r) with
  | none => return ()
  | some w =>
    if !w.pending.isEmpty then
      hostResult site (← writeBytes w.sink w.pending)
      setPending r []

/-- The texts of the items of an array or tuple. -/
def recordArg (site : CallSite) (v : Value) : Eval (List String) := do
  match v with
  | .array r => gets fun s => ((s.heap.arrays.get? r).getD #[]).toList.map s.inspect
  | .tuple r => gets fun s => ((s.heap.tuples.get? r).getD #[]).toList.map s.inspect
  | other => site.wrongType 0 "*Array" other

def ofCsvWriter : MethodTable (Ref .csvWriter) := [
  ("write", fun _ site r args => do
    site.exactly 1 args
    writeRecord site r (← recordArg site (args.headD .nil))
    return .nil),
  ("writeAll", fun _ site r args => do
    site.exactly 1 args
    let rows := args.headD .nil
    match rows, ← gets (·.items? rows) with
    | .text _, _ => site.wrongType 0 "*Array" rows
    | _, none => site.wrongType 0 "*Array" rows
    | _, some items =>
      let records ← mapList (recordArg site) items
      forList (writeRecord site r) records
      flushRecords site r
      return .nil),
  ("flush", plain fun site r => do
    flushRecords site r
    return .nil)]

/-! ### Pipes -/

def pipe (r : Ref .pipe) : Eval Sync.Pipe := gets fun s => (s.sync.pipes.get? r).getD .fresh

def setPipe (r : Ref .pipe) (p : Sync.Pipe) : Eval Unit :=
  modify fun s => { s with sync := { s.sync with pipes := s.sync.pipes.set r p } }

/-- The next chunk of a pipe, waiting for it; none at the end. -/
def readChunk (r : Ref .pipe) : Eval (Option String) := do
  match (← pipe r).read? with
  | some (chunk, p) =>
    setPipe r p
    return chunk
  | none =>
    match ← await (.chunk r) with
    | .text chunk => return chunk
    | _ => return none

/-- The chunks of a pipe up to its end, appended to a text. The first argument bounds their
number. -/
def readChunks (r : Ref .pipe) : Nat → String → Eval String
  | 0, text => return text
  | fuel + 1, text => do
    match ← readChunk r with
    | some chunk => readChunks r fuel (text ++ chunk)
    | none => return text

/-- More chunks than any pipe hands over. -/
def manyChunks : Nat := 1152921504606846976

def ofPipe : MethodTable (Ref .pipe) := [
  ("write", fun _ site r args => do
    site.exactly 1 args
    let text ← CallSite.inspect (args.headD .nil)
    match (← pipe r).write? text with
    | none => site.general "pipe is closed"
    | some (ticket, p) =>
      setPipe r p
      discard <| await (.chunkTaken r ticket)
      return countValue text.utf8ByteSize),
  ("read", plain fun _ r => return ((← readChunk r).map Value.text).getD .nil),
  ("readAll", plain fun _ r => return .text (← readChunks r manyChunks "")),
  ("close", plain fun _ r => do
    setPipe r (← pipe r).close
    return .nil)]

end ScriptEngine.Method
