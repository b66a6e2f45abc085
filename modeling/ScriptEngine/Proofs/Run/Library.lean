import ScriptEngine.Builtin.Library
import ScriptEngine.Proofs.Run.Methods

/-!
# Built-in functions

The functions of the library make values, print, wait and open things of the host; only
callbacks lead back into the program. What is read from a document is built item by item, so
the lemmas about documents follow their structure.
-/

namespace ScriptEngine

open Eval

variable {E : Engine} {K : Knowledge} {x : Site} {c : Ref .scope} {α : Type}

/-! ### Documents -/

namespace Json

mutual

/-- A value is made of a document item by item, which is a recursion of its three parts. -/
@[grind ←] theorem toValue_built : ∀ j : Json, Built E K x c (toValue j)
  | .null | .bool _ | .int _ | .real _ | .text _ => by
    simp only [toValue]
    exact .pure _
  | .array items => by
    simp only [toValue]
    exact .bind (itemValues_built items) fun _ => (newArrayOf_quiet _).built
  | .object members => by
    simp only [toValue]
    exact .bind (memberValues_built members) fun _ => (newHash_quiet _).built

theorem itemValues_built : ∀ items : List Json, Built E K x c (itemValues items)
  | [] => by
    simp only [itemValues]
    exact .pure _
  | j :: rest => by
    simp only [itemValues]
    exact .bind (toValue_built j) fun _ => .bind (itemValues_built rest) fun _ => .pure _

theorem memberValues_built : ∀ members : List (String × Json), Built E K x c (memberValues members)
  | [] => by
    simp only [memberValues]
    exact .pure _
  | (_, j) :: rest => by
    simp only [memberValues]
    exact .bind (toValue_built j) fun _ => .bind (memberValues_built rest) fun _ => .pure _

end

end Json

namespace Xml

mutual

/-- The same of elements, whose contents are texts, parts or several of a name. -/
theorem toValue_built : ∀ content : Content, Built E K x c (toValue content)
  | .nothing | .text _ => by
    simp only [toValue]
    exact .pure _
  | .parts members => by
    simp only [toValue]
    exact .bind (memberValues_built members) fun _ => (newHash_quiet _).built
  | .several items => by
    simp only [toValue]
    exact .bind (itemValues_built items) fun _ => (newArrayOf_quiet _).built

theorem itemValues_built : ∀ items : List Content, Built E K x c (itemValues items)
  | [] => by
    simp only [itemValues]
    exact .pure _
  | content :: rest => by
    simp only [itemValues]
    exact .bind (toValue_built content) fun _ => .bind (itemValues_built rest) fun _ => .pure _

theorem memberValues_built :
    ∀ members : List (String × Content), Built E K x c (memberValues members)
  | [] => by
    simp only [memberValues]
    exact .pure _
  | (_, content) :: rest => by
    simp only [memberValues]
    exact .bind (toValue_built content) fun _ => .bind (memberValues_built rest) fun _ => .pure _

end

@[grind ←] theorem documentValue_built (name : List Char) (content : Content) :
    Built E K x c (documentValue name content) :=
  .bind (toValue_built content) fun _ => (newHash_quiet _).built

end Xml

namespace Builtin

variable (site : CallSite) (args : List Value) (position : Nat) (v : Value)

/-! ### Conversions -/

/-- A conversion that is not supported fails. -/
@[grind ←] theorem unsupported_built (input : String) :
    Built E K x c (unsupported site input : Eval α) :=
  .fail _ _

/-- The conversions look at the kind of the value, and answer or fail. -/
@[grind ←] theorem toInt_built : Built E K x c (toInt site v) := by
  unfold toInt
  split <;> grind

@[grind ←] theorem toUInt_built : Built E K x c (toUInt site v) := by
  unfold toUInt
  split <;> grind

@[grind ←] theorem toFloat_built : Built E K x c (toFloat site v) := by
  unfold toFloat
  split <;> grind

@[grind ←] theorem toDecimal_built : Built E K x c (toDecimal site v) := by
  unfold toDecimal
  split <;> grind

/-- The items of a collection; those of a hash are made into pairs. -/
@[grind ←] theorem itemsOf_built : Built E K x c (itemsOf site v) := by
  unfold itemsOf
  split <;> grind

@[grind ←] theorem entryOf_built : Built E K x c (entryOf site v) := by
  grind [entryOf]

/-- Pairs become entries one by one. -/
@[grind ←] theorem ofPairs_built (pairs : List Value) : Built E K x c (ofPairs site pairs) := by
  grind [ofPairs]

@[grind ←] theorem toHash_built : Built E K x c (toHash site v) := by
  unfold toHash
  split <;> grind

/-! ### General functions -/

@[grind ←] theorem joined_built : Built E K x c (joined args) := .gets _

/-- What has a length is read, all else is refused. -/
@[grind ←] theorem len_built : Built E K x c (len site v) := by
  unfold len
  split <;> grind

@[grind ←] theorem reverse_built : Built E K x c (reverse site v) := by
  unfold reverse
  split <;> grind

@[grind ←] theorem choose_built : Built E K x c (choose site args) := by
  unfold choose
  split <;> grind

@[grind ←] theorem flattened_built : Built E K x c (flattened v) := by
  unfold flattened
  split <;> grind

/-- An array of many items is made at once, after its length has been checked. -/
@[grind ←] theorem filledArray_built (count : Int64) :
    Built E K x c (filledArray site count args) := by
  grind [filledArray]

@[grind ←] theorem lengthArg_built : Built E K x c (lengthArg site v) := by
  unfold lengthArg
  split <;> grind

/-- The integers from one end to the other are counted, and put into an array. -/
@[grind ←] theorem range_built : Built E K x c (range site args) := by
  grind [range, stepArg, multiplesBelow]

@[grind ←] theorem abs_built : Built E K x c (abs site v) := by
  unfold abs
  split <;> grind

@[grind ←] theorem chr_built : Built E K x c (chr site args) := by
  grind [chr]

@[grind ←] theorem ord_built : Built E K x c (ord site args) := by
  grind [ord]

@[grind ←] theorem scanned_built : Built E K x c (scanned site args) := by
  grind [scanned]

@[grind ←] theorem isA_built (cls : Value) : Built E K x c (isA site v cls) := by
  unfold isA
  split <;> grind

@[grind ←] theorem className_built : Built E K x c (className v) := by
  unfold className
  split <;> grind [Object.className]

/-! ### Times -/

/-- Whether the time is a local one, as an argument says. -/
@[grind ←] theorem localArg_built : Built E K x c (localArg site args position) := by
  unfold localArg
  split
  -- it may be left out, and two integers stand for the two locations
  · exact .pure _
  · exact .pure _
  · exact .pure _
  · exact (CallSite.invalid_quiet ..).built
  · exact (CallSite.wrongType_quiet ..).built

/-- A signed integer, which the parts of a date are. -/
@[grind ←] theorem signedArg_built : Built E K x c (signedArg site args position) := by
  unfold signedArg
  split <;> grind

@[grind ←] theorem newTime_built : Built E K x c (newTime site args) := by
  grind [newTime]

@[grind ←] theorem newDate_built : Built E K x c (newDate site args) := by
  unfold newDate
  -- the parts of a date are read first, and may be refused
  refine .bind (.mapList (signedArg_built site args) _) fun parts => ?_
  grind

@[grind ←] theorem unixTime_built : Built E K x c (unixTime site args) := by
  unfold unixTime
  refine .bind (signedArg_built site args 0) fun seconds => ?_
  grind

@[grind ←] theorem parseTime_built : Built E K x c (parseTime site args) := by
  grind [parseTime]

/-! ### Things to share -/

section Tables

variable {s : Store} {β : Type}

/-- What tasks share is put into a table of its own kind. -/
@[grind ←] theorem addSync_built (get : SyncTables → Table s β)
    (set : SyncTables → Table s β → SyncTables) (b : β) : Built E K x c (addSync get set b) := by
  grind [addSync]

/-- What belongs to the host as well. -/
@[grind ←] theorem addHost_built (get : HostTables → Table s β)
    (set : HostTables → Table s β → HostTables) (b : β) : Built E K x c (addHost get set b) := by
  grind [addHost]

end Tables

@[grind ←] theorem newMutex_built : Built E K x c newMutex := by
  grind [newMutex]

@[grind ←] theorem newRwLock_built : Built E K x c newRwLock := by
  grind [newRwLock]

@[grind ←] theorem newCond_built : Built E K x c (newCond site v) := by
  unfold newCond
  split <;> grind

@[grind ←] theorem newOnce_built : Built E K x c newOnce := by
  grind [newOnce]

@[grind ←] theorem newWaitGroup_built : Built E K x c newWaitGroup := by
  grind [newWaitGroup]

@[grind ←] theorem newChannel_built : Built E K x c (newChannel site args) := by
  unfold newChannel
  split <;> grind

@[grind ←] theorem newPipe_built : Built E K x c newPipe := by
  grind [newPipe]

@[grind ←] theorem addFile_built (f : Host.File) : Built E K x c (addFile f) :=
  addHost_built _ _ f

/-- A file is opened by the host, which may refuse it. -/
@[grind ←] theorem openHandle_built (path : String) (mode : Host.Mode) :
    Built E K x c (openHandle site path mode) := by
  grind [openHandle]

@[grind ←] theorem openFile_built : Built E K x c (openFile site args) := by
  unfold openFile
  refine .bind (CallSite.textArg_quiet ..).built fun path => ?_
  grind

@[grind ←] theorem delimiterArg_built : Built E K x c (delimiterArg site args) := by
  grind [delimiterArg]

@[grind ←] theorem newCsvReader_built : Built E K x c (newCsvReader site args) := by
  grind [newCsvReader]

@[grind ←] theorem newCsvWriter_built : Built E K x c (newCsvWriter site args) := by
  unfold newCsvWriter
  refine .bind (delimiterArg_built ..) fun delimiter => ?_
  split <;> grind

@[grind ←] theorem newLogger_built : Built E K x c (newLogger site args) := by
  unfold newLogger
  split
  · grind
  · split <;> grind

@[grind ←] theorem openDatabase_built : Built E K x c (openDatabase site args) := by
  grind [openDatabase]

/-- The network of an address has to be one of those that are served. -/
@[grind ←] theorem addressArg_built (networks : List String) :
    Built E K x c (addressArg networks site args) := by
  grind [addressArg]

@[grind ←] theorem dial_built (networks : List String) (transport : Host.Transport) :
    Built E K x c (dial networks transport site args) := by
  grind [dial]

@[grind ←] theorem listen_built (networks : List String) (transport : Host.Transport) :
    Built E K x c (listen networks transport site args) := by
  grind [listen]

/-! ### The library -/

/-- What is written has no effect on the state. -/
@[grind ←] theorem jsonText_built : Built E K x c (jsonText site v) := by
  grind [jsonText]

/-- What is read is made into a value, or is refused. -/
@[grind ←] theorem jsonValue_built : Built E K x c (jsonValue site args) := by
  grind [jsonValue]

@[grind ←] theorem xmlText_built : Built E K x c (xmlText site args) := by
  grind [xmlText]

@[grind ←] theorem xmlValue_built : Built E K x c (xmlValue site args) := by
  grind [xmlValue]

/-- By induction on the places of the arguments. -/
@[grind ←] theorem sumFrom_built (acc : Int64) (places : List Nat) :
    Built E K x c (sumFrom site args acc places) := by
  induction places generalizing acc with
  | nil => exact .pure _
  -- each place is read and added to what has been summed up so far
  | cons i rest ih => grind [sumFrom]

/-- A function that the host adds. -/
@[grind ←] theorem runHost_built (op : HostOp) :
    Built E K x site.scope (runHost E site args op) := by
  -- a function of the host may call back, all others answer by themselves
  cases op with
  | apply => cases args <;> grind [runHost]
  | _ => grind [runHost]

@[grind ←] theorem sleepMillis_built : Built E K x c (sleepMillis site v) := by
  unfold sleepMillis
  split <;> grind

section Forms

variable {m : Eval Value} (hm : Built E K x c m)

include hm in
/-- Functions without arguments, with one, with two, or with one that may be left out. -/
@[grind ←] theorem zero_built : Built E K x c (run.zero site args m) :=
  .bind (CallSite.exactly_quiet ..).built fun _ => hm

@[grind ←] theorem one_built {f : CallSite → Value → Eval Value}
    (hf : ∀ v, Built E K x c (f site v)) : Built E K x c (run.one site args f) :=
  .bind (CallSite.exactly_quiet ..).built fun _ => hf _

@[grind ←] theorem two_built {f : Value → Value → Eval Value}
    (hf : ∀ a b, Built E K x c (f a b)) : Built E K x c (run.two site args f) :=
  .bind (CallSite.exactly_quiet ..).built fun _ => hf _ _

include hm in
@[grind ←] theorem optional_built {f : Value → Eval Value} (hf : ∀ v, Built E K x c (f v)) :
    Built E K x c (run.optional site args m f) := by
  grind [run.optional]

end Forms

/-- Whatever a built-in function does, it is built from steps. -/
@[grind ←] theorem run_built (op : Op) : Built E K x site.scope (run E site args op) := by
  -- one goal for each function of the library, closed by the lemma about what it does
  cases op <;> simp only [run] <;> grind

end Builtin

end ScriptEngine
