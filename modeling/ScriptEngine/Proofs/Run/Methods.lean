import ScriptEngine.Method.Answer
import ScriptEngine.Proofs.Run.Quiet

/-!
# The methods of built-in values

Operators fail or answer, and can be used at any site. The checks of arguments and the methods of
every kind of built-in value are quiet: they change data only, wait, or call back into the program
from the scope of their call. None of them binds a name, pushes a frame, defers a call, or denies a
method.
-/

namespace ScriptEngine

open Eval

variable {E : Engine} {K : Knowledge} {x : Site} {c : Ref .scope} {α : Type}

/-! ### Operators -/

namespace Operators

/-- The refusal names the types of the operands, which are only looked at. -/
@[grind ←] theorem unsupported_built (op : InfixOp) (a b : Value) (span : Span) :
    Built E K x c (unsupported op a b span : Eval α) := by
  grind [unsupported]

/-- Operands that are not both numbers are joined, compared, repeated or refused. -/
@[grind ←] theorem onOthers_built (op : InfixOp) (a b : Value) (span : Span) :
    Built E K x c (onOthers op a b span) := by
  unfold onOthers
  split <;> grind

/-- Both operands are promoted first; what follows is an answer or a failure for each pair of kinds. -/
@[grind ←] theorem binary_built (op : InfixOp) (a b : Value) (span : Span) :
    Built E K x c (binary op a b span) := by
  unfold binary
  refine .bind (.ofRefusal _ _) fun pair => ?_
  grind

/-- A prefix operator answers or fails by the kind of its operand. -/
@[grind ←] theorem prefixed_built (op : PrefixOp) (a : Value) (span : Span) :
    Built E K x c (prefixed op a span) := by
  unfold prefixed
  split <;> grind

/-- `++` and `--` answer or fail by the kind of their operand. -/
@[grind ←] theorem postfixed_built (op : PostfixOp) (a : Value) (span : Span) :
    Built E K x c (postfixed op a span) := by
  grind [postfixed]

/-- A compound assignment applies an infix operator to the old value. -/
@[grind ←] theorem compound_built (op : AssignOp) (combine : InfixOp) (old operand : Value)
    (span : Span) : Built E K x c (compound op combine old operand span) := by
  grind [compound]

end Operators

/-! ### Arguments -/

namespace CallSite

variable (site : CallSite) (args : List Value) (position : Nat)

/-- A failure of a built-in is quiet unless it denies a method, which none of their causes does. -/
@[grind ←] theorem fail_quiet {cause : Cause} (h : ¬ cause.DeniesMethod) :
    Quiet E c (site.fail cause : Eval α) :=
  .fail _ h

/-- The failures that most methods report: an index, a text of their own, an argument. -/
@[grind ←] theorem indexRange_quiet (index : Int) :
    Quiet E c (site.fail (.indexRange index) : Eval α) := by
  grind

@[grind ←] theorem general_quiet (message : String) :
    Quiet E c (site.general message : Eval α) := by
  grind [general]

@[grind ←] theorem invalid_quiet (text : String) : Quiet E c (site.invalid text : Eval α) := by
  grind [invalid]

/-- Every check of the number of arguments is this one with its own counts. -/
@[grind ←] theorem arity_quiet (a : Arity) : Quiet E c (site.arity a args) := by
  grind [arity]

@[grind ←] theorem exactly_quiet (n : Nat) : Quiet E c (site.exactly n args) :=
  arity_quiet site args _

@[grind ←] theorem oneOf_quiet (counts : List Nat) : Quiet E c (site.oneOf counts args) :=
  arity_quiet site args _

@[grind ←] theorem atLeast_quiet (n : Nat) : Quiet E c (site.atLeast n args) :=
  arity_quiet site args _

/-- An argument of another type, and one that is not there. -/
@[grind ←] theorem wrongType_quiet (expected : String) (v : Value) :
    Quiet E c (site.wrongType position expected v : Eval α) := by
  grind [wrongType]

@[grind ←] theorem missing_quiet : Quiet E c (site.missing args position : Eval α) := by
  grind [missing]

/-- An argument of a wanted type is there, or is missing, or is of another type. -/
@[grind ←] theorem textArg_quiet : Quiet E c (site.textArg args position) := by
  grind [textArg]

@[grind ←] theorem intArg_quiet : Quiet E c (site.intArg args position) := by
  grind [intArg]

@[grind ←] theorem eitherIntArg_quiet : Quiet E c (site.eitherIntArg args position) := by
  grind [eitherIntArg]

@[grind ←] theorem keyArg_quiet (v : Value) : Quiet E c (site.keyArg v) := by
  grind [keyArg]

@[grind ←] theorem decimalOr_quiet (r : Except Decimal.Trap Decimal) :
    Quiet E c (decimalOr r) := by
  unfold decimalOr
  split <;> grind

@[grind ←] theorem isTrue_quiet (v : Value) : Quiet E c (CallSite.isTrue v) := .gets _

@[grind ←] theorem inspect_quiet (v : Value) : Quiet E c (CallSite.inspect v) := .gets _

/-- Filling in a template reads the state, and ends the host when there is no room for the text. -/
@[grind ←] theorem filled_quiet : Quiet E c (filled site args) := by
  unfold filled
  -- the arguments are counted, the template is read, and then it is filled in
  refine .bind (by grind) fun _ => .bind (by grind) fun template => .bind (.gets _) fun text => ?_
  cases text <;> grind

/-- Built-in methods call back into the program from the scope of their own call only. -/
@[grind ←] theorem call_quiet (callee : Value) :
    Quiet E site.scope (site.call E callee args) :=
  .call callee args site.span

@[grind ←] theorem decimalOperand_quiet (v : Value) : Quiet E c (site.decimalOperand v) := by
  unfold decimalOperand
  split <;> grind

@[grind ←] theorem placesArg_quiet : Quiet E c (site.placesArg args position) := by
  grind [placesArg]

end CallSite

/-! ### Tables of methods -/

/-- The method is quiet, wherever it is called. -/
def Method.Quiet (m : Method α) : Prop :=
  ∀ (E : Engine) (site : CallSite) (receiver : α) (args : List Value),
    Eval.Quiet E site.scope (m E site receiver args)

/-- Every method of the table is quiet. -/
def MethodTable.Quiet (t : MethodTable α) : Prop := ∀ e ∈ t, Method.Quiet e.2

namespace MethodTable

/-- The method of a name is in the table. -/
theorem mem_of_find? {t : MethodTable α} {name : String} {m : Method α}
    (h : t.find? name = some m) : (name, m) ∈ t := by
  obtain ⟨_, _, rfl, -⟩ := List.lookup_eq_some_iff.mp h
  simp

@[simp] theorem quiet_nil : MethodTable.Quiet ([] : MethodTable α) := nofun

@[simp] theorem quiet_cons {name : String} {m : Method α} {t : MethodTable α} :
    MethodTable.Quiet ((name, m) :: t) ↔ m.Quiet ∧ MethodTable.Quiet t :=
  List.forall_mem_cons

/-- Two tables, one behind the other. -/
theorem Quiet.append {t u : MethodTable α} (ht : MethodTable.Quiet t)
    (hu : MethodTable.Quiet u) : MethodTable.Quiet (t ++ u) :=
  fun e he => (List.mem_append.mp he).elim (ht e) (hu e)

/-- So is a method that is found in a quiet table. -/
theorem Quiet.of_find? {t : MethodTable α} (ht : MethodTable.Quiet t) {name : String}
    {m : Method α} (h : t.find? name = some m) : m.Quiet :=
  ht (name, m) (mem_of_find? h)

end MethodTable

namespace Method

/-- A method that only reads its receiver has no state to change. -/
@[grind ←] theorem reading_quiet (f : α → Value) : Method.Quiet (reading f) := by
  grind [reading, Method.Quiet]

/-- A method without arguments is quiet if what it does is. -/
@[grind ←] theorem plain_quiet {f : CallSite → α → Eval Value}
    (hf : ∀ E c site receiver, Eval.Quiet E c (f site receiver)) :
    Method.Quiet (plain f) := by
  grind [plain, Method.Quiet]

/-! ### Numbers and texts -/

/-- The tables are gone through method by method; those that need more than unfolding have a lemma
of their own above. -/
theorem ofInt_quiet : MethodTable.Quiet ofInt := by
  simp [ofInt, reading_quiet]

theorem ofUInt_quiet : MethodTable.Quiet ofUInt := by
  simp [ofUInt, reading_quiet]

theorem ofFloat_quiet : MethodTable.Quiet ofFloat := by
  -- the entries of the table are the goals
  simp only [ofFloat, MethodTable.quiet_cons, MethodTable.quiet_nil]
  and_intros <;> grind [Method.Quiet]

@[grind ←] theorem asking_quiet (f : List Char → List Char → Bool) :
    Method.Quiet (asking f) := by
  grind [asking, Method.Quiet]

/-- The text may be too long to be repeated, which is a failure. -/
@[grind ←] theorem repeatText_quiet (span : Span) (s : String) (count : Int64) :
    Eval.Quiet E c (Eval.ofExcept span (Arithmetic.repeatText s count)) := by
  unfold Arithmetic.repeatText
  grind [Eval.ofExcept]

theorem ofText_quiet : MethodTable.Quiet ofText := by
  simp only [ofText, MethodTable.quiet_cons, MethodTable.quiet_nil]
  and_intros <;> grind [Method.Quiet]

/-! ### Decimals -/

section Decimals

variable (site : CallSite) (args : List Value) (position : Nat)

/-- The arguments that decimals take, which are refused if they do not fit. -/
@[grind ←] theorem exponentArg_quiet : Eval.Quiet E c (exponentArg site args position) := by
  unfold exponentArg
  split <;> grind

@[grind ←] theorem floatArg_quiet : Eval.Quiet E c (floatArg site args position) := by
  grind [floatArg]

/-- By induction on the arguments that are left to be read. -/
@[grind ←] theorem decimalArgs_quiet : Eval.Quiet E c (decimalArgs site position args) := by
  induction args generalizing position with
  | nil => exact .pure _
  | cons v rest ih =>
    unfold decimalArgs
    split <;> grind

@[grind ←] theorem decimalResult_quiet (r : Except Decimal.Error Decimal) :
    Eval.Quiet E c (decimalResult site r) := by
  unfold decimalResult
  split <;> grind

/-- What is done with the decimals of a list is up to `f`. -/
@[grind ←] theorem aggregate_quiet {f : Decimal → List Decimal → Eval Value}
    (hf : ∀ d ds, Eval.Quiet E c (f d ds)) : Eval.Quiet E c (aggregate site args f) := by
  grind [aggregate]

@[grind ←] theorem setSettings_quiet (f : Settings → Settings) :
    Eval.Quiet E c (setSettings f) := by
  grind [setSettings]

/-- The operations on decimals are one family, with one goal for each. -/
@[grind ←] theorem runDecimal_quiet (op : DecimalOp) :
    Eval.Quiet E c (runDecimal site args op) := by
  cases op <;> simp only [runDecimal] <;> grind

end Decimals

/-- Methods with one more decimal are quiet if their results are. -/
@[grind ←] theorem withOperand_quiet {f : Decimal → Decimal → Eval Value}
    (hf : ∀ E c d other, Eval.Quiet E c (f d other)) : Method.Quiet (withOperand f) := by
  grind [withOperand, Method.Quiet]

/-- Methods with a divisor, and the further arguments they take. -/
@[grind ←] theorem withDivisor_quiet (count : Nat)
    {f : CallSite → List Value → Decimal → Decimal → Eval Value}
    (hf : ∀ E c site args d divisor, Eval.Quiet E c (f site args d divisor)) :
    Method.Quiet (withDivisor count f) := by
  grind [withDivisor, Method.Quiet]

@[grind ←] theorem withPlaces_quiet (f : Decimal → Int32 → Value) :
    Method.Quiet (withPlaces f) := by
  grind [withPlaces, Method.Quiet]

@[grind ←] theorem ordered_quiet (f : Ordering → Value) : Method.Quiet (ordered f) :=
  withOperand_quiet fun _ _ _ _ => .pure _

/-- The methods named apart come first, then those that are operations shared with the functions. -/
theorem ofDecimal_quiet : MethodTable.Quiet ofDecimal := by
  refine .append ?_ fun e he => ?_
  -- each method of the list is quiet by its own lemma
  · simp only [MethodTable.quiet_cons, MethodTable.quiet_nil]
    and_intros <;> grind [Method.Quiet]
  · obtain ⟨⟨name, op⟩, -, rfl⟩ := List.mem_map.mp he
    exact fun _ site _ args => runDecimal_quiet site args op

/-! ### Collections -/

section Callbacks

variable (site : CallSite) (callback : Value)

/-- By induction on the items: each is handed to the callback, and what is kept of its answer waits
or fails at most. -/
@[grind ←] theorem collect_quiet {keep : Value → Value → Eval (List Value)}
    (hk : ∀ a b, Eval.Quiet E site.scope (keep a b)) (items : List Value) :
    Eval.Quiet E site.scope (collect E site callback keep items) := by
  induction items with
  | nil => exact .pure _
  | cons item rest ih => grind [collect]

/-- By induction on the items, for every value folded so far. -/
@[grind ←] theorem fold_quiet (acc : Value) (items : List Value) :
    Eval.Quiet E site.scope (fold E site callback acc items) := by
  induction items generalizing acc with
  | nil => exact .pure _
  | cons item rest ih => grind [fold]

end Callbacks

/-- Methods that go through their items with a callback. -/
@[grind ←] theorem collecting_quiet {keep : Value → Value → Eval (List Value)}
    (hk : ∀ E c a b, Eval.Quiet E c (keep a b)) : Method.Quiet (collecting keep) := by
  grind [collecting, Method.Quiet]

/-- The tables of collections, with the callbacks of arrays and hashes. -/
theorem ofArray_quiet : MethodTable.Quiet ofArray := by
  simp only [ofArray, MethodTable.quiet_cons, MethodTable.quiet_nil]
  and_intros <;> grind [Method.Quiet]

theorem ofTuple_quiet : MethodTable.Quiet ofTuple := by
  simp only [ofTuple, MethodTable.quiet_cons, MethodTable.quiet_nil]
  and_intros <;> grind [Method.Quiet]

theorem ofList_quiet : MethodTable.Quiet ofList := by
  simp only [ofList, MethodTable.quiet_cons, MethodTable.quiet_nil]
  and_intros <;> grind [Method.Quiet]

theorem ofHash_quiet : MethodTable.Quiet ofHash := by
  simp only [ofHash, MethodTable.quiet_cons, MethodTable.quiet_nil]
  and_intros <;> grind [Method.Quiet]

theorem ofCallable_quiet : MethodTable.Quiet ofCallable := by
  simp only [ofCallable, MethodTable.quiet_cons, MethodTable.quiet_nil]
  and_intros <;> grind [Method.Quiet]

theorem ofFault_quiet : MethodTable.Quiet ofFault := by
  simp [ofFault, reading_quiet]

/-! ### Locks, gates, groups and channels -/

/-- A step of a primitive is stored, or is refused with the error it gives. -/
@[grind ←] theorem stepResult_quiet (site : CallSite) (r : Except Sync.Error α)
    {store : α → Eval Value} (hs : ∀ a, Eval.Quiet E c (store a)) :
    Eval.Quiet E c (stepResult site r store) := by
  cases r <;> grind [stepResult]

/-- A primitive is stored where it was. -/
@[grind ←] theorem setMutex_quiet (r : Ref .mutex) (m : Sync.Mutex) :
    Eval.Quiet E c (setMutex r m) := by
  grind [setMutex]

@[grind ←] theorem setRwLock_quiet (r : Ref .rwLock) (l : Sync.RwLock) :
    Eval.Quiet E c (setRwLock r l) := by
  grind [setRwLock]

@[grind ←] theorem setCond_quiet (r : Ref .cond) (cond : Sync.Cond) :
    Eval.Quiet E c (setCond r cond) := by
  grind [setCond]

@[grind ←] theorem mutex_quiet (r : Ref .mutex) : Eval.Quiet E c (mutex r) := .gets _

@[grind ←] theorem rwLock_quiet (r : Ref .rwLock) : Eval.Quiet E c (rwLock r) := .gets _

/-- Taking a lock waits for it, and stores it as held. -/
@[grind ←] theorem lockMutex_quiet (r : Ref .mutex) : Eval.Quiet E c (lockMutex r) := by
  grind [lockMutex]

@[grind ←] theorem lockWrite_quiet (r : Ref .rwLock) : Eval.Quiet E c (lockWrite r) := by
  grind [lockWrite]

/-- Giving back a mutex that nobody holds is a failure of the call. -/
@[grind ←] theorem unlockMutex_quiet (site : CallSite) (r : Ref .mutex) :
    Eval.Quiet E c (unlockMutex site r) := by
  grind [unlockMutex]

/-- Every method of a lock is one of the steps above after a check of its arguments. -/
theorem ofMutex_quiet : MethodTable.Quiet ofMutex := by
  simp only [ofMutex, MethodTable.quiet_cons, MethodTable.quiet_nil]
  and_intros <;> grind

theorem ofRwLock_quiet : MethodTable.Quiet ofRwLock := by
  simp only [ofRwLock, MethodTable.quiet_cons, MethodTable.quiet_nil]
  and_intros <;> grind

/-- A condition variable gives back its lock whichever of the two kinds it is. -/
@[grind ←] theorem releaseLock_quiet (lock : Sync.CondLock) :
    Eval.Quiet E c (releaseLock lock) := by
  cases lock <;> simp only [releaseLock] <;> grind

/-- The lock is taken back in the same way. -/
@[grind ←] theorem retakeLock_quiet (lock : Sync.CondLock) :
    Eval.Quiet E c (retakeLock lock) := by
  cases lock <;> simp only [retakeLock] <;> grind

/-- A task that waits on a condition variable gives back its lock, waits unless it was woken
already, and takes the lock again. -/
@[grind ←] theorem waitOn_quiet (site : CallSite) (r : Ref .cond) :
    Eval.Quiet E c (waitOn site r) := by
  refine .bind (.gets _) fun c => ?_
  cases c <;> grind

/-- A notification changes the condition variable and may hand over the turn. -/
@[grind ←] theorem notify_quiet (r : Ref .cond) (f : Sync.Cond → Nat → Sync.Cond) :
    Eval.Quiet E c (notify r f) := by
  refine .bind (.gets _) fun d => ?_
  cases d <;> grind

theorem ofCond_quiet : MethodTable.Quiet ofCond := by
  simp only [ofCond, MethodTable.quiet_cons, MethodTable.quiet_nil]
  and_intros <;> grind

/-- To note that it has begun, or is done, changes the table of such primitives only. -/
theorem quietStep_setOnce (r : Ref .once) (f : Sync.Once → Sync.Once) (s : State) :
    QuietStep s (setOnce r f s) :=
  ⟨⟨⟨rfl, rfl, rfl, rfl, rfl⟩, rfl⟩, rfl, rfl, rfl⟩

/-- The first caller enters, and the others wait until it is done. -/
@[grind ←] theorem enterOnce_quiet (r : Ref .once) : Eval.Quiet E c (enterOnce r) := by
  grind [enterOnce, quietStep_setOnce]

theorem ofOnce_quiet : MethodTable.Quiet ofOnce := by
  simp only [ofOnce, MethodTable.quiet_cons, MethodTable.quiet_nil]
  and_intros <;> grind [Method.Quiet, quietStep_setOnce]

@[grind ←] theorem setGroup_quiet (r : Ref .waitGroup) (g : Sync.WaitGroup) :
    Eval.Quiet E c (setGroup r g) := by
  grind [setGroup]

/-- A counter that would turn negative is refused, and one that leaves its range ends the host. -/
@[grind ←] theorem addToGroup_quiet (site : CallSite) (r : Ref .waitGroup) (delta : Int64) :
    Eval.Quiet E c (addToGroup site r delta) := by
  grind [addToGroup]

theorem ofWaitGroup_quiet : MethodTable.Quiet ofWaitGroup := by
  simp only [ofWaitGroup, MethodTable.quiet_cons, MethodTable.quiet_nil]
  and_intros <;> grind [Method.Quiet]

/-- A channel is read, and stored again after a step. -/
@[grind ←] theorem channel_quiet (r : Ref .channel) : Eval.Quiet E c (channel r) := .gets _

@[grind ←] theorem setChannel_quiet (r : Ref .channel) (ch : Sync.Channel Value) :
    Eval.Quiet E c (setChannel r ch) := by
  grind [setChannel]

/-- A receiver waits until there is a value or the end of the stream. -/
@[grind ←] theorem receive_quiet (r : Ref .channel) : Eval.Quiet E c (receive r) := by
  grind [receive]

theorem ofChannel_quiet : MethodTable.Quiet ofChannel := by
  simp only [ofChannel, MethodTable.quiet_cons, MethodTable.quiet_nil]
  and_intros
  · intro E site r args
    -- `send` reads the channel first, which decides whether it is refused
    refine .bind (CallSite.exactly_quiet ..) fun _ => .bind (channel_quiet r) fun c => ?_
    grind
  all_goals grind [Method.Quiet]

/-! ### Files, loggers, records and pipes -/

/-- What the host answers is a result or a failure of the call. -/
@[grind ←] theorem hostResult_quiet (site : CallSite) (r : Except Host.FileError α) :
    Eval.Quiet E c (hostResult site r) := by
  cases r <;> grind [hostResult]

@[grind ←] theorem file_quiet (r : Ref .file) : Eval.Quiet E c (file r) := .gets _

@[grind ←] theorem disk_quiet : Eval.Quiet E c disk := .gets _

@[grind ←] theorem setFile_quiet (r : Ref .file) (f : Host.File) :
    Eval.Quiet E c (setFile r f) := by
  grind [setFile]

@[grind ←] theorem setDisk_quiet (d : Host.Disk) : Eval.Quiet E c (setDisk d) := by
  grind [setDisk]

/-- What is written goes to the file, its position and the disk. -/
@[grind ←] theorem writeBytes_quiet (r : Ref .file) (bytes : Host.Bytes) :
    Eval.Quiet E c (writeBytes r bytes) := by
  grind [writeBytes]

@[grind ←] theorem writeText_quiet (site : CallSite) (r : Ref .file) (text : String) :
    Eval.Quiet E c (writeText site r text) := by
  grind [writeText]

/-- The methods of files are checks of arguments around those steps. -/
theorem ofFile_quiet : MethodTable.Quiet ofFile := by
  simp only [ofFile, MethodTable.quiet_cons, MethodTable.quiet_nil]
  and_intros <;> grind [Method.Quiet]

@[grind ←] theorem socket_quiet (r : Ref .socket) : Eval.Quiet E c (socket r) := .gets _

@[grind ←] theorem setSocket_quiet (r : Ref .socket) (k : Host.Socket) :
    Eval.Quiet E c (setSocket r k) := by
  grind [setSocket]

@[grind ←] theorem newSocket_quiet (k : Host.Socket) : Eval.Quiet E c (newSocket k) := by
  grind [newSocket]

/-- A request is put to the host, which has its answer at once. -/
@[grind ←] theorem request_quiet (site : CallSite) (q : Host.Request) :
    Eval.Quiet E c (request site q) := by
  grind [request]

/-- A request needs a socket of the right kind that is open. -/
@[grind ←] theorem requestOf_quiet (site : CallSite) (r : Ref .socket) (isListener : Bool)
    (refusal : String) (q : Host.Request) :
    Eval.Quiet E c (requestOf site r isListener refusal q) := by
  grind [requestOf]

@[grind ←] theorem transfer_quiet (site : CallSite) (r : Ref .socket) (q : Host.Request) :
    Eval.Quiet E c (transfer site r q) :=
  requestOf_quiet site r _ _ q

theorem ofSocket_quiet : MethodTable.Quiet ofSocket := by
  simp only [ofSocket, MethodTable.quiet_cons, MethodTable.quiet_nil]
  and_intros <;> grind [Method.Quiet]

@[grind ←] theorem logger_quiet (r : Ref .logger) : Eval.Quiet E c (logger r) := .gets _

@[grind ←] theorem setLogger_quiet (r : Ref .logger) (l : Logger) :
    Eval.Quiet E c (setLogger r l) := by
  grind [setLogger]

/-- An entry is one line, for the output or a file, or is dropped. -/
@[grind ←] theorem logEntry_quiet (site : CallSite) (r : Ref .logger) (message : String) :
    Eval.Quiet E c (logEntry site r message) := by
  grind [logEntry]

@[grind ←] theorem logValues_quiet (sep : String) : Method.Quiet (logValues sep) := by
  grind [logValues, Method.Quiet]

theorem ofLogger_quiet : MethodTable.Quiet ofLogger := by
  simp only [ofLogger, MethodTable.quiet_cons, MethodTable.quiet_nil]
  and_intros <;> grind [Method.Quiet]

@[grind ←] theorem setCsvReader_quiet (r : Ref .csvReader) (reader : CsvReader) :
    Eval.Quiet E c (setCsvReader r reader) := by
  grind [setCsvReader]

/-- The first call reads the file, and every later one goes on from where it stopped. -/
@[grind ←] theorem nextRecord_quiet (site : CallSite) (r : Ref .csvReader)
    (reader : CsvReader) : Eval.Quiet E c (nextRecord site r reader) := by
  unfold nextRecord
  split
  · grind
  · -- whether the file was read already or not, the rest is the same
    extract_lets rest
    have hrest : ∀ start, Eval.Quiet E c (rest start) := fun start =>
      .bind (setCsvReader_quiet ..) fun _ => by grind
    cases reader.cursor <;> grind

/-- By induction on the number of records that are read at most. -/
@[grind ←] theorem recordsWithin_quiet (site : CallSite) (r : Ref .csvReader) (fuel : Nat)
    (reader : CsvReader) : Eval.Quiet E c (recordsWithin site r fuel reader) := by
  induction fuel generalizing reader with
  | zero => exact .pure _
  | succ fuel ih => grind [recordsWithin]

@[grind ←] theorem recordValue_quiet (texts : List String) :
    Eval.Quiet E c (recordValue texts) :=
  newArrayOf_quiet _

@[grind ←] theorem remainingRecords_quiet (site : CallSite) (r : Ref .csvReader)
    (reader : CsvReader) : Eval.Quiet E c (remainingRecords site r reader) := by
  grind [remainingRecords]

/-- The three methods first look at what is left to read. -/
theorem ofCsvReader_quiet : MethodTable.Quiet ofCsvReader := by
  simp only [ofCsvReader, MethodTable.quiet_cons, MethodTable.quiet_nil]
  refine ⟨?_, ?_, ?_, trivial⟩
  all_goals
    refine plain_quiet fun _ _ site r => .bind (.gets _) fun reader => ?_
    cases reader <;> grind

@[grind ←] theorem setPending_quiet (r : Ref .csvWriter) (pending : Host.Bytes) :
    Eval.Quiet E c (setPending r pending) := by
  grind [setPending]

/-- What fills whole blocks is handed on, and the rest is kept until the writer is flushed. -/
@[grind ←] theorem writeRecord_quiet (site : CallSite) (r : Ref .csvWriter)
    (texts : List String) : Eval.Quiet E c (writeRecord site r texts) := by
  grind [writeRecord]

@[grind ←] theorem flushRecords_quiet (site : CallSite) (r : Ref .csvWriter) :
    Eval.Quiet E c (flushRecords site r) := by
  grind [flushRecords]

@[grind ←] theorem recordArg_quiet (site : CallSite) (v : Value) :
    Eval.Quiet E c (recordArg site v) := by
  unfold recordArg
  split <;> grind

theorem ofCsvWriter_quiet : MethodTable.Quiet ofCsvWriter := by
  simp only [ofCsvWriter, MethodTable.quiet_cons, MethodTable.quiet_nil]
  and_intros
  · grind [Method.Quiet]
  · intro E site r args
    refine .bind (CallSite.exactly_quiet ..) fun _ => .bind (.gets _) fun items => ?_
    split <;> grind
  all_goals grind

@[grind ←] theorem pipe_quiet (r : Ref .pipe) : Eval.Quiet E c (pipe r) := .gets _

@[grind ←] theorem setPipe_quiet (r : Ref .pipe) (p : Sync.Pipe) :
    Eval.Quiet E c (setPipe r p) := by
  grind [setPipe]

@[grind ←] theorem readChunk_quiet (r : Ref .pipe) : Eval.Quiet E c (readChunk r) := by
  grind [readChunk]

/-- By induction on the number of chunks that are read at most. -/
@[grind ←] theorem readChunks_quiet (r : Ref .pipe) (fuel : Nat) (text : String) :
    Eval.Quiet E c (readChunks r fuel text) := by
  induction fuel generalizing text with
  | zero => exact .pure _
  | succ fuel ih => grind [readChunks]

/-- Writing takes the text of its argument first; the others go by the steps above. -/
theorem ofPipe_quiet : MethodTable.Quiet ofPipe := by
  simp only [ofPipe, MethodTable.quiet_cons, MethodTable.quiet_nil]
  and_intros
  · intro E site r args
    refine .bind (CallSite.exactly_quiet ..) fun _ => .bind (.gets _) fun text => ?_
    grind
  all_goals grind

/-! ### Databases -/

/-- A value that a database cannot store is refused. -/
@[grind ←] theorem cellOf_quiet (site : CallSite) (v : Value) :
    Eval.Quiet E c (cellOf site v) := by
  unfold cellOf
  split <;> grind

/-- A cell may hold bytes that are no text, which are refused. -/
@[grind ←] theorem valueOf_quiet (site : CallSite) (cell : Host.Sql.Cell) :
    Eval.Quiet E c (valueOf site cell) := by
  unfold valueOf
  split <;> grind

@[grind ←] theorem database_quiet (r : Ref .database) : Eval.Quiet E c (database r) := .gets _

@[grind ←] theorem setDatabase_quiet (r : Ref .database) (d : Host.Database) :
    Eval.Quiet E c (setDatabase r d) := by
  grind [setDatabase]

@[grind ←] theorem databaseResult_quiet (site : CallSite) (r : Except Host.Database.Error α) :
    Eval.Quiet E c (databaseResult site r) := by
  cases r <;> grind [databaseResult]

@[grind ←] theorem statement_quiet (site : CallSite) (args : List Value) :
    Eval.Quiet E c (statement site args) := by
  grind [statement]

@[grind ←] theorem rowValue_quiet (site : CallSite) (row : List (String × Host.Sql.Cell)) :
    Eval.Quiet E c (rowValue site row) := by
  grind [rowValue]

/-- A query reads its statement, runs it, and makes a hash of every row. -/
@[grind ←] theorem rows_quiet (site : CallSite) (r : Ref .database) (args : List Value) :
    Eval.Quiet E c (rows site r args) := by
  grind [rows]

theorem ofDatabase_quiet : MethodTable.Quiet ofDatabase := by
  simp only [ofDatabase, MethodTable.quiet_cons, MethodTable.quiet_nil]
  and_intros <;> grind [Method.Quiet]

/-! ### Times -/

/-- The layout may have a part that is unknown, which is a failure. -/
@[grind ←] theorem formatTime_quiet (site : CallSite) (t : Calendar.Moment)
    (layout : String) : Eval.Quiet E c (formatTime site t layout) := by
  grind [formatTime]

@[grind ←] theorem timeArg_quiet (site : CallSite) (args : List Value) (position : Nat) :
    Eval.Quiet E c (timeArg site args position) := by
  grind [timeArg]

@[grind ←] theorem intsValue_quiet (ns : List Int) : Eval.Quiet E c (intsValue ns) :=
  newArrayOf_quiet _

@[grind ←] theorem pause_quiet (nanos : Int) : Eval.Quiet E c (pause nanos) := by
  grind [pause]

@[grind ←] theorem layoutMethod_quiet : Method.Quiet layoutMethod := by
  grind [layoutMethod, Method.Quiet]

@[grind ←] theorem number_quiet (f : Calendar.Moment → Int) : Method.Quiet (number f) :=
  reading_quiet _

@[grind ←] theorem text_quiet (f : Calendar.Moment → String) : Method.Quiet (text f) :=
  reading_quiet _

@[grind ←] theorem comparison_quiet (f : Ordering → Bool) : Method.Quiet (comparison f) := by
  grind [comparison, Method.Quiet]

@[grind ←] theorem toMultiple_quiet (f : Calendar.Moment → Int → Option Calendar.Moment) :
    Method.Quiet (toMultiple f) := by
  grind [toMultiple, Method.Quiet]

@[grind ←] theorem epochArg_quiet (site : CallSite) (v : Value) :
    Eval.Quiet E c (epochArg site v) := by
  unfold epochArg
  split <;> grind

@[grind ←] theorem onLocalClock_quiet (f : Calendar.Moment → Value) :
    Method.Quiet (onLocalClock f) := by
  grind [onLocalClock]

/-- The methods of times read the receiver, or compute another time and keep nothing. -/
theorem ofTime_quiet : MethodTable.Quiet ofTime := by
  simp only [ofTime, MethodTable.quiet_cons, MethodTable.quiet_nil]
  and_intros <;> grind [Method.Quiet]

end Method

/-- Whatever the kind of a value, its methods are quiet. -/
theorem Answering.ofValue_quiet (v : Value) : (Answering.ofValue v).table.Quiet := by
  cases v with
  | int => exact Method.ofInt_quiet
  | uint => exact Method.ofUInt_quiet
  | float => exact Method.ofFloat_quiet
  | decimal => exact Method.ofDecimal_quiet
  | text => exact Method.ofText_quiet
  | array => exact Method.ofArray_quiet
  | tuple => exact Method.ofTuple_quiet
  | hash => exact Method.ofHash_quiet
  | list => exact Method.ofList_quiet
  | function | native | bound => exact Method.ofCallable_quiet
  | error => exact Method.ofFault_quiet
  | mutex => exact Method.ofMutex_quiet
  | rwLock => exact Method.ofRwLock_quiet
  | cond => exact Method.ofCond_quiet
  | once => exact Method.ofOnce_quiet
  | waitGroup => exact Method.ofWaitGroup_quiet
  | channel => exact Method.ofChannel_quiet
  | file => exact Method.ofFile_quiet
  | socket => exact Method.ofSocket_quiet
  | logger => exact Method.ofLogger_quiet
  | csvReader => exact Method.ofCsvReader_quiet
  | csvWriter => exact Method.ofCsvWriter_quiet
  | pipe => exact Method.ofPipe_quiet
  | database => exact Method.ofDatabase_quiet
  | time => exact Method.ofTime_quiet
  | nil | bool | object | classDef | package => exact MethodTable.quiet_nil

/-- A method that a value answers is quiet. -/
theorem Answering.find?_quiet {v : Value} {name : String}
    {m : Engine → CallSite → List Value → Eval Value}
    (h : (Answering.ofValue v).find? name = some m) (site : CallSite) (args : List Value) :
    Eval.Quiet E site.scope (m E site args) := by
  obtain ⟨method, hm, rfl⟩ := Option.map_eq_some_iff.mp h
  exact (Answering.ofValue_quiet v).of_find? hm E site _ args

end ScriptEngine
