import ScriptEngine.Settings
import ScriptEngine.Builtin.Registry
import ScriptEngine.Machine.Scope
import ScriptEngine.Machine.CallStack
import ScriptEngine.Machine.Class
import ScriptEngine.Sync.Cond
import ScriptEngine.Sync.Channel
import ScriptEngine.Host.Csv
import ScriptEngine.Host.Database
import ScriptEngine.Host.Socket

/-!
# The state of a running program

One table per store that a value can point into, the scopes, the call stack, the packages
that have been imported, and what the host sees: output and events. Tables only grow, so a
reference stays valid for ever.
-/

namespace ScriptEngine

/-- The things of one store. -/
structure Table (s : Store) (α : Type) where
  rows : Array α

namespace Table

variable {s : Store} {α : Type}

def empty : Table s α := ⟨#[]⟩

def get? (t : Table s α) (r : Ref s) : Option α := t.rows[r.index]?

def add (t : Table s α) (a : α) : Ref s × Table s α := (⟨t.rows.size⟩, ⟨t.rows.push a⟩)

def set (t : Table s α) (r : Ref s) (a : α) : Table s α := ⟨t.rows.setIfInBounds r.index a⟩

def modify (t : Table s α) (r : Ref s) (f : α → α) : Table s α := ⟨t.rows.modify r.index f⟩

def size (t : Table s α) : Nat := t.rows.size

variable (t : Table s α) (a : α)

theorem get?_add_self : (t.add a).2.get? (t.add a).1 = some a := by
  simp [get?, add]

/-- What was in a table stays in it. -/
theorem get?_add_of_some {r : Ref s} {b : α} (h : t.get? r = some b) :
    (t.add a).2.get? r = some b := by
  have hlt : r.index < t.rows.size := (Array.getElem?_eq_some_iff.mp h).1
  simp only [get?, add, Array.getElem?_push, Nat.ne_of_lt hlt, if_false]
  exact h

/-- What is in a table that has grown was there before, or was added. -/
theorem eq_of_get?_add {r : Ref s} {b : α} (h : (t.add a).2.get? r = some b) :
    t.get? r = some b ∨ r = (t.add a).1 ∧ b = a := by
  simp only [get?, add, Array.getElem?_push] at h
  by_cases hr : r.index = t.rows.size
  · simp only [hr, if_true, Option.some.injEq] at h
    exact .inr ⟨congrArg Ref.mk hr, h.symm⟩
  · simp only [hr, if_false] at h
    exact .inl h

theorem get?_modify (q r : Ref s) (f : α → α) :
    (t.modify q f).get? r = if q.index = r.index then (t.get? r).map f else t.get? r := by
  simp [get?, modify, Array.getElem?_modify]

/-- What is in a table after a modification was there before, or is what was modified. -/
theorem eq_of_get?_modify {q r : Ref s} {f : α → α} {b : α} (h : (t.modify q f).get? r = some b) :
    t.get? r = some b ∨ q = r ∧ ∃ a, t.get? r = some a ∧ b = f a := by
  rw [get?_modify] at h
  split at h
  · next hq =>
    obtain ⟨a, ha, rfl⟩ := Option.map_eq_some_iff.mp h
    exact .inr ⟨congrArg Ref.mk hq, a, ha, rfl⟩
  · exact .inl h

/-- What was in a table is there after a modification, as it was or modified. -/
theorem exists_get?_modify {q r : Ref s} (f : α → α) (h : t.get? r = some a) :
    ∃ b, (t.modify q f).get? r = some b ∧ (b = a ∨ b = f a) := by
  rw [get?_modify, h]
  split
  · exact ⟨f a, rfl, .inr rfl⟩
  · exact ⟨a, rfl, .inl rfl⟩

/-- What is written where something was is found there. -/
theorem get?_set_of_some {t : Table s α} {r : Ref s} {a : α} (h : t.get? r = some a) (b : α) :
    (t.set r b).get? r = some b := by
  have hr : r.index < t.rows.size := (Array.getElem?_eq_some_iff.mp h).1
  rw [get?, set, Array.getElem?_setIfInBounds_self]
  exact if_pos hr

theorem get?_set_of_ne {q r : Ref s} (h : q ≠ r) : (t.set r a).get? q = t.get? q := by
  have hne : r.index ≠ q.index := fun heq => h (congrArg Ref.mk heq.symm)
  rw [get?, set, Array.getElem?_setIfInBounds_ne hne]
  rfl

end Table

/-- Containers, functions and objects. -/
structure Heap where
  arrays : Table .array (Array Value)
  tuples : Table .tuple (Array Value)
  hashes : Table .hash (Assoc Key Value)
  lists : Table .list (Array Value)
  closures : Table .closure Closure
  bounds : Table .bound Bound
  objects : Table .object Instance

def Heap.empty : Heap := ⟨.empty, .empty, .empty, .empty, .empty, .empty, .empty⟩

/-- An upper bound for how deep containers can be nested without a repetition. -/
def Heap.depth (h : Heap) : Nat :=
  h.arrays.size + h.tuples.size + h.hashes.size + h.lists.size + h.objects.size + 1

/-- What tasks synchronise with. -/
structure SyncTables where
  mutexes : Table .mutex Sync.Mutex
  rwLocks : Table .rwLock Sync.RwLock
  conds : Table .cond Sync.Cond
  onces : Table .once Sync.Once
  groups : Table .waitGroup Sync.WaitGroup
  channels : Table .channel (Sync.Channel Value)
  pipes : Table .pipe Sync.Pipe

def SyncTables.empty : SyncTables := ⟨.empty, .empty, .empty, .empty, .empty, .empty, .empty⟩

/-- Where a logger writes. -/
inductive LogSink where
  | output
  | file (r : Ref .file)
  | discard

structure Logger where
  sink : LogSink
  label : String
  flags : Int64

structure CsvReader where
  path : String
  delimiter : UInt8
  /-- What is left to read; `none` before the first record. -/
  cursor : Option Host.Csv.Cursor
  file : Host.File
  isOpen : Bool

/-- A writer of records, which collects bytes until it is flushed. -/
structure CsvWriter where
  sink : Ref .file
  delimiter : UInt8
  pending : Host.Bytes

/-- Things of the host. -/
structure HostTables where
  disk : Host.Disk
  network : Host.Network
  /-- What has been asked of the network, the oldest in front. -/
  requests : List Host.Request
  files : Table .file Host.File
  sockets : Table .socket Host.Socket
  loggers : Table .logger Logger
  csvReaders : Table .csvReader CsvReader
  csvWriters : Table .csvWriter CsvWriter
  databases : Table .database Host.Database

/-- A host with these files and no network. -/
def HostTables.empty (disk : Host.Disk) : HostTables :=
  ⟨disk, .unreachable, [], .empty, .empty, .empty, .empty, .empty, .empty⟩

/-- A package that has been evaluated. -/
structure Package where
  name : String
  path : String
  scope : Ref .scope

/-- What finds the program at an import path, or says why there is none. -/
abbrev Loader := String → Except String Program

/-- The loader over programs that are registered up front. -/
def Loader.ofPrograms (programs : Assoc String Program) : Loader := fun path =>
  match programs.get? path with
  | some program => .ok program
  | none => .error ("module not found: " ++ path)

/-- Importable programs, packages that were imported, and imports in progress. -/
structure Packages where
  /-- What finds the programs; `none` if the host has no loader at all. -/
  loader : Option Loader
  loaded : Assoc String (Ref .package)
  /-- Paths that are being evaluated, the outermost first. -/
  resolving : List String
  table : Table .package Package

/-- Nothing has been imported yet. -/
def Packages.ofLoader (loader : Option Loader) : Packages := ⟨loader, .empty, [], .empty⟩

/-- A call as a listener sees it. -/
structure CallInfo where
  function : String
  /-- The place the call was made from. -/
  span : Span
  /-- The number of calls of the task in progress, this one included. -/
  depth : Nat
deriving DecidableEq, Repr

/-- What a listener is told. -/
inductive Notice where
  | statement (line : Nat)
  | call (c : CallInfo)
  | return (c : CallInfo)
deriving DecidableEq, Repr

/-- A call that was handed to a new task, and the scope it starts in. -/
structure Spawned where
  scope : Ref .scope
  callee : Value
  args : List Value
  span : Span

/-- The state shared by all tasks of a program. -/
structure State where
  heap : Heap
  classes : ClassTable
  scopes : ScopeTree
  stack : CallStack
  sync : SyncTables
  host : HostTables
  packages : Packages
  registry : Registry
  settings : Settings
  output : String
  /-- What the listener has been told, the latest in front. -/
  events : List Notice
  /-- Whether there is a listener. -/
  listening : Bool
  /-- New tasks that have not started, the latest in front. -/
  spawned : List Spawned
  /-- Whether tasks other than the main one exist. -/
  concurrent : Bool
  nextTask : Nat
  /-- Nanoseconds since 1970. -/
  clock : Nat
  /-- Seconds by which local time is ahead of universal time. -/
  zone : Int

/-- What a host provides for programs to run in. -/
structure Setup where
  registry : Registry
  settings : Settings
  /-- The importable programs by path, if the host supplies any. -/
  sources : Option (Assoc String Program)
  disk : Host.Disk
  /-- Whether there is a listener. -/
  listening : Bool
  /-- The time at the start, in nanoseconds since 1970. -/
  start : Nat
  /-- Seconds by which local time is ahead of universal time. -/
  zone : Int

namespace State

/-- A state with one scope and nothing in it. -/
def initial (setup : Setup) : State where
  heap := .empty
  classes := .builtin
  scopes := ⟨#[.fresh none 0 none]⟩
  stack := .empty
  sync := .empty
  host := .empty setup.disk
  packages := .ofLoader (setup.sources.map .ofPrograms)
  registry := setup.registry
  settings := setup.settings
  output := ""
  events := []
  listening := setup.listening
  spawned := []
  concurrent := false
  nextTask := 1
  clock := setup.start
  zone := setup.zone

/-- The present moment on the local clock. -/
def now (s : State) : Calendar.Moment :=
  ⟨(s.clock / 1000000000 : Nat), s.clock % 1000000000, s.zone⟩

/-- The scope a program starts in. -/
def root : Ref .scope := ⟨0⟩

end State

end ScriptEngine
