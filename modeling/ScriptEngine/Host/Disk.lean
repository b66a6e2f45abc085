import ScriptEngine.Assoc

/-!
# Files

A disk is a set of named byte sequences. A file handle has one offset into its file, and
reads through a buffer: the first read of a line fetches a whole block, later reads consume
the buffer before they go to the file again, and writes go to the file's offset directly.
-/

namespace ScriptEngine.Host

/-- Bytes of a file. -/
abbrev Bytes := List UInt8

/-- The files by name. -/
structure Disk where
  files : Assoc String Bytes

/-- How a file is opened. -/
structure Mode where
  reads : Bool
  writes : Bool
  /-- Every write goes to the end. -/
  appends : Bool
  /-- A missing file is created. -/
  creates : Bool
  /-- The contents are discarded. -/
  truncates : Bool
deriving DecidableEq, Repr

/-- The mode a short name stands for. -/
def Mode.ofName? (name : String) : Option Mode :=
  if name = "r" ∨ name = "<" then some ⟨true, false, false, false, false⟩
  else if name = "w" ∨ name = ">" then some ⟨false, true, false, true, true⟩
  else if name = "a" ∨ name = ">>" then some ⟨false, true, true, true, false⟩
  else if name = "r+" ∨ name = "+<" then some ⟨true, true, false, false, false⟩
  else if name = "w+" ∨ name = "+>" then some ⟨true, true, false, true, true⟩
  else if name = "a+" ∨ name = "+>>" then some ⟨true, true, true, true, false⟩
  else none

/-- Reading only. -/
def Mode.read : Mode := ⟨true, false, false, false, false⟩

/-- Writing to a file made empty. -/
def Mode.write : Mode := ⟨false, true, false, true, true⟩

/-- What an operation on a file can run into. -/
inductive FileError where
  | notFound
  | isDirectory
  | notDirectory
  | badHandle
  | badText
  | closed (name : String)
deriving DecidableEq, Repr

def FileError.message : FileError → String
  | notFound => "No such file or directory (os error 2)"
  | isDirectory => "Is a directory (os error 21)"
  | notDirectory => "Not a directory (os error 20)"
  | badHandle => "Bad file descriptor (os error 9)"
  | badText => "stream did not contain valid UTF-8"
  | closed name => name ++ " is closed"

/-- A handle to a file of the disk. -/
structure File where
  /-- The name as the program gave it. -/
  path : String
  /-- The name of the file on the disk; `none` for a directory. -/
  key : Option String
  mode : Mode
  isOpen : Bool
  offset : Nat
  /-- Bytes fetched from the file and not yet read. -/
  buffer : Bytes

/-- The size of the blocks a buffered read fetches. -/
def blockSize : Nat := 8192

namespace Disk

def empty : Disk := ⟨.empty⟩

/-- The parts of a path that name something. -/
def parts (path : String) : List String := (path.splitOn "/").filter fun p => p != "" && p != "."

/-- What a relative path names: a directory, a file, or a place for one. -/
def resolve (d : Disk) (path : String) : Except FileError (Option String) :=
  if path = "" then .error .notFound
  else
    match parts path with
    | [] => .ok none
    | [name] =>
      if name = ".." then .ok none
      else if path.endsWith "/" then
        if d.files.contains name then .error .notDirectory
        else .error .notFound
      else .ok (some name)
    | name :: _ => if d.files.contains name then .error .notDirectory else .error .notFound

/-- Opens a file. -/
def openFile (d : Disk) (path : String) (mode : Mode) : Except FileError (File × Disk) := do
  match ← d.resolve path with
  | none =>
    if mode.writes then throw .isDirectory else return (⟨path, none, mode, true, 0, []⟩, d)
  | some name =>
    match d.files.get? name with
    | some _ =>
      let d := if mode.truncates then ⟨d.files.insert name []⟩ else d
      return (⟨path, some name, mode, true, 0, []⟩, d)
    | none =>
      if mode.creates then return (⟨path, some name, mode, true, 0, []⟩, ⟨d.files.insert name []⟩)
      else throw .notFound

/-- The contents behind a handle that may be read. -/
def contents (d : Disk) (f : File) : Except FileError Bytes :=
  if !f.isOpen then .error (.closed f.path)
  else if !f.mode.reads then .error .badHandle
  else
    match f.key with
    | none => .error .isDirectory
    | some name => .ok ((d.files.get? name).getD [])

/-- The bytes with `new` written over them from `offset` on, after zeros if there is a
gap. -/
def overwrite (old : Bytes) (offset : Nat) (new : Bytes) : Bytes :=
  (old ++ List.replicate (offset - old.length) 0).take offset ++ new ++ old.drop (offset + new.length)

/-- Writes at the handle's offset, or at the end in append mode. -/
def write (d : Disk) (f : File) (new : Bytes) : Except FileError (File × Disk) :=
  if !f.isOpen then .error (.closed f.path)
  else if new.isEmpty then .ok (f, d)
  else if !f.mode.writes then .error .badHandle
  else
    match f.key with
    | none => .error .isDirectory
    | some name =>
      let old := (d.files.get? name).getD []
      let offset := if f.mode.appends then old.length else f.offset
      .ok ({ f with offset := offset + new.length }, ⟨d.files.insert name (overwrite old offset new)⟩)

/-- Everything from the buffer and the rest of the file. -/
def readAll (d : Disk) (f : File) : Except FileError (Bytes × File) := do
  let all ← d.contents f
  let rest := all.drop f.offset
  return (f.buffer ++ rest, { f with buffer := [], offset := f.offset + rest.length })

/-- Splits off the first line with its line feed, if there is one. -/
def takeLine : Bytes → Option (Bytes × Bytes)
  | [] => none
  | b :: rest =>
    if b = 10 then some ([b], rest)
    else (takeLine rest).map fun (line, after) => (b :: line, after)

/-- Reads a line through the buffer, fetching blocks while it holds none; the bytes of the
line come with its line feed, and there are none at the end of the file. -/
def readLineWithin (all : Bytes) : Nat → File → Bytes × File
  | 0, f => (f.buffer, { f with buffer := [] })
  | fuel + 1, f =>
    match takeLine f.buffer with
    | some (line, after) => (line, { f with buffer := after })
    | none =>
      let block := (all.drop f.offset).take blockSize
      if block.isEmpty then (f.buffer, { f with buffer := [] })
      else
        match readLineWithin all fuel
            { f with buffer := block, offset := f.offset + block.length } with
        | (line, f') => (f.buffer ++ line, f')

/-- The next line of a file. -/
def readLine (d : Disk) (f : File) : Except FileError (Bytes × File) := do
  match takeLine f.buffer with
  | some (line, after) => if f.isOpen then return (line, { f with buffer := after }) else throw (.closed f.path)
  | none =>
    let all ← d.contents f
    return readLineWithin all (all.length + 1) f

end Disk

/-- The text of bytes in UTF-8. -/
def decode (b : Bytes) : Except FileError String :=
  match String.fromUTF8? ⟨b.toArray⟩ with
  | some s => .ok s
  | none => .error .badText

/-- The bytes of a text in UTF-8. -/
def encode (s : String) : Bytes := s.toUTF8.toList

end ScriptEngine.Host
