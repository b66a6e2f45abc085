import ScriptEngine.Proofs.Run.Answers
import ScriptEngine.Proofs.Run.Ends
import ScriptEngine.Proofs.Sync.Runs

/-!
# Reading and writing a file through one handle

A file that is read and written can be thought of as a sequence of bytes with one position.
`FileCursor.call` says what a call of `read`, `readLine`, `write` or `writeLine` does to such a
sequence and what it answers, without any handle.

A handle fetches blocks and keeps what it has not read yet (`Host.File.Ahead`). How far the blocks
reach is written down beside the position, and no call of the cursor looks at it. It only says when
handle and cursor are in step: reads always are (`Host.Disk.readAll_of_ahead`,
`Host.Disk.readLine_of_ahead`), while a write goes where the blocks end, not where the position is
(`Host.Disk.write_of_ne_nil`). So the handle does what the cursor does as long as nothing is written
while more has been fetched than read (`FileCursor.served`, and `FileCursor.served_in_step` for whole
histories), and what is written then is out of place (`FileCursor.behind`).
-/

namespace ScriptEngine

open Eval

/-! ### Bytes with one position -/

/-- The calls that read and write a file at its position, with the texts that they write. -/
inductive FileCall where
  | read
  | readLine
  | write (text : String)
  | writeLine (text : String)

namespace FileCall

/-- The method of a handle that makes the call. -/
def name : FileCall → String
  | read => "read"
  | readLine => "readLine"
  | write _ => "write"
  | writeLine _ => "writeLine"

/-- What the call writes. -/
def written : FileCall → Host.Bytes
  | read => []
  | readLine => []
  | write text => Host.encode text
  | writeLine text => Host.encode (text ++ "\n")

/-- The arguments are those of the call. -/
def Carries (s : State) (args : List Value) : FileCall → Prop
  | read => args = []
  | readLine => args = []
  | write text => ∃ v, args = [v] ∧ s.inspect v = text
  | writeLine text => ∃ v, args = [v] ∧ s.inspect v = text

/-- Every call can be made with some arguments. -/
theorem exists_carries (s : State) (call : FileCall) : ∃ args, call.Carries s args := by
  cases call with
  | read | readLine => exact ⟨[], rfl⟩
  | write text | writeLine text => exact ⟨[.text text], .text text, rfl, rfl⟩

end FileCall

/-- The bytes of a file with one position. -/
structure FileCursor where
  bytes : Host.Bytes
  pos : ℕ
  /-- How far the blocks reach that have been fetched. No call depends on it. -/
  fetched : ℕ
deriving DecidableEq

namespace FileCursor

/-- The bytes up to the first line feed and with it, or all of them if there is none. -/
def firstLine : Host.Bytes → Host.Bytes
  | [] => []
  | b :: rest => if b = 10 then [b] else b :: firstLine rest

/-- How far blocks reach that are fetched from an offset until they reach a position, or the end. -/
def reach (size offset pos : ℕ) : ℕ :=
  min size (offset + (pos - offset + (Host.blockSize - 1)) / Host.blockSize * Host.blockSize)

/-- The cursor after so many bytes have been read. -/
def advance (c : FileCursor) (n : ℕ) : FileCursor :=
  { c with pos := c.pos + n, fetched := reach c.bytes.length c.fetched (c.pos + n) }

/-- The cursor after bytes have been written over those that follow it, and past the end. -/
def put (c : FileCursor) (new : Host.Bytes) : FileCursor where
  bytes := c.bytes.take c.pos ++ new ++ c.bytes.drop (c.pos + new.length)
  pos := c.pos + new.length
  fetched := max c.fetched (c.pos + new.length)

/-- What a call answers, and the cursor after it. -/
def call (c : FileCursor) : FileCall → Except Host.FileError Value × FileCursor
  | .read =>
    let rest := c.bytes.drop c.pos
    ((Host.decode rest).map .text, c.advance rest.length)
  | .readLine =>
    let line := firstLine (c.bytes.drop c.pos)
    (if line.isEmpty then .ok .nil else (Host.decode line).map fun text => .text (Method.chomp text),
      c.advance line.length)
  | .write text =>
    let new := Host.encode text
    (.ok (Method.countValue new.length), c.put new)
  | .writeLine text =>
    let new := Host.encode (text ++ "\n")
    (.ok (Method.countValue new.length), c.put new)

/-! ### Lines and blocks -/

/-- A line that ends in the buffer is the first line of the file from there on. -/
theorem firstLine_of_takeLine_some {b line after : Host.Bytes}
    (h : Host.Disk.takeLine b = some (line, after)) (rest : Host.Bytes) :
    b = line ++ after ∧ firstLine (b ++ rest) = line := by
  -- along the bytes, up to the line feed
  induction b generalizing line with
  | nil => cases h
  | cons x b ih =>
    rw [Host.Disk.takeLine] at h
    split at h
    · next hx =>
      cases h
      exact ⟨rfl, if_pos hx⟩
    · next hx =>
      obtain ⟨⟨line', after'⟩, hline, heq⟩ := Option.map_eq_some_iff.mp h
      cases heq
      obtain ⟨hb, hfirst⟩ := ih hline
      exact ⟨congrArg (x :: ·) hb, (if_neg hx).trans (congrArg (x :: ·) hfirst)⟩

/-- If the buffer has no line feed, the line goes on behind it. -/
theorem firstLine_of_takeLine_none {b : Host.Bytes} (h : Host.Disk.takeLine b = none)
    (rest : Host.Bytes) : firstLine (b ++ rest) = b ++ firstLine rest := by
  induction b with
  | nil => rfl
  | cons x b ih =>
    rw [Host.Disk.takeLine] at h
    split at h
    · cases h
    · next hx => exact (if_neg hx).trans (congrArg (x :: ·) (ih (Option.map_eq_none_iff.mp h)))

/-- A line is no longer than the bytes it is taken from. -/
theorem length_firstLine_le (b : Host.Bytes) : (firstLine b).length ≤ b.length := by
  induction b with
  | nil => exact le_rfl
  | cons x b ih =>
    rw [firstLine]
    split
    · simp
    · exact Nat.succ_le_succ ih

/-- There is a line as long as there are bytes. -/
theorem firstLine_ne_nil {b : Host.Bytes} (h : b ≠ []) : firstLine b ≠ [] := by
  cases b with
  | nil => exact absurd rfl h
  | cons x b =>
    rw [firstLine]
    split <;> exact List.cons_ne_nil _ _

/-- Nothing is fetched for a position that has been reached. -/
theorem reach_of_le {size offset pos : ℕ} (h : pos ≤ offset) (ho : offset ≤ size) :
    reach size offset pos = offset := by
  unfold reach Host.blockSize
  omega

/-- Reading everything fetches everything. -/
theorem reach_size {size offset : ℕ} (ho : offset ≤ size) : reach size offset size = size := by
  unfold reach Host.blockSize
  omega

/-- One block more is fetched on the way to a position that is not reached yet. -/
theorem reach_block {size offset pos : ℕ} (h : offset < pos) (hpos : pos ≤ size) :
    reach size (offset + min Host.blockSize (size - offset)) pos = reach size offset pos := by
  unfold reach Host.blockSize
  omega

/-- The blocks are fetched until they reach the position. -/
theorem le_reach {size pos : ℕ} (offset : ℕ) (h : pos ≤ size) : pos ≤ reach size offset pos := by
  unfold reach Host.blockSize
  omega

/-- Nothing is fetched beyond the end. -/
theorem reach_le (size offset pos : ℕ) : reach size offset pos ≤ size := min_le_left _ _

end FileCursor

/-! ### Handles that fetch blocks -/

namespace Host

private theorem length_toList_loop (b : ByteArray) (i : ℕ) (acc : Bytes) :
    (ByteArray.toList.loop b i acc).length = acc.length + (b.size - i) := by
  -- the loop adds the bytes that are left to those it has
  fun_induction ByteArray.toList.loop b i acc with
  | case1 i acc h ih =>
    rw [ih, List.length_cons]
    omega
  | case2 i acc h =>
    rw [List.length_reverse]
    omega

/-- A text has as many bytes as it says. -/
theorem length_encode (text : String) : (encode text).length = text.utf8ByteSize := by
  rw [encode, ByteArray.toList, length_toList_loop, List.length_nil, Nat.zero_add, Nat.sub_zero]
  rfl

open FileCursor (firstLine reach)

/-- The handle is open for reading and for writing in place, on the file of the name. -/
structure File.Updates (f : File) (name : String) : Prop where
  isOpen : f.isOpen = true
  reads : f.mode.reads = true
  writes : f.mode.writes = true
  appends : f.mode.appends = false
  key : f.key = some name

/-- What the handle has fetched and not read are the bytes from a position to its offset. -/
structure File.Ahead (f : File) (all : Bytes) (p : ℕ) : Prop where
  buffer : f.buffer = (all.take f.offset).drop p
  pos_le : p ≤ f.offset
  offset_le : f.offset ≤ all.length

namespace File

variable {f : File} {all : Bytes} {p : ℕ}

/-- The handle at a position, with the bytes fetched up to an offset. -/
def placed (f : File) (all : Bytes) (p offset : ℕ) : File :=
  { f with buffer := (all.take offset).drop p, offset := offset }

/-- The handle with the next block fetched. -/
def fetch (f : File) (all : Bytes) : File :=
  let block := (all.drop f.offset).take blockSize
  { f with buffer := block, offset := f.offset + block.length }

/-- Bytes with others written over them from the offset of the handle on, and past the end. -/
def patched (f : File) (all new : Bytes) : Bytes :=
  all.take f.offset ++ new ++ all.drop (f.offset + new.length)

/-- The handle with its offset moved on. -/
def moved (f : File) (n : ℕ) : File := { f with offset := f.offset + n }

/-- What is to be read is the buffer and what is behind the offset. -/
theorem Ahead.drop_eq (h : f.Ahead all p) : all.drop p = f.buffer ++ all.drop f.offset := by
  conv_lhs => rw [← List.take_append_drop f.offset all]
  rw [h.buffer, List.drop_append_of_le_length]
  rw [List.length_take]
  exact le_min h.pos_le (h.pos_le.trans h.offset_le)

/-- The buffer holds the bytes between the position and the offset. -/
theorem Ahead.length_buffer (h : f.Ahead all p) : f.buffer.length = f.offset - p := by
  rw [h.buffer, List.length_drop, List.length_take, min_eq_left h.offset_le]

/-- Reading does not change what a handle is open for. -/
theorem Updates.placed {name : String} (h : f.Updates name) (all : Bytes) (p offset : ℕ) :
    (f.placed all p offset).Updates name :=
  ⟨h.isOpen, h.reads, h.writes, h.appends, h.key⟩

/-- A handle that is placed has fetched up to its offset. -/
theorem ahead_placed {offset : ℕ} (hp : p ≤ offset) (hoffset : offset ≤ all.length) :
    (f.placed all p offset).Ahead all p :=
  ⟨rfl, hp, hoffset⟩

/-- Nor does writing. -/
theorem Updates.moved {name : String} (h : f.Updates name) (n : ℕ) : (f.moved n).Updates name :=
  ⟨h.isOpen, h.reads, h.writes, h.appends, h.key⟩

/-- What is behind the bytes that are written over stays. -/
theorem drop_patched {new : Bytes} (h : f.offset ≤ all.length) :
    (f.patched all new).drop (f.offset + new.length) = all.drop (f.offset + new.length) := by
  refine List.drop_left' ?_
  rw [List.length_append, List.length_take, min_eq_left h]

/-- A handle that has fetched nothing that it has not read is behind what it writes. -/
theorem Ahead.moved (h : f.Ahead all f.offset) (new : Bytes) :
    (f.moved new.length).Ahead (f.patched all new) (f.offset + new.length) where
  buffer := by
    -- nothing is fetched and not read, before and after
    have hbuffer : f.buffer = [] :=
      h.buffer.trans (List.drop_eq_nil_of_le (List.length_take_le _ _))
    exact hbuffer.trans (List.drop_eq_nil_of_le (List.length_take_le _ _)).symm
  pos_le := le_rfl
  offset_le := by
    have := h.offset_le
    rw [patched, List.length_append, List.length_append, List.length_take, min_eq_left this]
    exact Nat.le_add_right _ _

/-- A block is full, or is what is left of the file. -/
theorem offset_fetch (f : File) (all : Bytes) :
    (f.fetch all).offset = f.offset + min blockSize (all.length - f.offset) := by
  rw [fetch, List.length_take, List.length_drop]

/-- When the buffer has been read and the next block is fetched, that is what is ahead. -/
theorem Ahead.fetch (h : f.Ahead all p) : (f.fetch all).Ahead all f.offset where
  buffer := by
    rw [offset_fetch, List.drop_take, Nat.add_sub_cancel_left, ← List.length_drop,
      ← List.take_eq_take_min]
    rfl
  pos_le := Nat.le_add_right _ _
  offset_le := by
    have := h.offset_le
    rw [offset_fetch]
    omega

end File

namespace Disk

variable {d : Disk} {f : File} {name : String} {all new : Bytes} {p : ℕ}

/-- **Reading a line block by block** gives the line at the position, and fetches as many blocks as
that takes. -/
theorem readLineWithin_eq {fuel : ℕ} (hfuel : all.length - f.offset < fuel) (h : f.Ahead all p) :
    readLineWithin all fuel f =
      let line := firstLine (all.drop p)
      (line, f.placed all (p + line.length) (reach all.length f.offset (p + line.length))) := by
  dsimp only
  -- the fuel is more than the bytes that are not fetched yet, and each block that is fetched is one
  -- of them at least
  induction fuel generalizing f p with
  | zero => omega
  | succ fuel ih =>
    have hoffset := h.offset_le
    have hlen := h.length_buffer
    have hp := h.pos_le
    rw [readLineWithin]
    cases htake : takeLine f.buffer with
    | some found =>
      -- the line is in the buffer
      obtain ⟨line, after⟩ := found
      obtain ⟨hb, hline⟩ := FileCursor.firstLine_of_takeLine_some htake (all.drop f.offset)
      have hle : p + line.length ≤ f.offset := by
        have := congrArg List.length hb
        rw [List.length_append] at this
        omega
      have hafter : (all.take f.offset).drop (p + line.length) = after := by
        rw [← List.drop_drop, ← h.buffer, hb, List.drop_left]
      rw [h.drop_eq, hline, FileCursor.reach_of_le hle hoffset, File.placed, hafter]
    | none =>
      -- the buffer has no line feed, so the line goes on behind it
      have hline : firstLine (all.drop p) = f.buffer ++ firstLine (all.drop f.offset) := by
        rw [h.drop_eq, FileCursor.firstLine_of_takeLine_none htake]
      have hq : p + (firstLine (all.drop p)).length =
          f.offset + (firstLine (all.drop f.offset)).length := by
        rw [hline, List.length_append]
        omega
      rw [hq, hline]
      dsimp only
      split
      · next hempty =>
        -- the end of the file
        have hnil : all.drop f.offset = [] :=
          (List.take_eq_nil_iff.mp (List.isEmpty_iff.mp hempty)).resolve_left (Nat.succ_ne_zero _)
        have hbuffer : (all.take f.offset).drop f.offset = [] :=
          List.drop_eq_nil_of_le (List.length_take_le _ _)
        rw [hnil, firstLine, List.length_nil, Nat.add_zero, FileCursor.reach_of_le le_rfl hoffset,
          File.placed, hbuffer, List.append_nil]
      · next hempty =>
        -- the line goes on in the next block
        have hne : all.drop f.offset ≠ [] := fun hnil => hempty (by rw [hnil]; rfl)
        have hpos := List.length_pos_of_ne_nil (FileCursor.firstLine_ne_nil hne)
        have hle := FileCursor.length_firstLine_le (all.drop f.offset)
        rw [List.length_drop] at hle
        have hmore : 0 < min blockSize (all.length - f.offset) :=
          lt_min (Nat.succ_pos _) (by omega)
        -- a block that is fetched leaves the position that has to be reached as it is
        have hnext := ih (f := f.fetch all) (by rw [File.offset_fetch]; omega) h.fetch
        rw [File.offset_fetch, FileCursor.reach_block (by omega) (by omega)] at hnext
        exact congrArg (fun r : Bytes × File => (f.buffer ++ r.1, r.2)) hnext

/-- An open handle sees the bytes of its file. -/
theorem contents_eq (hf : f.Updates name) (hd : d.files.get? name = some all) :
    d.contents f = .ok all := by
  simp [contents, hf.isOpen, hf.reads, hf.key, hd]

/-- Reading gives what is in the buffer and behind the offset. -/
theorem readAll_eq (hf : f.Updates name) (hd : d.files.get? name = some all) :
    d.readAll f = .ok (f.buffer ++ all.drop f.offset,
      { f with buffer := [], offset := f.offset + (all.drop f.offset).length }) := by
  rw [readAll, contents_eq hf hd]
  rfl

/-- Reading gives everything behind the position. -/
theorem readAll_of_ahead (hf : f.Updates name) (hd : d.files.get? name = some all)
    (h : f.Ahead all p) :
    d.readAll f = .ok (all.drop p, f.placed all all.length all.length) := by
  have hoffset : f.offset + (all.drop f.offset).length = all.length := by
    rw [List.length_drop, Nat.add_sub_cancel' h.offset_le]
  have hbuffer : (all.take all.length).drop all.length = [] :=
    List.drop_eq_nil_of_le (List.length_take_le _ _)
  rw [readAll_eq hf hd, hoffset, ← h.drop_eq, File.placed, hbuffer]

/-- Reading a line gives the line behind the position. -/
theorem readLine_of_ahead (hf : f.Updates name) (hd : d.files.get? name = some all) (h : f.Ahead all p) :
    d.readLine f =
      let line := firstLine (all.drop p)
      .ok (line, f.placed all (p + line.length) (reach all.length f.offset (p + line.length))) := by
  -- every block that is fetched is a byte less to be fetched, so this is enough fuel
  have hfuel : all.length - f.offset < all.length + 1 := by omega
  have hwithin := readLineWithin_eq hfuel h
  rw [readLine]
  cases htake : takeLine f.buffer with
  | some found =>
    -- the line is in the buffer: the handle has to be open, but nothing is fetched
    rw [readLineWithin, htake] at hwithin
    dsimp only at hwithin ⊢
    rw [if_pos hf.isOpen, ← hwithin]
    rfl
  | none =>
    dsimp only
    rw [contents_eq hf hd, ← hwithin]
    rfl

/-- Writing nothing leaves handle and disk as they are. -/
theorem write_nil (hf : f.Updates name) : d.write f [] = .ok (f, d) := by
  simp [write, hf.isOpen]

/-- **Bytes are written where the fetched blocks end.** -/
theorem write_of_ne_nil (hf : f.Updates name) (hd : d.files.get? name = some all)
    (hoffset : f.offset ≤ all.length) (hnew : new ≠ []) :
    d.write f new = .ok (f.moved new.length, ⟨d.files.insert name (f.patched all new)⟩) := by
  have hgap : f.offset - all.length = 0 := Nat.sub_eq_zero_of_le hoffset
  simp [write, hf.isOpen, hf.writes, hf.key, hf.appends, hd, hnew, overwrite, hgap, File.moved,
    File.patched]

end Disk

end Host

/-! ### Handles of a state -/

/-- The run answers so, in a state of which `P` holds. -/
inductive Run.Answers (span : Span) (P : State → Prop) :
    Except Host.FileError Value → Run Value → Prop
  | value {v : Value} {t : State} : P t → Answers span P (.ok v) (.done v t)
  | failed {e : Host.FileError} {t : State} :
      P t → Answers span P (.error e) (.stop (.fault ⟨.general e.message, span⟩) t)

/-- What holds of the state of an answer holds where the run ends. -/
theorem Run.Answers.of_ends {span : Span} {P : State → Prop} {a : Except Host.FileError Value}
    {run : Run Value} {o : Except Fault Value} {t : State} (h : run.Answers span P a)
    (hends : run.Ends o t) : P t := by
  cases h with
  | value h =>
    obtain ⟨-, rfl⟩ := Run.ends_done_iff.mp hends
    exact h
  | failed h =>
    obtain ⟨-, rfl⟩ := Run.ends_fault_iff.mp hends
    exact h

/-- An answer that is a value is where the run is done. -/
theorem Run.Answers.exists_done {span : Span} {P : State → Prop} {run : Run Value} {v : Value}
    (h : run.Answers span P (.ok v)) : ∃ t, run = .done v t ∧ P t := by
  cases h with
  | value h => exact ⟨_, rfl, h⟩

/-- An answer is an end of the run. -/
theorem Run.Answers.exists_ends {span : Span} {P : State → Prop}
    {a : Except Host.FileError Value} {run : Run Value} (h : run.Answers span P a) :
    ∃ o t, run.Ends o t := by
  cases h with
  | value _ => exact ⟨_, _, .done _ _⟩
  | failed _ => exact ⟨_, _, .fault _ _⟩

namespace State

variable {s t : State} {r : Ref .file} {name : String} {c : FileCursor}

/-- The handle reads and writes the file of the name from the cursor on. -/
structure FileAt (s : State) (r : Ref .file) (name : String) (c : FileCursor) : Prop where
  content : s.host.disk.files.get? name = some c.bytes
  handle : ∃ f, s.host.files.get? r = some f ∧ f.Updates name ∧ f.Ahead c.bytes c.pos ∧
    f.offset = c.fetched

/-- The handle is left at the cursor, and nothing else has changed. -/
structure FileLeft (s : State) (r : Ref .file) (name : String) (c : FileCursor) (t : State) :
    Prop where
  holds : t.FileAt r name c
  handles : ∀ {q}, q ≠ r → t.host.files.get? q = s.host.files.get? q
  files : ∀ {n}, n ≠ name → t.host.disk.files.get? n = s.host.disk.files.get? n
  same : ∃ files disk, t = { s with host := { s.host with files, disk } }

/-- The state with another content for a handle, and another disk. -/
def withFile (s : State) (r : Ref .file) (f : Host.File) (d : Host.Disk) : State :=
  { s with host := { s.host with files := s.host.files.set r f, disk := d } }

/-- What has been read and written leaves the handle at a cursor. -/
theorem FileAt.left (hs : s.FileAt r name c) {f : Host.File} {bytes : Host.Bytes} {p : ℕ}
    {d : Host.Disk} (hd : d.files.get? name = some bytes)
    (hfiles : ∀ {n}, n ≠ name → d.files.get? n = s.host.disk.files.get? n)
    (hf : f.Updates name) (hahead : f.Ahead bytes p) :
    s.FileLeft r name ⟨bytes, p, f.offset⟩ (s.withFile r f d) := by
  obtain ⟨old, hold, -⟩ := hs.handle
  -- the handle is another one, and every other handle is as before
  refine ⟨⟨hd, f, Table.get?_set_of_some hold f, hf, hahead, rfl⟩, fun {q} hq => ?_, hfiles, _, d, rfl⟩
  exact Table.get?_set_of_ne _ f hq

end State

namespace FileCursor

variable {s t : State} {r : Ref .file} {name : String} {c : FileCursor} {site : CallSite}
  {E : Engine} {scope : Ref .scope} {span : Span}

/-- A method finds the handle at its place. -/
theorem file_apply {f : Host.File} (h : s.host.files.get? r = some f) :
    Method.file r s = .done f s :=
  congrArg (fun f => Run.done (Option.getD f _) s) h

/-- A method without arguments is called without any. -/
theorem plain_apply {α : Type} (f : CallSite → α → Eval Value) (a : α) :
    Method.plain f E site a [] s = f site a s := rfl

/-- A result of the host is the answer. -/
theorem hostResult_answers {α : Type} (site : CallSite) (result : Except Host.FileError α) (g : α → Value)
    {P : State → Prop} (h : P t) :
    ((Method.hostResult site result >>= fun a => pure (g a)) t).Answers site.span P
      (result.map g) := by
  cases result with
  | ok a => exact .value h
  | error e => exact .failed h

/-- The method `read` reads what is ahead, and answers with its text if it has one. -/
theorem read_apply {f f' : Host.File} {bytes : Host.Bytes} (hget : s.host.files.get? r = some f)
    (hread : s.host.disk.readAll f = .ok (bytes, f')) :
    Dispatch.invoke E scope (.file r) "read" [] span s =
      (Method.hostResult ⟨scope, span, "read"⟩ (Host.decode bytes) >>= fun text =>
        pure (.text text)) (s.withFile r f' s.host.disk) := by
  rw [Dispatch.invoke_method (.file r) trivial rfl rfl, plain_apply, Method.disk, gets_bind_apply,
    bind_of_done (file_apply hget), hread]
  rfl

/-- The method `readLine` reads a line, and answers with nil if there was nothing left. -/
theorem readLine_apply {f f' : Host.File} {bytes : Host.Bytes} (hget : s.host.files.get? r = some f)
    (hread : s.host.disk.readLine f = .ok (bytes, f')) :
    Dispatch.invoke E scope (.file r) "readLine" [] span s =
      (if bytes.isEmpty then pure .nil
        else Method.hostResult ⟨scope, span, "readLine"⟩ (Host.decode bytes) >>= fun text =>
          pure (.text (Method.chomp text))) (s.withFile r f' s.host.disk) := by
  rw [Dispatch.invoke_method (.file r) trivial rfl rfl, plain_apply, Method.disk, gets_bind_apply,
    bind_of_done (file_apply hget), hread]
  rfl

/-- A text is written as its bytes, and the answer is their number. -/
theorem writeText_apply {f f' : Host.File} {d : Host.Disk} {text : String}
    (hget : s.host.files.get? r = some f)
    (hwrite : s.host.disk.write f (Host.encode text) = .ok (f', d)) :
    Method.writeText site r text s =
      .done (Method.countValue (Host.encode text).length) (s.withFile r f' d) := by
  have hbytes : Method.writeBytes r (Host.encode text) s = .done (.ok ()) (s.withFile r f' d) := by
    rw [Method.writeBytes, Method.disk, gets_bind_apply, bind_of_done (file_apply hget), hwrite]
    rfl
  rw [Method.writeText, bind_of_done hbytes, Host.length_encode]
  rfl

/-- The method `write` writes the text of its argument. -/
theorem write_apply {v : Value} {text : String} (hv : s.inspect v = text) :
    Dispatch.invoke E scope (.file r) "write" [v] span s =
      Method.writeText ⟨scope, span, "write"⟩ r text s := by
  rw [Dispatch.invoke_method (.file r) trivial rfl rfl, ← hv]
  rfl

/-- The method `writeLine` writes it with a line feed. -/
theorem writeLine_apply {v : Value} {text : String} (hv : s.inspect v = text) :
    Dispatch.invoke E scope (.file r) "writeLine" [v] span s =
      Method.writeText ⟨scope, span, "writeLine"⟩ r (text ++ "\n") s := by
  rw [Dispatch.invoke_method (.file r) trivial rfl rfl, ← hv]
  rfl

/-! ### What a call does -/

/-- A call that writes nothing, or that comes when no bytes have been fetched beyond the position. -/
def InStep (c : FileCursor) (call : FileCall) : Prop := call.written = [] ∨ c.pos = c.fetched

/-- Reading everything leaves the cursor at the end. -/
theorem advance_rest (hp : c.pos ≤ c.bytes.length) (hfetched : c.fetched ≤ c.bytes.length) :
    c.advance (c.bytes.drop c.pos).length = ⟨c.bytes, c.bytes.length, c.bytes.length⟩ := by
  rw [advance, List.length_drop, Nat.add_sub_cancel' hp, reach_size hfetched]

/-- Writing nothing leaves the cursor where it is. -/
theorem put_nil (h : c.pos ≤ c.fetched) : c.put [] = c := by
  simp [put, h]

/-- The method `read` does what the cursor does. -/
theorem read_answers (hs : s.FileAt r name c) (E : Engine) (scope : Ref .scope) (span : Span) :
    (Dispatch.invoke E scope (.file r) "read" [] span s).Answers span
      (s.FileLeft r name (c.call .read).2) (c.call .read).1 := by
  obtain ⟨f, hget, hf, hahead, hoffset⟩ := hs.handle
  have hle : c.fetched ≤ c.bytes.length := hoffset ▸ hahead.offset_le
  -- after reading, all has been fetched and the buffer is empty
  have hleft := hs.left hs.content (fun _ => rfl) (hf.placed c.bytes _ _)
    (Host.File.ahead_placed le_rfl le_rfl)
  rw [read_apply hget (Host.Disk.readAll_of_ahead hf hs.content hahead)]
  refine hostResult_answers ⟨scope, span, "read"⟩ _ _ ?_
  rw [call, advance_rest (hahead.pos_le.trans hahead.offset_le) hle]
  exact hleft

/-- So does `readLine`. -/
theorem readLine_answers (hs : s.FileAt r name c) (E : Engine) (scope : Ref .scope) (span : Span) :
    (Dispatch.invoke E scope (.file r) "readLine" [] span s).Answers span
      (s.FileLeft r name (c.call .readLine).2) (c.call .readLine).1 := by
  obtain ⟨f, hget, hf, hahead, hoffset⟩ := hs.handle
  -- the line ends within the file, so the blocks that are fetched reach its end
  have hle := length_firstLine_le (c.bytes.drop c.pos)
  have hpos := hahead.pos_le.trans hahead.offset_le
  have hend : c.pos + (firstLine (c.bytes.drop c.pos)).length ≤ c.bytes.length := by
    rw [List.length_drop] at hle
    omega
  have hleft := hs.left hs.content (fun _ => rfl) (hf.placed c.bytes _ _)
    (Host.File.ahead_placed (le_reach f.offset hend) (reach_le _ _ _))
  rw [readLine_apply hget (Host.Disk.readLine_of_ahead hf hs.content hahead), call, advance, ← hoffset]
  split
  · exact .value hleft
  · exact hostResult_answers ⟨scope, span, "readLine"⟩ _ _ hleft

/-- A text is written at the cursor if nothing has been fetched beyond it. -/
theorem writeText_answers (site : CallSite) {text : String} (hs : s.FileAt r name c)
    (hstep : Host.encode text = [] ∨ c.pos = c.fetched) :
    (Method.writeText site r text s).Answers site.span
      (s.FileLeft r name (c.put (Host.encode text)))
      (.ok (Method.countValue (Host.encode text).length)) := by
  obtain ⟨f, hget, hf, hahead, hoffset⟩ := hs.handle
  by_cases hnew : Host.encode text = []
  -- nothing to write
  · have hwrite : s.host.disk.write f (Host.encode text) = .ok (f, s.host.disk) := by
      rw [hnew, Host.Disk.write_nil hf]
    have hleft := hs.left hs.content (fun _ => rfl) hf hahead
    rw [hoffset] at hleft
    rw [writeText_apply hget hwrite, hnew, put_nil (hoffset ▸ hahead.pos_le)]
    exact .value hleft
  -- nothing has been fetched beyond the cursor, so the handle's offset is the cursor's position
  · have hpos : c.pos = f.offset := (hstep.resolve_left hnew).trans hoffset.symm
    have hput : c.put (Host.encode text) = ⟨f.patched c.bytes (Host.encode text),
        f.offset + (Host.encode text).length, f.offset + (Host.encode text).length⟩ := by
      rw [put, ← hoffset, hpos, max_eq_right (Nat.le_add_right _ _)]
      rfl
    have hleft := hs.left (Assoc.get?_insert_self s.host.disk.files name _)
      (fun hn => Assoc.get?_insert_of_ne _ hn _) (hf.moved _)
      ((hpos ▸ hahead).moved (Host.encode text))
    rw [writeText_apply hget (Host.Disk.write_of_ne_nil hf hs.content hahead.offset_le hnew), hput]
    exact .value hleft

/-- The bytes of the file with others written where the fetched blocks end. -/
def putBehind (c : FileCursor) (new : Host.Bytes) : Host.Bytes :=
  c.bytes.take c.fetched ++ new ++ c.bytes.drop (c.fetched + new.length)

/-- What is to be read then: what had been fetched, and the bytes behind those written. -/
def restBehind (c : FileCursor) (new : Host.Bytes) : Host.Bytes :=
  (c.bytes.take c.fetched).drop c.pos ++ c.bytes.drop (c.fetched + new.length)

/-- Bytes have been written where the blocks end that had been fetched at the cursor. -/
structure Behind (c : FileCursor) (new : Host.Bytes) (r : Ref .file) (name : String) (s : State) :
    Prop where
  content : s.host.disk.files.get? name = some (c.putBehind new)
  read : ∀ (E : Engine) (scope : Ref .scope) (span : Span),
    (Dispatch.invoke E scope (.file r) "read" [] span s).Answers span (fun _ => True)
      ((Host.decode (c.restBehind new)).map .text)

/-- A text that is not empty is put behind the fetched blocks, wherever the cursor is. -/
theorem writeText_behind (site : CallSite) {text : String} (hs : s.FileAt r name c)
    (hnew : Host.encode text ≠ []) :
    ∃ t, Method.writeText site r text s =
        .done (Method.countValue (Host.encode text).length) t ∧
      c.Behind (Host.encode text) r name t := by
  obtain ⟨f, hget, hf, hahead, hoffset⟩ := hs.handle
  -- the content after the write, and what a read gives then: the buffer first
  have hcontent := Assoc.get?_insert_self s.host.disk.files name (f.patched c.bytes (Host.encode text))
  refine ⟨_, writeText_apply hget
    (Host.Disk.write_of_ne_nil hf hs.content hahead.offset_le hnew), ?_, fun E scope span => ?_⟩
  · rw [putBehind, ← hoffset]
    exact hcontent
  · have hread := Host.Disk.readAll_eq (d := ⟨s.host.disk.files.insert name _⟩)
      (hf.moved (Host.encode text).length) hcontent
    rw [read_apply (Table.get?_set_of_some hget _) hread, restBehind, ← hoffset, ← hahead.buffer,
      ← Host.File.drop_patched hahead.offset_le]
    exact hostResult_answers ⟨scope, span, "read"⟩ _ _ trivial

/-- **A text lands behind the fetched blocks**, and what has been fetched is still to be read. -/
theorem behind (hs : s.FileAt r name c) (call : FileCall) {args : List Value}
    (hargs : call.Carries s args) (hne : call.written ≠ []) (E : Engine) (scope : Ref .scope)
    (span : Span) :
    ∃ t, Dispatch.invoke E scope (.file r) call.name args span s =
        .done (Method.countValue call.written.length) t ∧ c.Behind call.written r name t := by
  cases call with
  | read | readLine => exact absurd rfl hne
  | write text =>
    obtain ⟨v, rfl, hv⟩ := hargs
    exact write_apply hv ▸ writeText_behind ⟨scope, span, "write"⟩ hs hne
  | writeLine text =>
    -- the value is written as its text
    obtain ⟨v, rfl, hv⟩ := hargs
    exact writeLine_apply hv ▸ writeText_behind ⟨scope, span, "writeLine"⟩ hs hne

/-- Where the fetched blocks end is where the cursor is if and only if what is written there is
always what is written at the cursor. -/
theorem putBehind_eq_iff (hp : c.pos ≤ c.fetched) (hfetched : c.fetched ≤ c.bytes.length) :
    (∀ text, c.putBehind (Host.encode text) = (c.put (Host.encode text)).bytes) ↔
      c.pos = c.fetched := by
  constructor
  · intro h
    by_contra hne
    have hlt : c.pos < c.fetched := lt_of_le_of_ne hp hne
    -- the byte at the cursor is kept behind it, and overwritten there
    have hbyte (text : String) (b : UInt8) (hb : Host.encode text = [b]) :
        c.bytes[c.pos]? = some b := by
      have hkept : (c.putBehind [b])[c.pos]? = c.bytes[c.pos]? := by
        rw [putBehind, List.append_assoc, List.getElem?_append_left, List.getElem?_take_of_lt hlt]
        rw [List.length_take]
        omega
      have hover : (c.put [b]).bytes[c.pos]? = some b := by
        have hlen : (c.bytes.take c.pos).length = c.pos := by
          rw [List.length_take]
          omega
        rw [put, List.append_assoc, List.getElem?_append_right hlen.le, hlen, Nat.sub_self]
        rfl
      rw [← hkept, ← hover, ← hb, h text]
    -- so the byte at the cursor would be that of two texts at once
    exact absurd ((hbyte "a" 97 (by decide +kernel)).symm.trans (hbyte "b" 98 (by decide +kernel)))
      (by decide)
  · intro h text
    rw [putBehind, put, h]

/-- **A call that is in step does what the cursor does.** -/
theorem served (hs : s.FileAt r name c) {call : FileCall} (hstep : c.InStep call)
    {args : List Value} (hargs : call.Carries s args) (E : Engine) (scope : Ref .scope)
    (span : Span) :
    (Dispatch.invoke E scope (.file r) call.name args span s).Answers span
      (s.FileLeft r name (c.call call).2) (c.call call).1 := by
  -- reads are in step always, writes if nothing is fetched beyond the cursor
  cases call with
  | read =>
    obtain rfl := hargs
    exact read_answers hs E scope span
  | readLine =>
    obtain rfl := hargs
    exact readLine_answers hs E scope span
  | write text =>
    obtain ⟨v, rfl, hv⟩ := hargs
    exact write_apply hv ▸ writeText_answers ⟨scope, span, "write"⟩ hs hstep
  | writeLine text =>
    obtain ⟨v, rfl, hv⟩ := hargs
    exact writeLine_apply hv ▸ writeText_answers ⟨scope, span, "writeLine"⟩ hs hstep

/-! ### Histories -/

/-- What happens while a file is open. -/
inductive Event where
  /-- The handle is read from or written to. -/
  | call (call : FileCall)
  /-- Something that leaves the handle and the file as they are. -/
  | other

/-- One step of the engine, as far as the handle and the file are concerned. -/
inductive Step (r : Ref .file) (name : String) : State → Event → State → Prop
  | call {s t : State} {call : FileCall} {args : List Value} {E : Engine} {scope : Ref .scope}
      {span : Span} {o : Except Fault Value} :
      call.Carries s args →
      (Dispatch.invoke E scope (.file r) call.name args span s).Ends o t →
      Step r name s (.call call) t
  | other {s t : State} :
      t.host.files.get? r = s.host.files.get? r →
      t.host.disk.files.get? name = s.host.disk.files.get? name → Step r name s .other t

/-- The cursor in a file that has just been opened. -/
def start (content : Host.Bytes) : FileCursor := ⟨content, 0, 0⟩

/-- The cursor after one more event. -/
def next (c : FileCursor) : Event → FileCursor
  | .call call => (c.call call).2
  | .other => c

/-- The cursor after a history of events. -/
def after (c : FileCursor) (events : List Event) : FileCursor := events.foldl next c

/-- Every call of the history is in step with the cursor. -/
def Admits (c : FileCursor) : List Event → Prop
  | [] => True
  | e :: rest => (∀ call, e = .call call → c.InStep call) ∧ (c.next e).Admits rest

/-- A step that is in step with the cursor leaves the handle there. -/
theorem Step.fileAt {e : Event} (hstep : Step r name s e t) (hs : s.FileAt r name c)
    (hin : ∀ call, e = .call call → c.InStep call) : t.FileAt r name (c.next e) := by
  cases hstep with
  | call hargs hends => exact ((served hs (hin _ rfl) hargs _ _ _).of_ends hends).holds
  | other hhandle hcontent =>
    obtain ⟨f, hget, hf⟩ := hs.handle
    exact ⟨hcontent.trans hs.content, f, hhandle.trans hget, hf⟩

/-- After a history that is in step, the handle is where the cursor is. -/
theorem fileAt_after {events : List Event} (hrun : Runs (Step r name) s events t)
    (hs : s.FileAt r name c) (hin : c.Admits events) : t.FileAt r name (c.after events) := by
  -- the cursor follows the history event by event
  induction hrun generalizing c with
  | nil => exact hs
  | cons hstep _ ih => exact ih (hstep.fileAt hs hin.1) hin.2

/-- Every history of calls that are in step takes place. -/
theorem exists_runs {calls : List FileCall} (hs : s.FileAt r name c)
    (hin : c.Admits (calls.map .call)) : ∃ t, Runs (Step r name) s (calls.map .call) t := by
  induction calls generalizing s c with
  -- each call is answered in some way, with the arguments it carries
  | nil => exact ⟨s, .nil s⟩
  | cons call calls ih =>
    obtain ⟨args, hargs⟩ := call.exists_carries s
    obtain ⟨o, t, hends⟩ := (served hs (hin.1 call rfl) hargs .idle State.root .unknown).exists_ends
    have hstep : Step r name s (.call call) t := .call hargs hends
    obtain ⟨u, hrun⟩ := ih (hstep.fileAt hs hin.1) hin.2
    exact ⟨u, .cons hstep hrun⟩

/-- A file that is opened for reading and writing is at its start. -/
theorem openFile_update (E : Engine) (site : CallSite) {path mode : String}
    {content : Host.Bytes} (hmode : mode = "r+" ∨ mode = "+<")
    (hpath : s.host.disk.resolve path = .ok (some name))
    (hcontent : s.host.disk.files.get? name = some content) :
    ∃ r t, Builtin.run E site [.text path, .text mode] .openFile s = .done (.file r) t ∧
      t.FileAt r name (start content) := by
  -- both names of the mode mean reading and writing, without emptying the file and without
  -- appending
  have hname : Host.Mode.ofName? mode = some ⟨true, true, false, false, false⟩ := by
    rcases hmode with rfl | rfl <;> decide +kernel
  let f : Host.File := ⟨path, some name, ⟨true, true, false, false, false⟩, true, 0, []⟩
  have hopen : s.host.disk.openFile path f.mode = .ok (f, s.host.disk) := by
    unfold Host.Disk.openFile
    rw [hpath]
    dsimp only [bind, Except.bind]
    rw [hcontent]
    rfl
  have hhandle : Builtin.openHandle site path f.mode s = .done f s := by
    rw [Builtin.openHandle, Method.disk, gets_bind_apply, hopen]
    rfl
  let files := s.host.files.add f
  refine ⟨files.1, { s with host := { s.host with files := files.2 } }, ?_, hcontent, f,
    Table.get?_add_self s.host.files f, ⟨rfl, rfl, rfl, rfl, rfl⟩,
    ⟨rfl, le_rfl, Nat.zero_le _⟩, rfl⟩
  have hrun : Builtin.run E site [.text path, .text mode] .openFile s =
      (ofOption (Host.Mode.ofName? mode) (.fileMode mode) site.span >>= fun m =>
        Builtin.openHandle site path m >>= fun f => Builtin.addFile f >>= fun r =>
          pure (.file r)) s := rfl
  rw [hrun, hname]
  exact bind_of_done hhandle _

/-- **A file that is read and written is one sequence of bytes with one position, until a text is
written when more has been fetched than read.** Take a file that is opened for reading and writing,
with any content, and any history of reads, lines read and texts written through the handle, in which
each text comes when nothing has been fetched beyond the position. Then the content of the file is
that of the cursor after the same calls, and the next call answers what the cursor answers and leaves
the content that it leaves, if it is in step itself. What is fetched are blocks, until they reach the
end of the line.

A text that comes when more has been fetched is written behind that, while the bytes in between are
still to be read. So one more text is always written where the cursor is if and only if nothing has
been fetched beyond it. -/
theorem served_in_step {path mode : String} {content : Host.Bytes}
    (hmode : mode = "r+" ∨ mode = "+<") (hpath : s.host.disk.resolve path = .ok (some name))
    (hcontent : s.host.disk.files.get? name = some content) (E : Engine) (site : CallSite) :
    ∃ r t, Builtin.run E site [.text path, .text mode] .openFile s = .done (.file r) t ∧
      ∀ events u, Runs (Step r name) t events u → (start content).Admits events →
        let c := (start content).after events
        u.FileAt r name c ∧
        (∀ (call : FileCall) args, call.Carries u args → c.InStep call →
          ∀ (E : Engine) (scope : Ref .scope) (span : Span),
            (Dispatch.invoke E scope (.file r) call.name args span u).Answers span
              (u.FileLeft r name (c.call call).2) (c.call call).1) ∧
        (∀ (call : FileCall) args, call.Carries u args → call.written ≠ [] →
          ∀ (E : Engine) (scope : Ref .scope) (span : Span),
            ∃ v, Dispatch.invoke E scope (.file r) call.name args span u =
                .done (Method.countValue call.written.length) v ∧
              c.Behind call.written r name v) ∧
        ((∀ text, c.putBehind (Host.encode text) = (c.put (Host.encode text)).bytes) ↔
          c.pos = c.fetched) := by
  obtain ⟨r, t, hopen, ht⟩ := openFile_update E site hmode hpath hcontent
  refine ⟨r, t, hopen, fun events u hrun hin => ?_⟩
  have hu := fileAt_after hrun ht hin
  obtain ⟨f, -, -, hahead, hoffset⟩ := hu.handle
  exact ⟨hu, fun _ _ hargs hstep => served hu hstep hargs,
    fun call _ hargs hne => behind hu call hargs hne,
    putBehind_eq_iff (hoffset ▸ hahead.pos_le) (hoffset ▸ hahead.offset_le)⟩

/-- A state with a file of two lines. -/
def twoLines : State :=
  { State.blank with host := .empty ⟨.ofList [("t", Host.encode "a\nb\n")]⟩ }

/-- It holds both of them. -/
theorem twoLines_content : twoLines.host.disk.files.get? "t" = some (Host.encode "a\nb\n") := by
  decide +kernel

/-- Its name is that of the file. -/
theorem twoLines_resolve : twoLines.host.disk.resolve "t" = .ok (some "t") := by
  -- the only part of a path without a slash is the path
  have hend : String.splitOnAux "t" "/" 0 ⟨1⟩ 0 [] = ["t"] := by
    rw [String.splitOnAux]
    decide +kernel
  have hsplit : "t".splitOn "/" = ["t"] := by
    rw [String.splitOn, if_neg (by decide), String.splitOnAux]
    exact hend
  have hparts : Host.Disk.parts "t" = ["t"] := by
    rw [Host.Disk.parts, hsplit]
    decide +kernel
  have hslash : "t".endsWith "/" = false := by decide +kernel
  rw [Host.Disk.resolve, if_neg (by decide), hparts]
  simp [hslash]

/-- A line is read, and the rest, and a text put behind it. -/
theorem served_in_step_twoLines :
    ∃ r t u, Builtin.run .idle ⟨State.root, .unknown, "open"⟩ [.text "t", .text "r+"] .openFile
        twoLines = .done (.file r) t ∧
      Runs (Step r "t") t [.call .readLine, .call .read, .call (.write "c")] u ∧
      u.FileAt r "t" ⟨Host.encode "a\nb\nc", 5, 5⟩ := by
  obtain ⟨r, t, hopen, hserved⟩ := served_in_step (.inl rfl) twoLines_resolve twoLines_content .idle
    ⟨State.root, .unknown, "open"⟩
  have hin : (start (Host.encode "a\nb\n")).Admits
      ([.readLine, .read, .write "c"].map .call) := by
    -- the two reads are in step, and so is the write, which comes when all has been read
    refine ⟨?_, ?_, ?_, trivial⟩ <;> rintro _ ⟨⟩
    · exact .inl rfl
    · exact .inl rfl
    · exact .inr (by decide +kernel)
  have ht := (hserved [] t (.nil t) trivial).1
  obtain ⟨u, hrun⟩ := exists_runs ht hin
  have hafter : (start (Host.encode "a\nb\n")).after
      ([.readLine, .read, .write "c"].map .call) = ⟨Host.encode "a\nb\nc", 5, 5⟩ := by
    decide +kernel
  exact ⟨r, t, u, hopen, hrun, hafter ▸ (hserved _ u hrun hin).1⟩

/-- **A text is written out of place.** After the first of two lines has been read, both have been
fetched: what is written then comes behind them, and the second line is still to be read. -/
theorem write_out_of_place :
    ∃ r s₁ s₂ s₃, Builtin.run .idle ⟨State.root, .unknown, "open"⟩ [.text "t", .text "r+"] .openFile
        twoLines = .done (.file r) s₁ ∧
      Dispatch.invoke .idle State.root (.file r) "readLine" [] .unknown s₁ = .done (.text "a") s₂ ∧
      Dispatch.invoke .idle State.root (.file r) "write" [.text "X"] .unknown s₂ =
        .done (.int 1) s₃ ∧
      s₃.host.disk.files.get? "t" = some (Host.encode "a\nb\nX") ∧
      (∃ s₄, Dispatch.invoke .idle State.root (.file r) "read" [] .unknown s₃ =
        .done (.text "b\n") s₄) ∧
      let c := (start (Host.encode "a\nb\n")).after [.call .readLine, .call (.write "X")]
      c.bytes = Host.encode "a\nX\n" ∧ (c.call .read).1 = .ok (.text "\n") := by
  obtain ⟨r, s₁, hopen, h₁⟩ := openFile_update .idle ⟨State.root, .unknown, "open"⟩
    (.inl rfl) twoLines_resolve twoLines_content
  have hbytes : Host.encode "a\nb\n" = [97, 10, 98, 10] := by decide +kernel
  have hX : Host.encode "X" = [88] := by decide +kernel
  rw [hbytes] at h₁ ⊢
  have hline : ∃ s₂, Dispatch.invoke .idle State.root (.file r) "readLine" [] .unknown s₁ =
      .done (.text "a") s₂ ∧ s₂.FileAt r "t" ⟨[97, 10, 98, 10], 2, 4⟩ := by
    -- the first line is read, and with it everything is fetched
    have hanswers := readLine_answers h₁ .idle State.root .unknown
    have hcall : ((start [97, 10, 98, 10]).call .readLine).1 = .ok (.text "a") := rfl
    rw [hcall] at hanswers
    obtain ⟨s₂, hline, hleft⟩ := hanswers.exists_done
    exact ⟨s₂, hline, hleft.holds⟩
  obtain ⟨s₂, hline, h₂⟩ := hline
  obtain ⟨s₃, hwrite, hbehind⟩ := behind h₂ (.write "X") ⟨.text "X", rfl, rfl⟩
    (by decide +kernel) .idle State.root .unknown
  have hafter : (start [97, 10, 98, 10]).after [.call .readLine, .call (.write "X")] =
      ⟨[97, 10, 88, 10], 3, 4⟩ := by decide +kernel
  -- so the write comes behind what is fetched, two bytes too late
  rw [FileCall.written, hX] at hwrite hbehind
  rw [hafter]
  obtain ⟨s₄, hread, -⟩ := (hbehind.read .idle State.root .unknown).exists_done (v := .text "b\n")
  exact ⟨r, s₁, s₂, s₃, hopen, hline, hwrite, hbehind.content.trans (by decide +kernel),
    ⟨s₄, hread⟩, by decide +kernel, rfl⟩

end FileCursor

end ScriptEngine
