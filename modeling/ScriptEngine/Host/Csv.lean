import ScriptEngine.Host.Disk

/-!
# Comma-separated values

Records of fields, one record a line. A field in quotes may hold delimiters, line ends and
doubled quotes. Empty lines are no records, and records may differ in length.

`Csv.Cursor` walks through the bytes of a file; `Csv.record` writes one record, quoting the
fields that need it.
-/

namespace ScriptEngine.Host.Csv

/-- Where a reader stands: what is left, and the position for messages. -/
structure Cursor where
  rest : Bytes
  /-- Records read so far. -/
  record : Nat
  /-- The line of the next byte, from one. -/
  line : Nat
  /-- The place of the next byte. -/
  offset : Nat
deriving Inhabited

/-- A state of the record grammar. -/
inductive Phase where
  | startRecord
  | startField
  | inField
  | inQuotes
  /-- After a quote within a quoted field: the field's end, or half of a doubled quote. -/
  | afterQuote
deriving DecidableEq, Repr

/-- A record that is being read: finished fields and the present one, both in reverse. -/
structure Draft where
  fields : List Bytes
  field : Bytes

/-- The draft with the present field finished. -/
def Draft.close (d : Draft) : Draft := ⟨d.field.reverse :: d.fields, []⟩

def Draft.add (d : Draft) (b : UInt8) : Draft := { d with field := b :: d.field }

/-- The fields of a finished record. -/
def Draft.toList (d : Draft) : List Bytes := d.fields.reverse

/-- Whether a byte ends a line. -/
def isLineEnd (b : UInt8) : Bool := b == 10 || b == 13

/-- Reads one record from `s`: its fields, what follows, how many bytes were consumed and how
many line feeds were among them. A record ends at the first byte of its line end; what is
left of that is skipped as an empty line. -/
def readRecord (delimiter : UInt8) : Phase → Draft → Nat → Nat → Bytes →
    Option (List Bytes) × Bytes × Nat × Nat
  | phase, draft, used, lines, [] =>
    match phase with
    | .startRecord => (none, [], used, lines)
    | _ => (some draft.close.toList, [], used, lines)
  | phase, draft, used, lines, b :: rest =>
    let used := used + 1
    let lines' := if b = 10 then lines + 1 else lines
    let finish (d : Draft) : Option (List Bytes) × Bytes × Nat × Nat :=
      (some d.close.toList, rest, used, lines')
    match phase with
    | .startRecord =>
      if isLineEnd b then readRecord delimiter .startRecord draft used lines' rest
      else if b = 34 then readRecord delimiter .inQuotes draft used lines' rest
      else if b = delimiter then readRecord delimiter .startField draft.close used lines' rest
      else readRecord delimiter .inField (draft.add b) used lines' rest
    | .startField =>
      if b = 34 then readRecord delimiter .inQuotes draft used lines' rest
      else if b = delimiter then readRecord delimiter .startField draft.close used lines' rest
      else if isLineEnd b then finish draft
      else readRecord delimiter .inField (draft.add b) used lines' rest
    | .inField =>
      if b = delimiter then readRecord delimiter .startField draft.close used lines' rest
      else if isLineEnd b then finish draft
      else readRecord delimiter .inField (draft.add b) used lines' rest
    | .inQuotes =>
      if b = 34 then readRecord delimiter .afterQuote draft used lines' rest
      else readRecord delimiter .inQuotes (draft.add b) used lines' rest
    | .afterQuote =>
      if b = 34 then readRecord delimiter .inQuotes (draft.add b) used lines' rest
      else if b = delimiter then readRecord delimiter .startField draft.close used lines' rest
      else if isLineEnd b then finish draft
      else readRecord delimiter .inField (draft.add b) used lines' rest

/-- The mark that may stand in front of a text in UTF-8. -/
def byteOrderMark : Bytes := [0xEF, 0xBB, 0xBF]

/-- The start of a file. -/
def Cursor.start (all : Bytes) : Cursor := ⟨all, 0, 1, 0⟩

/-- The next record, and the cursor behind it. A mark at the start of the file belongs to no
record. -/
def Cursor.next (delimiter : UInt8) (c : Cursor) : Option (List Bytes) × Cursor :=
  let mark := if c.offset = 0 ∧ c.rest.take 3 = byteOrderMark then 3 else 0
  match readRecord delimiter .startRecord ⟨[], []⟩ mark 0 (c.rest.drop mark) with
  | (fields, rest, used, lines) =>
    (fields, ⟨rest, c.record + 1, c.line + lines, c.offset + used⟩)

/-- The length of the longest start of some bytes that is text. -/
def validLength (b : Bytes) : Nat :=
  ((List.range (b.length + 1)).reverse.find? fun n => (decode (b.take n)).toBool).getD 0

/-- A field that is no text: its place in the record and the bytes before the flaw. -/
structure BadField where
  field : Nat
  valid : Nat

/-- The texts of a record, or its first field that is no text. -/
def texts (place : Nat) : List Bytes → Except BadField (List String)
  | [] => .ok []
  | f :: rest =>
    match decode f with
    | .ok s => (texts (place + 1) rest).map (s :: ·)
    | .error _ => .error ⟨place, validLength f⟩

/-- The message for a record that starts at the cursor and has a field that is no text. -/
def BadField.message (e : BadField) (c : Cursor) : String :=
  "CSV parse error: record " ++ toString c.record ++ " (line " ++ toString c.line ++ ", field: " ++
    toString e.field ++ ", byte: " ++ toString c.offset ++
    "): invalid utf-8: invalid UTF-8 in field " ++ toString e.field ++ " near byte index " ++
    toString e.valid

/-! ### Writing -/

/-- Whether a field has to be quoted: it holds the delimiter, a quote or a line end. -/
def needsQuotes (delimiter : UInt8) (field : Bytes) : Bool :=
  field.any fun b => b == delimiter || b == 34 || isLineEnd b

/-- A field as it is written. -/
def writeField (delimiter : UInt8) (field : Bytes) : Bytes :=
  if needsQuotes delimiter field then
    34 :: field.flatMap (fun b => if b = 34 then [34, 34] else [b]) ++ [34]
  else field

/-- The fields with the delimiter between them. -/
def joinFields (delimiter : UInt8) : List Bytes → Bytes
  | [] => []
  | [f] => writeField delimiter f
  | f :: rest => writeField delimiter f ++ delimiter :: joinFields delimiter rest

/-- A record with its line feed. A record that would be an empty line is written as an empty
field in quotes. -/
def record (delimiter : UInt8) (fields : List Bytes) : Bytes :=
  let body := joinFields delimiter fields
  (if body.isEmpty then [34, 34] else body) ++ [10]

end ScriptEngine.Host.Csv
