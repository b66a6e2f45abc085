import ScriptEngine.Text.Case

/-!
# Suggestions for misspelt names

A name that is not known is answered with known names that are at most two edits away,
letter case ignored: the nearest first, ties in the order of the texts, at most five.

`editDistance` is the Levenshtein distance over characters. It is computed row by row in two rows
of cells: while one holds the distances for the characters read so far, those for one character
more are written over what the other held before.
-/

namespace ScriptEngine.Suggestion

/-- Two rows of cells, one for each initial part of a text of `n` characters. -/
structure Rows (n : Nat) where
  /-- The row that is complete. -/
  complete : Vector Nat (n + 1)
  /-- The row whose cells are used again. -/
  spare : Vector Nat (n + 1)

namespace Rows

/-- Writes a row over old cells, from the left: the row for the character `c`, which `i` others
precede. `above` is the row before. -/
def write (b : Array Char) (above : Vector Nat (b.size + 1)) (i : Nat) (c : Char)
    (cells : Vector Nat (b.size + 1)) : Vector Nat (b.size + 1) :=
  Fin.foldl b.size (fun row j =>
    let cost := if c = b[j] then 0 else 1
    row.set (j + 1) (min (min (above[j.val] + cost) (above[j.val + 1] + 1)) (row[j.val] + 1)))
    (cells.set 0 (i + 1))

/-- Reads a character, which comes with the number of those before it. The rows change places. -/
def advance (b : Array Char) (rows : Rows b.size) (c : Char × Nat) : Rows b.size :=
  ⟨write b rows.complete c.2 c.1 rows.spare, rows.complete⟩

/-- The rows once `a` is read. At the start the complete row counts the characters of `b`. -/
def read (b : Array Char) (spare : Vector Nat (b.size + 1)) (a : List Char) : Rows b.size :=
  a.zipIdx.foldl (advance b) ⟨Vector.ofFn (·.val), spare⟩

end Rows

/-- The least number of insertions, deletions and substitutions of one character that
turn `a` into `b`. -/
def editDistance (a b : List Char) : Nat :=
  (Rows.read b.toArray (Vector.replicate _ 0) a).complete.back

/-- The largest distance that is still offered. -/
def maxDistance : Nat := 2

/-- The largest number of names that are offered. -/
def maxCount : Nat := 5

/-- Nearer names first, then the smaller text. -/
def precedes (a b : Nat × String) : Bool :=
  decide (a.1 < b.1) || (a.1 == b.1 && !decide (b.2 < a.2))

/-- The list without an entry that repeats the text of the one before it. -/
def dropRepeats : List (Nat × String) → List (Nat × String)
  | a :: b :: rest => if a.2 = b.2 then dropRepeats (a :: rest) else a :: dropRepeats (b :: rest)
  | short => short
termination_by s => s.length

/-- The candidates near to `name` together with their distances. -/
def scored (name : String) (candidates : List String) : List (Nat × String) :=
  let lowered := Text.lower name.toList
  (candidates.filter (· != name)).filterMap fun candidate =>
    let distance := editDistance lowered (Text.lower candidate.toList)
    if distance ≤ maxDistance then some (distance, candidate) else none

/-- The names offered in place of `name`. -/
def similar (name : String) (candidates : List String) : List String :=
  ((dropRepeats ((scored name candidates).mergeSort precedes)).take maxCount).map (·.2)

/-- The offered names as they are listed in a message. -/
def text (names : List String) : String := String.intercalate ", " names

end ScriptEngine.Suggestion
