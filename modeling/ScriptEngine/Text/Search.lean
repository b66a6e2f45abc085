import ScriptEngine.Text.Blank

/-!
# Finding and replacing

Parts of a text between occurrences of another one. Occurrences are found from the left and
do not overlap. An empty text occurs before every character and at the end.
-/

namespace ScriptEngine.Text

/-- What follows `p` at the start of a text. -/
def stripPrefix? : List Char → List Char → Option (List Char)
  | [], s => some s
  | _ :: _, [] => none
  | c :: p, d :: s => if c = d then stripPrefix? p s else none

theorem stripPrefix?_eq_some_iff {p s t : List Char} : stripPrefix? p s = some t ↔ s = p ++ t := by
  induction p generalizing s with
  | nil => exact Option.some_inj
  | cons c p ih =>
    cases s with
    | nil => exact iff_of_false nofun nofun
    | cons d s =>
      rw [stripPrefix?, List.cons_append, List.cons.injEq]
      split
      · next heq => rw [ih, eq_comm (a := d), and_iff_right heq]
      · next hne => exact iff_of_false nofun fun h => hne h.1.symm

def startsWith (s p : List Char) : Bool := (stripPrefix? p s).isSome

theorem startsWith_iff {s p : List Char} : startsWith s p = true ↔ p <+: s := by
  rw [startsWith, Option.isSome_iff_exists]
  simp only [stripPrefix?_eq_some_iff]
  exact exists_congr fun _ => eq_comm

def endsWith (s p : List Char) : Bool := startsWith s.reverse p.reverse

/-- The place of the first occurrence of `p`. -/
def find? (p : List Char) : List Char → Option Nat
  | [] => if p.isEmpty then some 0 else none
  | c :: rest => if startsWith (c :: rest) p then some 0 else (find? p rest).map (· + 1)

def contains (s p : List Char) : Bool := (find? p s).isSome

/-- The parts of a text around the first `limit` occurrences of a non-empty `sep`, or around
all of them. The first `skip` characters belong to an occurrence, and `part` is the present
part in reverse. -/
def splitFrom (sep : List Char) : Option Nat → Nat → List Char → List Char → List (List Char)
  | _, _, part, [] => [part.reverse]
  | limit, skip + 1, part, _ :: rest => splitFrom sep limit skip part rest
  | limit, 0, part, c :: rest =>
    if limit != some 0 && startsWith (c :: rest) sep then
      part.reverse :: splitFrom sep (limit.map (· - 1)) (sep.length - 1) [] rest
    else splitFrom sep limit 0 (c :: part) rest

/-- The parts of a text around all occurrences of a non-empty `sep`. -/
def split (sep s : List Char) : List (List Char) := splitFrom sep none 0 [] s

/-- Puts `sep` between the parts. -/
def join (sep : List Char) : List (List Char) → List Char
  | [] => []
  | [p] => p
  | p :: rest => p ++ sep ++ join sep rest

/-- Puts `new` before each of the first `limit` characters, or before all; and at the end, if
the limit reaches so far. -/
def interleave (new : List Char) : Option Nat → List Char → List Char
  | some 0, s => s
  | _, [] => new
  | limit, c :: rest => new ++ c :: interleave new (limit.map (· - 1)) rest

/-- The text with `new` in place of the first `limit` occurrences of `old`, or of all. -/
def replace (old new : List Char) (limit : Option Nat) (s : List Char) : List Char :=
  if old.isEmpty then interleave new limit s else join new (splitFrom old limit 0 [] s)

/-- The runs of characters that are not blank; `word` is the present run in reverse. -/
def wordsFrom : List Char → List Char → List (List Char)
  | word, [] => if word.isEmpty then [] else [word.reverse]
  | word, c :: rest =>
    if isBlank c then
      if word.isEmpty then wordsFrom [] rest else word.reverse :: wordsFrom [] rest
    else wordsFrom (c :: word) rest

/-- The words of a text. -/
def words (s : List Char) : List (List Char) := wordsFrom [] s

end ScriptEngine.Text
