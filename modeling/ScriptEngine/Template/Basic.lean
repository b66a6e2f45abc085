import ScriptEngine.Machine.Inspect
import ScriptEngine.Text.Numeral

/-!
# Templates

A template is a text with verbs such as `%d` or `%-8.2f`: flags, a width, a precision, and a
letter. `Template.pieces` takes it apart.
-/

namespace ScriptEngine.Template

/-- How the text of a verb is laid out. -/
structure Spec where
  /-- Fill up behind, not in front. -/
  left : Bool
  /-- Write a plus before numbers that are not negative. -/
  plus : Bool
  /-- Fill up numbers with zeros. -/
  zero : Bool
  /-- Write a blank before numbers that are not negative. -/
  space : Bool
  width : Option Nat
  precision : Option Nat
deriving DecidableEq, Repr, Inhabited

/-- No flags, no width, no precision. -/
def Spec.plain : Spec := ⟨false, false, false, false, none, none⟩

/-- A piece of a template. -/
inductive Piece where
  | literal (c : Char)
  | verb (spec : Spec) (c : Char)
  /-- A percent sign at the end, without a verb. -/
  | dangling
deriving DecidableEq, Repr

/-- Whether a character is a flag. -/
def isFlag (c : Char) : Bool := c == '-' || c == '+' || c == '0' || c == ' '

/-- The flags among some characters. -/
def Spec.ofFlags (flags : List Char) : Spec :=
  { Spec.plain with
    left := flags.contains '-', plus := flags.contains '+', zero := flags.contains '0',
    space := flags.contains ' ' }

/-- The number that digits write, if it fits 64 bits. -/
def size? (digits : List Char) : Option Nat :=
  if digits.isEmpty then none
  else
    let n := Text.natOfDigits digits
    if n < 18446744073709551616 then some n else none

/-- What stands between the percent sign and the letter, and the rest. A precision without
digits, or with too many, is zero. -/
def readSpec (s : List Char) : Spec × List Char :=
  let spec := Spec.ofFlags (s.takeWhile isFlag)
  let s := s.dropWhile isFlag
  let spec := { spec with width := size? (s.takeWhile Char.isDigit) }
  match s.dropWhile Char.isDigit with
  | '.' :: rest =>
    ({ spec with precision := some ((size? (rest.takeWhile Char.isDigit)).getD 0) },
      rest.dropWhile Char.isDigit)
  | rest => (spec, rest)

/-- The pieces of a template, at most `fuel` of them. -/
def piecesWithin : Nat → List Char → List Piece
  | 0, _ => []
  | _, [] => []
  | fuel + 1, c :: rest =>
    if c = '%' then
      match readSpec rest with
      | (_, []) => [.dangling]
      | (spec, verb :: rest) =>
        (if verb = '%' then .literal '%' else .verb spec verb) :: piecesWithin fuel rest
    else .literal c :: piecesWithin fuel rest

/-- The pieces of a template. -/
def pieces (s : List Char) : List Piece := piecesWithin s.length s

/-! ### Layout -/

/-- The greatest number of bytes that the host can lay out in a row. -/
def maxRow : Nat := 9223372036854775807

/-- How many characters a text is short of the width. -/
def Spec.missing (spec : Spec) (body : List Char) : Nat := spec.width.getD 0 - body.length

/-- A text that is filled up to the width. Zeros go between the sign and the digits. -/
def Spec.filled (spec : Spec) (body : List Char) (numeric : Bool) : List Char :=
  let fill := spec.missing body
  if spec.left then body ++ List.replicate fill ' '
  else if spec.zero && numeric then
    match body with
    | [] => List.replicate fill '0'
    | c :: digits =>
      if c = '-' ∨ c = '+' ∨ c = ' ' then c :: (List.replicate fill '0' ++ digits)
      else List.replicate fill '0' ++ body
  else List.replicate fill ' ' ++ body

/-- Fills a text up to the width; none if the host has no room for what is filled in. -/
def Spec.pad (spec : Spec) (body : List Char) (numeric : Bool) : Option (List Char) :=
  if spec.missing body ≤ maxRow then some (spec.filled body numeric) else none

/-- A magnitude with its sign, or with what the flags ask for in place of one. -/
def Spec.signed (spec : Spec) (negative : Bool) (magnitude : List Char) : List Char :=
  if negative then '-' :: magnitude
  else if spec.plus then '+' :: magnitude
  else if spec.space then ' ' :: magnitude
  else magnitude

end ScriptEngine.Template
