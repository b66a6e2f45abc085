import ScriptEngine.Assoc
import ScriptEngine.Binary64.Text

/-!
# JSON documents

A document as a tree. Integers between the least signed and the greatest unsigned number of
64 bits stay integers; all other numbers are doubles. The members of an object are in the
order in which their names first appeared.
-/

namespace ScriptEngine

/-- A JSON document. -/
inductive Json where
  | null
  | bool (b : Bool)
  | int (n : Int)
  | real (x : Float)
  | text (s : String)
  | array (items : List Json)
  | object (members : List (String × Json))
deriving Inhabited

namespace Json

/-! ### Writing -/

/-- Two hexadecimal digits. -/
def hexPair (n : Nat) : List Char :=
  let ds := Nat.toDigits 16 n
  List.replicate (2 - ds.length) '0' ++ ds

/-- A character as it stands in a string. -/
def escapeChar (c : Char) : List Char :=
  if c = '"' then ['\\', '"']
  else if c = '\\' then ['\\', '\\']
  else if c.toNat = 8 then ['\\', 'b']
  else if c = '\t' then ['\\', 't']
  else if c = '\n' then ['\\', 'n']
  else if c.toNat = 12 then ['\\', 'f']
  else if c = '\r' then ['\\', 'r']
  else if c.toNat < 32 then ['\\', 'u', '0', '0'] ++ hexPair c.toNat
  else [c]

/-- A string in quotes. -/
def quote (s : List Char) : List Char := '"' :: (s.flatMap escapeChar ++ ['"'])

/-- A double with the fewest digits: positional with at least one place while the exponent
of the first digit is from `-5` to `15`, and with a signed exponent of two or more digits
otherwise. -/
def realChars (x : Float) : List Char :=
  match Binary64.parts x with
  | .finite negative m q =>
    let (d, e) := Binary64.shortest m q
    let digits := d.repr.toList
    let order := e + (digits.length : Int) - 1
    Binary64.signed negative <|
      if d = 0 then ['0', '.', '0']
      else if -5 ≤ order ∧ order ≤ 15 then
        if 0 ≤ e then Binary64.positional d e ++ ['.', '0'] else Binary64.positional d e
      else
        let exponent := order.natAbs.repr.toList
        Binary64.withPoint digits ++ 'e' :: (if order < 0 then '-' else '+') ::
          (List.replicate (2 - exponent.length) '0' ++ exponent)
  | _ => ['n', 'u', 'l', 'l']

mutual

/-- A document without any blanks. -/
def chars : Json → List Char
  | null => ['n', 'u', 'l', 'l']
  | bool b => if b then ['t', 'r', 'u', 'e'] else ['f', 'a', 'l', 's', 'e']
  | int n => (toString n).toList
  | real x => realChars x
  | text s => quote s.toList
  | array items => '[' :: (itemChars items ++ [']'])
  | object members => '\x7b' :: (memberChars members ++ ['\x7d'])

/-- Items with commas between them. -/
def itemChars : List Json → List Char
  | [] => []
  | [j] => chars j
  | j :: rest => chars j ++ ',' :: itemChars rest

/-- Members with commas between them. -/
def memberChars : List (String × Json) → List Char
  | [] => []
  | [(k, j)] => quote k.toList ++ ':' :: chars j
  | (k, j) :: rest => quote k.toList ++ ':' :: (chars j ++ ',' :: memberChars rest)

end

/-- The text of a document. -/
def toText (j : Json) : String := String.ofList j.chars

end Json

end ScriptEngine
