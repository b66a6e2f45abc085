import ScriptEngine.Binary64.Text
import ScriptEngine.Host.Disk
import ScriptEngine.Text.Numeral

/-!
# Cells of a table

A cell is empty, a number, a text or bytes. Cells of all kinds are ordered: the empty one
first, then numbers by value, texts by characters, bytes. A column has an affinity, which
turns what is stored in it, and what is compared with it, into its preferred kind when that
loses nothing.
-/

namespace ScriptEngine.Host.Sql

/-- The contents of a column of a row. -/
inductive Cell where
  | null
  | int (n : Int64)
  | real (x : Float)
  | text (s : String)
  | blob (b : Bytes)
deriving Inhabited

/-- What a column makes of the values that are stored in it. -/
inductive Affinity where
  | integer
  | text
  | real
  | numeric
  | blob
deriving DecidableEq, Repr

/-- The affinity that the declared type of a column asks for. -/
def Affinity.ofType (type : String) : Affinity :=
  let type := type.toUpper
  let has (word : String) : Bool := (type.splitOn word).length > 1
  if has "INT" then .integer
  else if has "CHAR" || has "CLOB" || has "TEXT" then .text
  else if has "BLOB" || type.isEmpty then .blob
  else if has "REAL" || has "FLOA" || has "DOUB" then .real
  else .numeric

namespace Cell

/-! ### Numbers and their text -/

/-- Whether a double lies in the range of the integers of 64 bits. -/
def fitsInt (x : Float) : Bool := -9223372036854775808.0 ≤ x && x < 9223372036854775808.0

/-- A double as an integer if nothing is lost. -/
def realAsInt (x : Float) : Cell :=
  if fitsInt x && x.toInt64.toFloat == x then .int x.toInt64 else .real x

/-- An integer of any size: of 64 bits if it fits, else a double. -/
def ofInteger (n : Int) : Cell :=
  if -9223372036854775808 ≤ n ∧ n ≤ 9223372036854775807 then .int (Int64.ofInt n)
  else .real (Float.ofInt n)

/-- The digits without zeros at the end, of which the first stays. -/
def trimZeros (ds : List Char) : List Char :=
  match (ds.reverse.dropWhile (· == '0')).reverse with
  | [] => ['0']
  | ds => ds

/-- At least two digits of an exponent with its sign. -/
def exponentChars (e : Int) : List Char :=
  let digits := (toString e.natAbs).toList
  (if e < 0 then '-' else '+') :: (if digits.length < 2 then '0' :: digits else digits)

/-- A fraction after the point; a zero if there is none. -/
def fractionChars (ds : List Char) : List Char := if ds.isEmpty then ['0'] else ds

/-- Digits `d₀d₁…` that stand for `d₀.d₁… · 10 ^ e`, as a number with a point: positional for
exponents from -4 to 14. -/
def realChars (ds : List Char) (e : Int) : List Char :=
  if e < -4 ∨ 14 < e then
    ds.take 1 ++ '.' :: fractionChars (ds.drop 1) ++ 'e' :: exponentChars e
  else if e < 0 then '0' :: '.' :: List.replicate (e.natAbs - 1) '0' ++ ds
  else
    let whole := e.toNat + 1
    ds.take whole ++ List.replicate (whole - ds.length) '0' ++ '.' :: fractionChars (ds.drop whole)

/-- A double with up to 15 significant digits. -/
def realText (x : Float) : String :=
  String.ofList <|
    match Binary64.parts x with
    | .nan => []
    | .infinite s => Binary64.signed s ['I', 'n', 'f']
    | .finite s m q =>
      let (num, den) := Binary64.magnitude m q
      let (d, e) := Binary64.significant num den 14
      Binary64.signed (s && m != 0) (realChars (trimZeros d.repr.toList) e)

/-- The text of a cell that is no blob. -/
def asText : Cell → Cell
  | int n => .text (toString n.toInt)
  | real x => .text (realText x)
  | c => c

/-- A number at the start of a text, behind blanks: the number, or none if there is no digit;
and whether only blanks follow it. -/
def readNumber (s : List Char) : Option Cell × Bool :=
  let isSpace (c : Char) : Bool := c == ' ' || ('\t' ≤ c && c ≤ '\r')
  let s := s.dropWhile isSpace
  let (negative, body) := match s with
    | '-' :: rest => (true, rest)
    | '+' :: rest => (false, rest)
    | rest => (false, rest)
  let whole := body.takeWhile Char.isDigit
  let (isReal, fraction, rest) := match body.dropWhile Char.isDigit with
    | '.' :: more => (true, more.takeWhile Char.isDigit, more.dropWhile Char.isDigit)
    | more => (false, [], more)
  if whole.isEmpty && fraction.isEmpty then (none, false)
  else
    let (mark, tail) := match rest with
      | c :: more => if c = 'e' ∨ c = 'E' then ([c], more) else ([], rest)
      | [] => ([], [])
    let (sign, digits) := match tail with
      | c :: more => if c = '-' ∨ c = '+' then ([c], more) else ([], tail)
      | [] => ([], [])
    let exponent := digits.takeWhile Char.isDigit
    let hasExponent := !mark.isEmpty && !exponent.isEmpty
    let rest := if hasExponent then digits.dropWhile Char.isDigit else rest
    let e : Int := if hasExponent then
        (Binary64.readExponent? (mark ++ sign ++ exponent)).getD 0 else 0
    let n := Text.natOfDigits (whole ++ fraction)
    let number :=
      if isReal || hasExponent then .real (Binary64.ofDecimal negative n (e - fraction.length))
      else ofInteger (if negative then -(n : Int) else n)
    (some number, rest.all isSpace)

/-- A text that is a number in full becomes the number, an integer if nothing is lost. -/
def asNumeric : Cell → Cell
  | text s =>
    match readNumber s.toList with
    | (some (.real x), true) => realAsInt x
    | (some c, true) => c
    | _ => .text s
  | c => c

/-- The cell as a column of an affinity stores it. -/
def stored (a : Affinity) (c : Cell) : Cell :=
  match a with
  | .blob => c
  | .text => c.asText
  | .real =>
    match c.asNumeric with
    | int n => .real n.toFloat
    | c => c
  | .integer =>
    match c.asNumeric with
    | real x => realAsInt x
    | c => c
  | .numeric =>
    match c.asNumeric with
    | real x => realAsInt x
    | c => c

/-- The number that a cell counts as in arithmetic; none for an empty one. -/
def number? : Cell → Option Cell
  | null => none
  | int n => some (.int n)
  | real x => some (.real x)
  | text s => some ((readNumber s.toList).1.getD (.int 0))
  | blob b => some ((readNumber (b.map fun x => Char.ofNat x.toNat)).1.getD (.int 0))

/-- Whether a cell counts as true; none for an empty one. -/
def truth? (c : Cell) : Option Bool :=
  c.number?.map fun
    | int n => n != 0
    | real x => x != 0.0
    | _ => false

/-- A truth value as a cell. -/
def ofTruth : Option Bool → Cell
  | none => .null
  | some b => .int (if b then 1 else 0)

/-! ### Order -/

/-- An integer against a double, exactly. -/
def compareIntReal (n : Int64) (x : Float) : Ordering :=
  if x < -9223372036854775808.0 then .gt
  else if 9223372036854775808.0 ≤ x then .lt
  else
    let t := x.toInt64
    if n < t then .lt
    else if t < n then .gt
    else if t.toFloat < x then .lt
    else if x < t.toFloat then .gt
    else .eq

/-- Bytes by their first difference. -/
def compareBytes : Bytes → Bytes → Ordering
  | [], [] => .eq
  | [], _ :: _ => .lt
  | _ :: _, [] => .gt
  | a :: as, b :: bs => if a < b then .lt else if b < a then .gt else compareBytes as bs

/-- The place of a kind among the kinds. -/
def rank : Cell → Nat
  | null => 0
  | int _ => 1
  | real _ => 1
  | text _ => 2
  | blob _ => 3

/-- The order of cells. -/
def cmp : Cell → Cell → Ordering
  | int a, int b => if a < b then .lt else if b < a then .gt else .eq
  | int a, real b => compareIntReal a b
  | real a, int b => (compareIntReal b a).swap
  | real a, real b => if a < b then .lt else if b < a then .gt else .eq
  | text a, text b => compareBytes (encode a) (encode b)
  | blob a, blob b => compareBytes a b
  | a, b => compare a.rank b.rank

end Cell

end ScriptEngine.Host.Sql
