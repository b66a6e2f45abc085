import ScriptEngine.Json.Basic

/-!
# Reading JSON

A reader that stops at the first flaw and says where it is. Places are counted in bytes of
the text in UTF-8; a flaw in a character that has not been consumed lies behind the first
byte of that character.

Numbers with a fraction or an exponent are computed from their first digits as far as these
fit 64 bits, scaled by a power of ten in double arithmetic.
-/

namespace ScriptEngine.Json

/-- What is wrong with a text. -/
inductive Flaw where
  | endInList
  | endInObject
  | endInText
  | endInValue
  | wantsColon
  | wantsListComma
  | wantsObjectComma
  | wantsWord
  | wantsValue
  | badEscape
  | badNumber
  | numberRange
  | controlChar
  | keyNoText
  | loneSurrogate
  | lastComma
  | trailing
  | endInEscape
  | tooDeep
deriving DecidableEq, Repr

def Flaw.message : Flaw → String
  | endInList => "EOF while parsing a list"
  | endInObject => "EOF while parsing an object"
  | endInText => "EOF while parsing a string"
  | endInValue => "EOF while parsing a value"
  | wantsColon => "expected \x60:\x60"
  | wantsListComma => "expected \x60,\x60 or \x60]\x60"
  | wantsObjectComma => "expected \x60,\x60 or \x60\x7d\x60"
  | wantsWord => "expected ident"
  | wantsValue => "expected value"
  | badEscape => "invalid escape"
  | badNumber => "invalid number"
  | numberRange => "number out of range"
  | controlChar => "control character (\\u0000-\\u001F) found while parsing a string"
  | keyNoText => "key must be a string"
  | loneSurrogate => "lone leading surrogate in hex escape"
  | lastComma => "trailing comma"
  | trailing => "trailing characters"
  | endInEscape => "unexpected end of hex escape"
  | tooDeep => "recursion limit exceeded"

/-- A flaw and the number of bytes in front of it. -/
structure Located where
  flaw : Flaw
  place : Nat

/-- Where a reader stands: what is left, and the bytes before it. -/
structure Cursor where
  rest : List Char
  place : Nat

/-- The result of reading a part, and the place behind it. -/
abbrev Reader (α : Type) := Except Located (α × Cursor)

namespace Cursor

/-- A flaw in what has been consumed. -/
def flaw {α : Type} (c : Cursor) (f : Flaw) : Except Located α := .error ⟨f, c.place⟩

/-- A flaw in the next character. -/
def flawAhead {α : Type} (c : Cursor) (f : Flaw) : Except Located α :=
  .error ⟨f, if c.rest.isEmpty then c.place else c.place + 1⟩

/-- The cursor behind `d` when `rest` follows it. -/
def past (c : Cursor) (d : Char) (rest : List Char) : Cursor := ⟨rest, c.place + d.utf8Size⟩

/-- The four characters that may stand between parts. -/
def isBlank (d : Char) : Bool := d == ' ' || d == '\n' || d == '\t' || d == '\r'

/-- The cursor behind all blanks. -/
def skip (c : Cursor) : Cursor :=
  ⟨c.rest.dropWhile isBlank, c.place + (c.rest.takeWhile isBlank).length⟩

/-- The digits at the cursor, and the cursor behind them. -/
def digits (c : Cursor) : List Char × Cursor :=
  let ds := c.rest.takeWhile Char.isDigit
  (ds, ⟨c.rest.dropWhile Char.isDigit, c.place + ds.length⟩)

end Cursor

/-! ### Words and strings -/

/-- Reads the rest of a word. -/
def readWord (j : Json) : List Char → Cursor → Reader Json
  | [], c => .ok (j, c)
  | w :: word, c =>
    match c.rest with
    | [] => c.flaw .endInValue
    | d :: rest =>
      if d = w then readWord j word (c.past d rest)
      else .error ⟨.wantsWord, c.place + 1⟩

/-- The value of a hexadecimal digit. -/
def hexDigit? (c : Char) : Option Nat :=
  if c.isDigit then some (c.toNat - 48)
  else if 'a' ≤ c ∧ c ≤ 'f' then some (c.toNat - 87)
  else if 'A' ≤ c ∧ c ≤ 'F' then some (c.toNat - 55)
  else none

/-- The number of bytes of some characters. -/
def byteCount (s : List Char) : Nat := s.foldl (fun n c => n + c.utf8Size) 0

/-- Reads four hexadecimal digits. -/
def readHex (c : Cursor) : Reader Nat :=
  match c.rest with
  | p :: q :: r :: s :: rest =>
    match hexDigit? p, hexDigit? q, hexDigit? r, hexDigit? s with
    | some p, some q, some r, some s =>
      .ok (((p * 16 + q) * 16 + r) * 16 + s, ⟨rest, c.place + 4⟩)
    | _, _, _, _ => .error ⟨.badEscape, c.place + 4⟩
  | short =>
    if 4 ≤ byteCount short then .error ⟨.badEscape, c.place + 4⟩
    else .error ⟨.endInText, c.place + byteCount short⟩

/-- Whether a code is the first half of a pair. -/
def isLead (n : Nat) : Bool := 0xD800 ≤ n && n ≤ 0xDBFF

/-- Whether a code is the second half of a pair. -/
def isTrail (n : Nat) : Bool := 0xDC00 ≤ n && n ≤ 0xDFFF

/-- Reads one of two characters that have to follow the first half of a pair. -/
def readPairMark (want : Char) (c : Cursor) : Except Located Cursor :=
  match c.rest with
  | [] => c.flaw .endInText
  | d :: rest => if d = want then .ok (c.past d rest) else .error ⟨.endInEscape, c.place + 1⟩

/-- Reads the code of an escape, in one or two halves. -/
def readCode (c : Cursor) : Except Located (Char × Cursor) := do
  let (n, c) : Nat × Cursor ← readHex c
  if isTrail n then c.flaw .loneSurrogate
  else if isLead n then
    let c ← readPairMark '\\' c
    let c ← readPairMark 'u' c
    let (m, c) : Nat × Cursor ← readHex c
    if isTrail m then
      return (Char.ofNat (0x10000 + (n - 0xD800) * 1024 + (m - 0xDC00)), c)
    else c.flaw .loneSurrogate
  else return (Char.ofNat n, c)

/-- Reads what follows a backslash. -/
def readEscape (c : Cursor) : Reader Char :=
  match c.rest with
  | [] => c.flaw .endInText
  | d :: rest =>
    let plain (e : Char) : Reader Char := .ok (e, c.past d rest)
    match d with
    | '"' => plain '"'
    | '\\' => plain '\\'
    | '/' => plain '/'
    | 'b' => plain (Char.ofNat 8)
    | 'f' => plain (Char.ofNat 12)
    | 'n' => plain '\n'
    | 'r' => plain '\r'
    | 't' => plain '\t'
    | 'u' => readCode (c.past d rest)
    | _ => .error ⟨.badEscape, c.place + 1⟩

/-- Reads a string behind its first quote; `acc` holds its characters in reverse. -/
def readTextFrom : Nat → List Char → Cursor → Reader String
  | 0, _, c => c.flaw .endInText
  | fuel + 1, acc, c =>
    match c.rest with
    | [] => c.flaw .endInText
    | d :: rest =>
      if d = '"' then .ok (String.ofList acc.reverse, c.past d rest)
      else if d = '\\' then
        match readEscape (c.past d rest) with
        | .ok (e, c) => readTextFrom fuel (e :: acc) c
        | .error e => .error e
      else if d.toNat < 32 then .error ⟨.controlChar, c.place + 1⟩
      else readTextFrom fuel (d :: acc) (c.past d rest)

/-- Reads a string behind its first quote. -/
def readText (c : Cursor) : Reader String := readTextFrom (c.rest.length + 1) [] c

/-! ### Numbers -/

/-- A positive power of ten as a double, from `0` to `308`. -/
def tenPower (e : Nat) : Float := Float.ofScientific 1 false e

/-- A number of 64 bits times a power of ten, computed by one multiplication or by
divisions. -/
def scaleFrom : Nat → Float → Int → Option Float
  | 0, x, _ => some x
  | fuel + 1, x, e =>
    if e.natAbs ≤ 308 then
      if 0 ≤ e then
        let y := x * tenPower e.toNat
        if y.isInf then none else some y
      else some (x / tenPower e.natAbs)
    else if x == 0.0 then some x
    else if 0 ≤ e then none
    else scaleFrom fuel (x / tenPower 308) (e + 308)

/-- The double of a significand and an exponent. After a few divisions it is zero. -/
def realOf (negative : Bool) (significand : Nat) (e : Int) (c : Cursor) : Reader Json :=
  match scaleFrom 10 (Float.ofNat significand) e with
  | some x => .ok (.real (if negative then -x else x), c)
  | none => c.flaw .numberRange

/-- An exponent held within 32 bits. -/
def clampExp (e : Int) : Int := max (-2147483648) (min 2147483647 e)

/-- Adds digits to an exponent as long as it fits 32 bits. -/
def exponentOf : Nat → List Char → Option Nat
  | acc, [] => some acc
  | acc, d :: ds =>
    let next := acc * 10 + (d.toNat - 48)
    if 2147483647 < next then none else exponentOf next ds

/-- The place of the digit with which an exponent leaves 32 bits. -/
def exponentFlaw : Nat → Nat → List Char → Nat
  | _, place, [] => place
  | acc, place, d :: ds =>
    let next := acc * 10 + (d.toNat - 48)
    if 2147483647 < next then place + 1 else exponentFlaw next (place + 1) ds

/-- Reads an exponent behind its mark. -/
def readExponent (negative : Bool) (significand : Nat) (e : Int) (c : Cursor) : Reader Json :=
  let (down, c) := match c.rest with
    | '+' :: rest => (false, c.past '+' rest)
    | '-' :: rest => (true, c.past '-' rest)
    | _ => (false, c)
  match c.rest with
  | [] => c.flaw .endInValue
  | d :: _ =>
    if !d.isDigit then .error ⟨.badNumber, c.place + 1⟩
    else
      let (ds, after) := c.digits
      match exponentOf 0 ds with
      | some n =>
        realOf negative significand (clampExp (if down then e - (n : Int) else e + (n : Int))) after
      | none =>
        if significand != 0 && !down then .error ⟨.numberRange, exponentFlaw 0 c.place ds⟩
        else .ok (.real (if negative then -0.0 else 0.0), after)

/-- Takes in digits as long as the number fits 64 bits: the number, and the digits that are
left. -/
def takeDigits : Nat → List Char → Nat × List Char
  | acc, [] => (acc, [])
  | acc, d :: ds =>
    let next := acc * 10 + (d.toNat - 48)
    if 18446744073709551615 < next then (acc, d :: ds) else takeDigits next ds

/-- Reads an exponent if there is one, and ends the number. -/
def readEnd (negative : Bool) (significand : Nat) (e : Int) (c : Cursor) : Reader Json :=
  match c.rest with
  | 'e' :: rest => readExponent negative significand e (c.past 'e' rest)
  | 'E' :: rest => readExponent negative significand e (c.past 'E' rest)
  | _ => realOf negative significand e c

/-- Reads a fraction behind its point. Digits that do not fit are ignored. -/
def readFraction (negative : Bool) (significand : Nat) (e : Int) (c : Cursor) : Reader Json :=
  let (ds, after) := c.digits
  if ds.isEmpty then
    if c.rest.isEmpty then c.flawAhead .endInValue else c.flawAhead .badNumber
  else
    let (n, left) := takeDigits significand ds
    readEnd negative n (e - ((ds.length - left.length : Nat) : Int)) after

/-- Reads a number behind its sign. -/
def readNumber (negative : Bool) (c : Cursor) : Reader Json :=
  match c.rest with
  | [] => c.flaw .endInValue
  | d :: _ =>
    if !d.isDigit then .error ⟨.badNumber, c.place + 1⟩
    else
      let (ds, after) := if d = '0' then (['0'], ⟨c.rest.drop 1, c.place + 1⟩) else c.digits
      if d = '0' && (after.rest.head?.map Char.isDigit).getD false then after.flawAhead .badNumber
      else
        let (n, left) := takeDigits 0 ds
        match after.rest with
        | '.' :: rest => readFraction negative n left.length (after.past '.' rest)
        | 'e' :: rest => readExponent negative n left.length (after.past 'e' rest)
        | 'E' :: rest => readExponent negative n left.length (after.past 'E' rest)
        | _ =>
          if !left.isEmpty then realOf negative n left.length after
          else if !negative then .ok (.int n, after)
          else if n = 0 ∨ 9223372036854775808 < n then .ok (.real (-(Float.ofNat n)), after)
          else .ok (.int (-(n : Int)), after)

/-! ### Values -/

/-- How deep arrays and objects may be nested. -/
def maxDepth : Nat := 127

mutual

/-- Reads a value: `depth` more levels are allowed. -/
def readValue : Nat → Nat → Cursor → Reader Json
  | 0, _, c => c.flaw .endInValue
  | fuel + 1, depth, c =>
    let c := c.skip
    match c.rest with
    | [] => c.flawAhead .endInValue
    | d :: rest =>
      let inner := c.past d rest
      match d with
      | 'n' => readWord .null ['u', 'l', 'l'] inner
      | 't' => readWord (.bool true) ['r', 'u', 'e'] inner
      | 'f' => readWord (.bool false) ['a', 'l', 's', 'e'] inner
      | '-' => readNumber true inner
      | '"' => (readText inner).map fun (s, c) => (.text s, c)
      | '[' =>
        match depth with
        | 0 => c.flawAhead .tooDeep
        | depth + 1 => readItems fuel depth true [] inner
      | '\x7b' =>
        match depth with
        | 0 => c.flawAhead .tooDeep
        | depth + 1 => readMembers fuel depth true .empty inner
      | d => if d.isDigit then readNumber false c else c.flawAhead .wantsValue

/-- Reads items up to the end of an array; `acc` holds those before, in reverse. -/
def readItems : Nat → Nat → Bool → List Json → Cursor → Reader Json
  | 0, _, _, _, c => c.flaw .endInList
  | fuel + 1, depth, first, acc, c =>
    let c := c.skip
    let item (c : Cursor) : Reader Json :=
      match readValue fuel depth c with
      | .ok (j, c) => readItems fuel depth false (j :: acc) c
      | .error e => .error e
    match c.rest with
    | [] => c.flawAhead .endInList
    | ']' :: rest => .ok (.array acc.reverse, c.past ']' rest)
    | ',' :: rest =>
      if first then item c
      else
        let c := (c.past ',' rest).skip
        match c.rest with
        | [] => c.flawAhead .endInValue
        | ']' :: _ => c.flawAhead .lastComma
        | _ => item c
    | _ => if first then item c else c.flawAhead .wantsListComma

/-- Reads members up to the end of an object. A name that comes again replaces the value
under its first place. -/
def readMembers : Nat → Nat → Bool → Assoc String Json → Cursor → Reader Json
  | 0, _, _, _, c => c.flaw .endInObject
  | fuel + 1, depth, first, acc, c =>
    let c := c.skip
    let member (c : Cursor) : Reader Json :=
      match c.rest with
      | '"' :: rest =>
        match readText (c.past '"' rest) with
        | .error e => .error e
        | .ok (name, c) =>
          let c := c.skip
          match c.rest with
          | [] => c.flawAhead .endInObject
          | ':' :: rest =>
            match readValue fuel depth (c.past ':' rest) with
            | .ok (j, c) => readMembers fuel depth false (acc.insert name j) c
            | .error e => .error e
          | _ => c.flawAhead .wantsColon
      | _ => c.flawAhead .keyNoText
    match c.rest with
    | [] => c.flawAhead .endInObject
    | '\x7d' :: rest => .ok (.object acc.entries, c.past '\x7d' rest)
    | ',' :: rest =>
      if first then c.flawAhead .keyNoText
      else
        let c := (c.past ',' rest).skip
        match c.rest with
        | [] => c.flawAhead .endInValue
        | '\x7d' :: _ => c.flawAhead .lastComma
        | _ => member c
    | _ => if first then member c else c.flawAhead .wantsObjectComma

end

/-- Reads a text that is one document. -/
def readDocument (s : List Char) : Except Located Json := do
  let (j, c) ← readValue (2 * s.length + 4) maxDepth ⟨s, 0⟩
  let c := c.skip
  if c.rest.isEmpty then return j else c.flawAhead .trailing

/-- The line and the column behind the first `place` bytes. -/
def lineColumn (text : String) (place : Nat) : Nat × Nat :=
  let front := text.toUTF8.toList.take place
  let lines := (front.filter (· == 10)).length
  (lines + 1, (front.reverse.takeWhile (· != 10)).length)

/-- The document a text stands for, or the message about its first flaw. -/
def ofText (text : String) : Except String Json :=
  match readDocument text.toList with
  | .ok j => .ok j
  | .error e =>
    let (line, column) := lineColumn text e.place
    .error (e.flaw.message ++ " at line " ++ toString line ++ " column " ++ toString column)

end ScriptEngine.Json
