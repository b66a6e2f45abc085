import ScriptEngine.Host.Disk

/-!
# Tokens of the query language

Words, names in quotes, numbers, texts, bytes, question marks for parameters, and signs.
Blanks and comments separate tokens. A token knows its source text and its place, counted in
bytes.
-/

namespace ScriptEngine.Host.Sql

/-- What a token is. -/
inductive TokenKind where
  | word
  /-- A name in quotes, without them. -/
  | name (s : String)
  | integer
  | real
  | text (s : String)
  | blob (b : Bytes)
  /-- A question mark with the number behind it, if there is one. -/
  | parameter (index : Option Nat)
  | sign
  /-- Characters that start no token. -/
  | bad

structure Token where
  kind : TokenKind
  source : String
  place : Nat

namespace Token

def isLetter (c : Char) : Bool := c.isAlpha || c == '_' || 127 < c.toNat

def isWordChar (c : Char) : Bool := isLetter c || c.isDigit || c == '$'

def isSpace (c : Char) : Bool := c == ' ' || c == '\t' || c == '\n' || c == '\r' || c.toNat == 12

/-- What stands in quotes behind the first quote, with doubled quotes for single ones; how many
characters that takes with the last quote. -/
def quoted (close : Char) (doubles : Bool) : List Char → Option (List Char × Nat)
  | [] => none
  | [c] => if c = close then some ([], 1) else none
  | c :: d :: rest =>
    if c = close then
      if doubles && d == close then
        (quoted close doubles rest).map fun (s, n) => (close :: s, n + 2)
      else some ([], 1)
    else (quoted close doubles (d :: rest)).map fun (s, n) => (c :: s, n + 1)

/-- The value of a hexadecimal digit. -/
def hexDigit? (c : Char) : Option Nat :=
  if c.isDigit then some (c.toNat - 48)
  else if 'a' ≤ c ∧ c ≤ 'f' then some (c.toNat - 87)
  else if 'A' ≤ c ∧ c ≤ 'F' then some (c.toNat - 55)
  else none

/-- The bytes that pairs of hexadecimal digits write. -/
def hexBytes? : List Char → Option Bytes
  | [] => some []
  | [_] => none
  | c :: d :: rest => do
    let high ← hexDigit? c
    let low ← hexDigit? d
    return UInt8.ofNat (high * 16 + low) :: (← hexBytes? rest)

/-- The kind and the length of a number: digits, a fraction and an exponent. Letters behind it
spoil it. -/
def number (s : List Char) : TokenKind × Nat :=
  let whole := s.takeWhile Char.isDigit
  let (fraction, rest, isReal) := match s.dropWhile Char.isDigit with
    | '.' :: more => ('.' :: more.takeWhile Char.isDigit, more.dropWhile Char.isDigit, true)
    | more => ([], more, false)
  let exponent : List Char := match rest with
    | c :: more =>
      if c = 'e' ∨ c = 'E' then
        let sign := (more.take 1).filter fun d => d == '-' || d == '+'
        let digits := (more.drop sign.length).takeWhile Char.isDigit
        if digits.isEmpty then [] else c :: sign ++ digits
      else []
    | [] => []
  let spoilt := (rest.drop exponent.length).takeWhile isWordChar
  let size := whole.length + fraction.length + exponent.length + spoilt.length
  if !spoilt.isEmpty then (.bad, size)
  else if isReal || !exponent.isEmpty then (.real, size)
  else (.integer, size)

/-- The signs of two characters. -/
def longSigns : List (List Char) :=
  [['<', '='], ['<', '>'], ['>', '='], ['=', '='], ['!', '='], ['|', '|'], ['<', '<'], ['>', '>']]

/-- The signs of one character. -/
def shortSigns : List Char :=
  ['(', ')', ',', ';', '*', '=', '<', '>', '+', '-', '/', '%', '.', '&', '|', '~']

/-- A name or text in quotes, which take all that is left when they are not closed. -/
def inQuotes (close : Char) (doubles : Bool) (make : String → TokenKind) (rest : List Char) :
    TokenKind × Nat :=
  match quoted close doubles rest with
  | some (s, n) => (make (String.ofList s), n + 1)
  | none => (.bad, rest.length + 1)

/-- The kind and the length in characters of the token at the start of `s`, which is no blank. -/
def first (s : List Char) : TokenKind × Nat :=
  match s with
  | [] => (.bad, 0)
  | c :: rest =>
    if (c = 'x' ∨ c = 'X') ∧ rest.head? = some '\'' then
      let digits := (rest.drop 1).takeWhile fun d => (hexDigit? d).isSome
      let after := rest.drop (1 + digits.length)
      if after.head? = some '\'' then
        match hexBytes? digits with
        | some b => (.blob b, digits.length + 3)
        | none => (.bad, digits.length + 3)
      else
        let junk := after.takeWhile (· != '\'')
        (.bad, 2 + digits.length + junk.length + (if after.length = junk.length then 0 else 1))
    else if isLetter c then (.word, 1 + (rest.takeWhile isWordChar).length)
    else if c.isDigit then number s
    else if c = '.' ∧ (rest.head?.map Char.isDigit) = some true then number s
    else if c = '\'' then inQuotes '\'' true .text rest
    else if c = '"' then inQuotes '"' true .name rest
    else if c = '\x60' then inQuotes '\x60' true .name rest
    else if c = '[' then inQuotes ']' false .name rest
    else if c = '?' then
      let digits := rest.takeWhile Char.isDigit
      (.parameter ((String.ofList digits).toNat?), 1 + digits.length)
    else if longSigns.contains (s.take 2) then (.sign, 2)
    else if shortSigns.contains c then (.sign, 1)
    else (.bad, 1)

/-- The number of blanks and characters of comments at the start of `s`. -/
def gap : Nat → List Char → Nat
  | 0, _ => 0
  | fuel + 1, s =>
    match s with
    | '-' :: '-' :: rest =>
      let n := 2 + (rest.takeWhile (· != '\n')).length
      n + gap fuel (s.drop n)
    | '/' :: '*' :: rest => comment fuel 2 rest
    | c :: rest => if isSpace c then 1 + gap fuel rest else 0
    | [] => 0
where
  /-- The same inside a comment of which `n` characters are known. -/
  comment : Nat → Nat → List Char → Nat
    | 0, n, _ => n
    | fuel + 1, n, s =>
      match s with
      | '*' :: '/' :: rest => n + 2 + gap fuel rest
      | _ :: rest => comment fuel (n + 1) rest
      | [] => n

/-- The number of bytes of some characters. -/
def byteCount (s : List Char) : Nat := s.foldl (fun n c => n + c.utf8Size) 0

/-- The tokens of a text that starts at a place. Every token takes at least a character. -/
def scanFrom : Nat → Nat → List Char → List Token
  | 0, _, _ => []
  | fuel + 1, place, s =>
    let blanks := gap (2 * s.length + 1) s
    let place := place + byteCount (s.take blanks)
    match s.drop blanks with
    | [] => []
    | s =>
      let (kind, size) := first s
      let source := s.take size
      ⟨kind, String.ofList source, place⟩ :: scanFrom fuel (place + byteCount source) (s.drop size)

/-- The tokens of a text. -/
def scan (s : String) : List Token := scanFrom (s.length + 1) 0 s.toList

/-- Whether a token is a given word, in any letter case. -/
def isWord (t : Token) (word : String) : Bool :=
  match t.kind with
  | .word => t.source.toUpper == word
  | _ => false

/-- Whether a token is a given sign. -/
def isSign (t : Token) (s : String) : Bool :=
  match t.kind with
  | .sign => t.source == s
  | _ => false

end Token

end ScriptEngine.Host.Sql
