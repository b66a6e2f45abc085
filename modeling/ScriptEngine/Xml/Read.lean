import ScriptEngine.Text.Numeral
import ScriptEngine.Text.Search
import ScriptEngine.Xml.Basic

/-!
# Reading XML

A reader of markup that keeps to what it needs: elements with attributes, text with
references, and literal sections; comments, instructions and type declarations are skipped.
It ends with the first element that closes at the outermost level.

Places in messages count bytes in UTF-8 from the start of the tag or text they are in.
-/

namespace ScriptEngine.Xml

/-- Why the number of a character reference is no character. -/
inductive BadReference where
  | sign
  | number (e : Text.NumeralError)
  | code (n : Nat)
  | zero

/-- What is wrong with a document. -/
inductive Flaw where
  | unknownEntity (start stop : Nat) (name : String)
  | openEntity (start stop : Nat)
  | badReference (e : BadReference)
  | wantsEquals (place : Nat)
  | wantsValue (place : Nat)
  | wantsQuote (place : Nat)
  | openQuote (place : Nat) (quote : Char)
  | repeatedAttribute (place earlier : Nat)
  | unmatchedEnd (name : String)
  | mismatchedEnd (expected found : String)
  | missingTypeName
  | badBang
  | openInstruction
  | openComment
  | openType
  | openLiteral
  | openTag
  | incomplete

def BadReference.message : BadReference → String
  | sign => "unexpected number sign"
  | number .empty => "cannot parse integer from empty string"
  | number .badDigit => "invalid digit found in string"
  | number _ => "number too large to fit in target type"
  | code n => "\x60" ++ toString n ++ "\x60 is not a valid codepoint"
  | zero => "0x0 character is not permitted in XML"

/-- The message of a document in which a construct does not end. -/
def notClosed (what stop : String) : String :=
  "syntax error: " ++ what ++ " not closed: \x60" ++ stop ++ "\x60 not found before end of input"

def Flaw.message : Flaw → String
  | unknownEntity start stop name =>
    "at " ++ toString start ++ ".." ++ toString stop ++ ": unrecognized entity \x60" ++ name ++
      "\x60"
  | openEntity start stop =>
    "Error while escaping character at range " ++ toString start ++ ".." ++ toString stop ++
      ": Cannot find ';' after '&'"
  | badReference e => "invalid character reference: " ++ e.message
  | wantsEquals place =>
    "position " ++ toString place ++
      ": attribute key must be directly followed by \x60=\x60 or space"
  | wantsValue place =>
    "position " ++ toString place ++ ": \x60=\x60 must be followed by an attribute value"
  | wantsQuote place =>
    "position " ++ toString place ++ ": attribute value must be enclosed in \x60\"\x60 or \x60'\x60"
  | openQuote place quote =>
    "position " ++ toString place ++ ": missing closing quote \x60" ++ quote.toString ++
      "\x60 in attribute value"
  | repeatedAttribute place earlier =>
    "position " ++ toString place ++ ": duplicated attribute, previous declaration at position " ++
      toString earlier
  | unmatchedEnd name =>
    "ill-formed document: close tag \x60</" ++ name ++ ">\x60 does not match any open tag"
  | mismatchedEnd expected found =>
    "ill-formed document: expected \x60</" ++ expected ++ ">\x60, but \x60</" ++ found ++
      ">\x60 was found"
  | missingTypeName =>
    "ill-formed document: \x60<!DOCTYPE>\x60 declaration does not contain a name of a document type"
  | badBang => "syntax error: unknown or missed symbol in markup"
  | openInstruction => notClosed "processing instruction or xml declaration" "?>"
  | openComment => notClosed "comment" "-->"
  | openType => notClosed "DOCTYPE" ">"
  | openLiteral => notClosed "CDATA" "]]>"
  | openTag => notClosed "tag" ">"
  | incomplete => "unexpected end of document"

/-- The characters that separate the parts of a tag. -/
def isSpace (c : Char) : Bool := c == ' ' || c == '\r' || c == '\n' || c == '\t'

/-- The number of bytes of some characters. -/
def byteCount (s : List Char) : Nat := s.foldl (fun n c => n + c.utf8Size) 0

/-! ### References -/

/-- Reads digits of a base. -/
def readCode (base : Nat) : Nat → List Char → Except BadReference Nat
  | acc, [] => .ok acc
  | acc, c :: rest =>
    let value? : Option Nat :=
      if c.isDigit then some (c.toNat - 48)
      else if 'a' ≤ c ∧ c ≤ 'z' then some (c.toNat - 87)
      else if 'A' ≤ c ∧ c ≤ 'Z' then some (c.toNat - 55)
      else none
    match value? with
    | some d =>
      if base ≤ d then .error (.number .badDigit)
      else if 4294967296 ≤ acc * base + d then .error (.number .tooLarge)
      else readCode base (acc * base + d) rest
    | none => .error (.number .badDigit)

/-- The character of a numeric reference. -/
def referenced (s : List Char) : Except BadReference Char := do
  let (base, digits) : Nat × List Char := match s with
    | 'x' :: rest => (16, rest)
    | _ => (10, s)
  match digits with
  | [] => throw (.number .empty)
  | c :: _ =>
    if c = '+' ∨ c = '-' then throw .sign
    else
      let n ← readCode base 0 digits
      if n = 0 then throw .zero
      else if n.isValidChar then return Char.ofNat n
      else throw (.code n)

/-- The character a name stands for. -/
def entity? (name : List Char) : Option Char :=
  match String.ofList name with
  | "lt" => some '<'
  | "gt" => some '>'
  | "amp" => some '&'
  | "apos" => some '\''
  | "quot" => some '"'
  | _ => none

/-- Replaces references from a place on, out of `total` bytes. -/
def unescapeFrom (total : Nat) : Nat → Nat → List Char → Except Flaw (List Char)
  | 0, _, _ => .ok []
  | _, _, [] => .ok []
  | fuel + 1, place, c :: rest =>
    if c = '&' then
      let inside (d : Char) : Bool := d != '&' && d != ';'
      let name := rest.takeWhile inside
      match rest.dropWhile inside with
      | ';' :: after =>
        let stop := place + 1 + byteCount name
        match name with
        | '#' :: code =>
          match referenced code with
          | .ok d => (unescapeFrom total fuel (stop + 1) after).map (d :: ·)
          | .error e => .error (.badReference e)
        | _ =>
          match entity? name with
          | some d => (unescapeFrom total fuel (stop + 1) after).map (d :: ·)
          | none => .error (.unknownEntity (place + 1) stop (String.ofList name))
      | _ => .error (.openEntity place total)
    else (unescapeFrom total fuel (place + c.utf8Size) rest).map (c :: ·)

/-- A text with its references replaced. -/
def unescape (s : List Char) : Except Flaw (List Char) :=
  unescapeFrom (byteCount s) s.length 0 s

/-! ### Tags -/

/-- The characters up to the first `>` outside of quotes, in which `quote` is the present
one. -/
def tagFrom (quote : Option Char) (acc : List Char) : List Char → Option (List Char × List Char)
  | [] => none
  | c :: rest =>
    match quote with
    | some q => tagFrom (if c = q then none else some q) (c :: acc) rest
    | none =>
      if c = '>' then some (acc.reverse, rest)
      else tagFrom (if c = '"' ∨ c = '\'' then some c else none) (c :: acc) rest

/-- The characters up to the first `>` whose predecessors, in reverse, satisfy `p`. -/
def closeFrom (p : List Char → Bool) (acc : List Char) : List Char →
    Option (List Char × List Char)
  | [] => none
  | c :: rest =>
    if c == '>' && p acc then some (acc.reverse, rest) else closeFrom p (c :: acc) rest

/-- The characters up to the `>` that closes a declaration in which `depth` brackets are
open. -/
def declarationFrom (depth : Nat) (acc : List Char) : List Char → Option (List Char × List Char)
  | [] => none
  | c :: rest =>
    if c = '<' then declarationFrom (depth + 1) (c :: acc) rest
    else if c = '>' then
      match depth with
      | 0 => some (acc.reverse, rest)
      | depth + 1 => declarationFrom depth (c :: acc) rest
    else declarationFrom depth (c :: acc) rest

/-- An attribute: its name, its place in the tag, its value. -/
structure Attribute where
  name : List Char
  place : Nat
  value : List Char

/-- Splits off the longest start that satisfies `p`, with the place behind it. -/
def spanAt (p : Char → Bool) (place : Nat) (s : List Char) : List Char × Nat × List Char :=
  let front := s.takeWhile p
  (front, place + byteCount front, s.dropWhile p)

/-- Reads the attributes of a tag from a place on; `seen` holds those before, the latest in
front. -/
def attributesFrom : Nat → List Attribute → Nat → List Char → Except Flaw (List Attribute)
  | 0, seen, _, _ => .ok seen.reverse
  | fuel + 1, seen, place, s =>
    let (_, start, s) := spanAt isSpace place s
    match s with
    | [] => .ok seen.reverse
    | first :: s =>
      let (name, stop, s) := spanAt (fun c => c != '=' && !isSpace c) (start + first.utf8Size) s
      let name := first :: name
      let (_, equals, s) := spanAt isSpace stop s
      match s with
      | '=' :: s =>
        match seen.find? (·.name == name) with
        | some earlier => .error (.repeatedAttribute start earlier.place)
        | none =>
          let (_, open', s) := spanAt isSpace (equals + 1) s
          match s with
          | [] => .error (.wantsValue open')
          | q :: s =>
            if q = '"' ∨ q = '\'' then
              let (value, close, s) := spanAt (· != q) (open' + 1) s
              match s with
              | [] => .error (.openQuote close q)
              | _ :: s =>
                match unescape value with
                | .error e => .error e
                | .ok value => attributesFrom fuel (⟨name, start, value⟩ :: seen) (close + 1) s
            else .error (.wantsQuote open')
      | _ => .error (.wantsEquals equals)

/-! ### Elements -/

/-- An element that is being read. -/
structure Open where
  name : List Char
  parts : Assoc String Content
  text : List Char

/-- The element that a tag opens. -/
def Open.ofTag (tag : List Char) : Except Flaw Open :=
  let name := tag.takeWhile (!isSpace ·)
  match attributesFrom (tag.length + 1) [] (byteCount name) (tag.dropWhile (!isSpace ·)) with
  | .error e => .error e
  | .ok attributes =>
    .ok ⟨name, .ofList (attributes.map fun a =>
      (String.ofList ('@' :: a.name), .text (String.ofList a.value))), []⟩

/-- What an element that has been read holds. -/
def Open.finish (e : Open) : Content :=
  let text := String.ofList (Text.trim e.text)
  if e.parts.isEmpty then
    if text.isEmpty then .nothing else .text text
  else if text.isEmpty then .parts e.parts.entries
  else .parts (e.parts.insert textPart (.text text)).entries

/-- Takes in a child; several of one name become one part. -/
def Open.adopt (e : Open) (name : List Char) (c : Content) : Open :=
  let key := String.ofList name
  let part := match e.parts.get? key with
    | some (.several items) => .several (items ++ [c])
    | some other => .several [other, c]
    | none => c
  { e with parts := e.parts.insert key part }

def Open.addText (e : Open) (s : List Char) : Open := { e with text := e.text ++ s }

/-- Adds text to the innermost element. Text outside of all elements is dropped. -/
def addText (s : List Char) : List Open → List Open
  | [] => []
  | e :: outer => e.addText s :: outer

/-- What the reader has after a piece of markup: more to read, or the whole document. -/
inductive Progress where
  | more (stack : List Open) (rest : List Char)
  | complete (name : List Char) (c : Content)

/-- A finished element goes to the one around it, or is the document. -/
def close (name : List Char) (c : Content) (rest : List Char) : List Open → Progress
  | [] => .complete name c
  | e :: outer => .more (e.adopt name c :: outer) rest

/-- Whether a text starts with a word in any letter case. -/
def startsWithWord (word s : List Char) : Bool :=
  (s.take word.length).map Char.toLower == word.map Char.toLower

/-- Reads markup that starts with `<!`; `s` starts with the exclamation mark. -/
def readBang (stack : List Open) (s : List Char) : Except Flaw Progress :=
  match s.drop 1 with
  | '-' :: _ =>
    match closeFrom (fun acc => 4 < acc.length && acc.take 2 == ['-', '-']) [] s with
    | some (body, rest) =>
      if Text.startsWith body ['!', '-', '-'] then .ok (.more stack rest) else .error .openComment
    | none => .error .openComment
  | '[' :: _ =>
    match closeFrom (fun acc => acc.take 2 == [']', ']']) [] s with
    | some (body, rest) =>
      match Text.stripPrefix? "![CDATA[".toList body with
      | some text => .ok (.more (addText (text.take (text.length - 2)) stack) rest)
      | none => .error .openLiteral
    | none => .error .openLiteral
  | c :: _ =>
    if c = 'D' ∨ c = 'd' then
      match declarationFrom 0 [] s with
      | some (body, rest) =>
        if startsWithWord "!DOCTYPE".toList body then
          if (body.drop 8).all isSpace then .error .missingTypeName else .ok (.more stack rest)
        else .error .openType
      | none => .error .openType
    else .error .badBang
  | [] => .error .badBang

/-- Reads a closing tag; `s` starts with the slash. -/
def readEnd (stack : List Open) (s : List Char) : Except Flaw Progress :=
  match tagFrom none [] s with
  | none => .error .openTag
  | some (tag, rest) =>
    let body := tag.drop 1
    let name := if body.all isSpace then body else Text.dropEndWhile isSpace body
    match stack with
    | [] => .error (.unmatchedEnd (String.ofList name))
    | e :: outer =>
      if e.name = name then .ok (close e.name e.finish rest outer)
      else .error (.mismatchedEnd (String.ofList e.name) (String.ofList name))

/-- Reads an opening tag, or one without contents. -/
def readStart (stack : List Open) (s : List Char) : Except Flaw Progress :=
  match tagFrom none [] s with
  | none => .error .openTag
  | some (tag, rest) =>
    if tag.getLast? == some '/' then
      match Open.ofTag tag.dropLast with
      | .ok e => .ok (close e.name e.finish rest stack)
      | .error e => .error e
    else
      match Open.ofTag tag with
      | .ok e => .ok (.more (e :: stack) rest)
      | .error e => .error e

/-- Reads an instruction; `s` starts with the question mark. -/
def readInstruction (stack : List Open) (s : List Char) : Except Flaw Progress :=
  match closeFrom (fun acc => acc.head? == some '?') [] s with
  | some (body, rest) => if body.length < 2 then .error .openInstruction else .ok (.more stack rest)
  | none => .error .openInstruction

/-- Reads the markup behind a `<`. -/
def readMarkup (stack : List Open) (s : List Char) : Except Flaw Progress :=
  match s with
  | [] => .error .openTag
  | '!' :: _ => readBang stack s
  | '/' :: _ => readEnd stack s
  | '?' :: _ => readInstruction stack s
  | _ => readStart stack s

/-- Reads text and markup up to the end of the document; the first argument bounds the number
of pieces of markup. -/
def readFrom : Nat → List Open → List Char → Except Flaw (List Char × Content)
  | 0, _, _ => .error .incomplete
  | fuel + 1, stack, s =>
    match unescape (s.takeWhile (· != '<')) with
    | .error e => .error e
    | .ok text =>
      match s.dropWhile (· != '<') with
      | [] => .error .incomplete
      | _ :: s =>
        match readMarkup (addText text stack) s with
        | .error e => .error e
        | .ok (.complete name c) => .ok (name, c)
        | .ok (.more stack rest) => readFrom fuel stack rest

/-- Reads a document: the name of its element, and the contents. -/
def read (s : List Char) : Except Flaw (List Char × Content) :=
  let s := match s with
    | c :: rest => if c.toNat = 0xFEFF then rest else s
    | [] => []
  readFrom (s.length + 1) [] s

end ScriptEngine.Xml
