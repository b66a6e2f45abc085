import ScriptEngine.Text.CaseTable
import ScriptEngine.Text.CharClass

/-!
# Letter case

Full case conversion of texts. A capital sigma becomes the final form of the small one at
the end of a word; some upper-case forms are longer than the character they come from.
-/

namespace ScriptEngine.Text

/-- The character a table maps `c` to. -/
def mapCase (table : List CaseRange) (c : Char) : Char :=
  let n := c.toNat
  match table.find? fun r => r.first ≤ n && n ≤ r.last && (n - r.first) % r.step == 0 with
  | some r => Char.ofNat (n + r.shift).toNat
  | none => c

/-- The lower-case form of a character outside of any word. -/
def lowerChar (c : Char) : List Char :=
  if c.toNat < 128 then [c.toLower]
  else if c.toNat = 0x130 then ['i', Char.ofNat 0x307]
  else [mapCase lowerRanges c]

/-- The upper-case form of a character. -/
def upperChar (c : Char) : List Char :=
  if c.toNat < 128 then [c.toUpper]
  else
    match upperSequences.find? (·.1 == c.toNat) with
    | some (_, cs) => cs.map Char.ofNat
    | none => [mapCase upperRanges c]

/-- Whether the first character that counts is a cased letter. -/
def startsCased (s : List Char) : Bool :=
  match s.dropWhile isCaseIgnorable with
  | [] => false
  | c :: _ => isCased c

/-- Lower case of `s`, given the characters before it in reverse. -/
def lowerFrom (before : List Char) : List Char → List Char
  | [] => []
  | c :: rest =>
    let form :=
      if c.toNat = 0x3A3 then
        [Char.ofNat (if startsCased before && !startsCased rest then 0x3C2 else 0x3C3)]
      else lowerChar c
    form ++ lowerFrom (c :: before) rest

/-- The text in lower case. -/
def lower (s : List Char) : List Char := lowerFrom [] s

/-- The text in upper case. -/
def upper (s : List Char) : List Char := s.flatMap upperChar

/-- `lower` on strings. -/
def lowerText (s : String) : String := String.ofList (lower s.toList)

/-- `upper` on strings. -/
def upperText (s : String) : String := String.ofList (upper s.toList)

end ScriptEngine.Text
