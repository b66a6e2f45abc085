import ScriptEngine.Binary64.Text
import ScriptEngine.Text.Blank
import ScriptEngine.Text.Search
import ScriptEngine.Text.Numeral
import ScriptEngine.Value

/-!
# Reading by templates

The verbs of templates read values back. Blanks in the template stand for any run of blanks;
verbs other than the one for a single character skip blanks first.
-/

namespace ScriptEngine.Template

/-- The value of a digit in a base. -/
def digitIn? (base : Nat) (c : Char) : Option Nat :=
  let value? : Option Nat :=
    if c.isDigit then some (c.toNat - 48)
    else if 'a' ≤ c ∧ c ≤ 'z' then some (c.toNat - 87)
    else if 'A' ≤ c ∧ c ≤ 'Z' then some (c.toNat - 55)
    else none
  value?.bind fun d => if d < base then some d else none

/-- The number that digits of a base write. -/
def natOfDigits? (base : Nat) (ds : List Char) : Option Nat :=
  if ds.isEmpty then none
  else ds.foldl (fun acc c => acc.bind fun n => (digitIn? base c).map (n * base + ·)) (some 0)

/-- An integer with an optional sign, in a base. -/
def signedOfDigits? (base : Nat) : List Char → Option Int
  | '-' :: ds => (natOfDigits? base ds).map fun n => -(n : Int)
  | '+' :: ds => (natOfDigits? base ds).map fun n => (n : Int)
  | ds => (natOfDigits? base ds).map fun n => (n : Int)

/-- Reads an integer of 64 bits in a base. -/
def scanInteger? (base : Nat) (s : List Char) : Option (Value × List Char) := do
  let isDigit (c : Char) : Bool := (digitIn? base c).isSome
  let (sign, body) := match s with
    | c :: rest => if c = '-' ∨ c = '+' then ([c], rest) else ([], s)
    | [] => ([], [])
  let n ← signedOfDigits? base (sign ++ body.takeWhile isDigit)
  if -9223372036854775808 ≤ n ∧ n ≤ 9223372036854775807 then
    return (.int (Int64.ofInt n), body.dropWhile isDigit)
  else none

/-- A non-empty run of characters, and the rest. -/
def run? (p : Char → Bool) (s : List Char) : Option (List Char × List Char) :=
  let word := s.takeWhile p
  if word.isEmpty then none else some (word, s.dropWhile p)

/-- Whether a character can be part of a double. -/
def isFloatChar (c : Char) : Bool :=
  c.isDigit || c == '.' || c == 'e' || c == 'E' || c == '-' || c == '+'

/-- Reads a double. -/
def scanFloat? (s : List Char) : Option (Value × List Char) := do
  let (word, rest) ← run? isFloatChar s
  return (.float (← Binary64.read? word), rest)

/-- Reads what a verb stands for. -/
def scanVerb? (verb : Char) (s : List Char) : Option (Value × List Char) :=
  match verb with
  | 'd' => scanInteger? 10 s
  | 'x' => scanInteger? 16 s
  | 'X' => scanInteger? 16 s
  | 'o' => scanInteger? 8 s
  | 'b' => scanInteger? 2 s
  | 'f' => scanFloat? s
  | 'F' => scanFloat? s
  | 'e' => scanFloat? s
  | 'E' => scanFloat? s
  | 'g' => scanFloat? s
  | 'G' => scanFloat? s
  | 't' =>
    match Text.stripPrefix? ['t', 'r', 'u', 'e'] s with
    | some rest => some (.bool true, rest)
    | none => (Text.stripPrefix? ['f', 'a', 'l', 's', 'e'] s).map fun rest => (.bool false, rest)
  | 's' => (run? (!Text.isBlank ·) s).map fun (word, rest) => (.text (String.ofList word), rest)
  | 'v' => (run? (!Text.isBlank ·) s).map fun (word, rest) => (.text (String.ofList word), rest)
  | 'q' =>
    match s with
    | '"' :: body =>
      match body.dropWhile (· != '"') with
      | _ :: rest => some (.text (String.ofList (body.takeWhile (· != '"'))), rest)
      | [] => none
    | _ => none
  | 'c' =>
    match s with
    | c :: rest => some (.text c.toString, rest)
    | [] => none
  | _ => none

/-- Reads a text by a template: one value per verb, or nothing at the first mismatch. -/
def scanChars? : List Char → List Char → Option (List Value)
  | [], _ => some []
  | ['%'], _ => none
  | '%' :: verb :: template, s =>
    if verb = '%' then (Text.stripPrefix? ['%'] s).bind (scanChars? template)
    else do
      let s := if verb = 'c' then s else s.dropWhile Text.isBlank
      let (v, rest) ← scanVerb? verb s
      return v :: (← scanChars? template rest)
  | c :: template, s =>
    if Text.isBlank c then scanChars? template (s.dropWhile Text.isBlank)
    else (Text.stripPrefix? [c] s).bind (scanChars? template)

/-- Reads a text by a template. -/
def scan? (input template : String) : Option (List Value) :=
  scanChars? template.toList input.toList

end ScriptEngine.Template
