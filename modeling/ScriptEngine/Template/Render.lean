import ScriptEngine.Template.Basic
import ScriptEngine.Text.Case
import ScriptEngine.Text.Quoted

/-!
# Filling in templates

Every verb takes the next argument. A verb that does not fit its argument, has none, or
leaves some over is reported in the text itself. A width that asks for more blanks or zeros
than the host can lay out in a row leaves no text at all; apart from that there is room for
every text.
-/

namespace ScriptEngine.Template

/-- An argument with its type, as reports show it. -/
def described (s : State) (v : Value) : List Char := (v.tag ++ "=" ++ s.inspect v).toList

/-- The report of a verb that does not fit its argument. -/
def badVerb (s : State) (verb : Char) (v : Value) : List Char :=
  ['%', '!', verb, '('] ++ described s v ++ [')']

/-- A number as a double. -/
def asFloat? : Value → Option Float
  | .int n => some (Float.ofInt n.toInt)
  | .uint n => some (Float.ofNat n.toNat)
  | .float x => some x
  | .decimal d => some d.toFloat
  | _ => none

/-- The base a verb writes integers in. -/
def base? : Char → Option Nat
  | 'd' => some 10
  | 'x' => some 16
  | 'X' => some 16
  | 'o' => some 8
  | 'b' => some 2
  | _ => none

/-- The digits of a number; the hexadecimal verb decides the case of the letters. -/
def digits (verb : Char) (base n : Nat) : List Char :=
  let ds := Nat.toDigits base n
  if verb = 'X' then ds.map Char.toUpper else ds

/-- A byte in two hexadecimal digits. -/
def byteDigits (verb : Char) (b : UInt8) : List Char :=
  let ds := digits verb 16 b.toNat
  List.replicate (2 - ds.length) '0' ++ ds

/-- The text of an integer verb; texts are written byte by byte in hexadecimal. -/
def integer? (spec : Spec) (verb : Char) (base : Nat) : Value → Option (List Char)
  | .int n => some (spec.signed (n < 0) (digits verb base n.toInt.natAbs))
  | .uint n => some (spec.signed false (digits verb base n.toNat))
  | .text t => if base = 16 then some (t.toUTF8.toList.flatMap (byteDigits verb)) else none
  | _ => none

/-- A decimal with its places rounded, if there is a precision. -/
def decimalText (spec : Spec) (d : Decimal) : List Char :=
  let text := match spec.precision with
    | some p => (d.fixedText (Int32.ofNat p)).toList
    | none => d.toText.toList
  spec.signed (text.head? == some '-') (text.dropWhile (· == '-'))

/-- A double with a fixed number of places. -/
def fixedFloat (spec : Spec) (x : Float) : List Char :=
  let negative := Binary64.isNegative x && x != 0.0
  spec.signed negative (Binary64.fixed (spec.precision.getD 6) x.abs).toList

/-- A mantissa and an exponent with a sign and at least two digits. -/
def exponentForm (precision : Nat) (x : Float) : List Char :=
  let text := (Binary64.scientific (some precision) 'e' x.abs).toList
  match text.dropWhile (· != 'e') with
  | [] => text
  | _ :: exponent =>
    let (sign, ds) := match exponent with
      | '-' :: ds => ('-', ds)
      | ds => ('+', ds)
    text.takeWhile (· != 'e') ++ 'e' :: sign :: (List.replicate (2 - ds.length) '0' ++ ds)

/-- The character of a code. -/
def charOfCode? (n : Int) : Option Char :=
  if 0 ≤ n ∧ n.toNat.isValidChar then some (Char.ofNat n.toNat) else none

/-- The text of a verb for an argument before it is filled up, and whether it is filled up as a
number; none if the verb does not fit the argument. -/
def body? (s : State) (spec : Spec) (verb : Char) (v : Value) : Option (List Char × Bool) :=
  match verb with
  | 's' => some (cut (s.inspect v).toList, false)
  | 'v' => some (cut (s.inspect v).toList, false)
  | 'f' => (real v).map (·, true)
  | 'F' => (real v).map (·, true)
  | 'e' => (scientific v).map (·, true)
  | 'E' => (scientificUpper v).map (·, true)
  | 'g' => (general v).map (·, true)
  | 'G' => (general v).map (·, true)
  | 't' =>
    match v with
    | .bool b => some ((Key.boolText b).toList, false)
    | _ => none
  | 'q' =>
    match v with
    | .text t => some (Text.quoted t.toList, false)
    | .int n => (charOfCode? n.toInt).map fun c => (Text.quotedChar c, false)
    | _ => none
  | 'c' => v.asInt?.bind fun n => (charOfCode? n.toInt).map fun c => ([c], false)
  | _ => (base? verb).bind fun base => (integer? spec verb base v).map (·, true)
where
  cut (t : List Char) : List Char :=
    match spec.precision with
    | some p => t.take p
    | none => t
  real : Value → Option (List Char)
    | .decimal d => some (decimalText spec d)
    | v => (asFloat? v).map (fixedFloat spec)
  scientific (v : Value) : Option (List Char) :=
    (asFloat? v).map fun x => spec.signed (x < 0.0) (exponentForm (spec.precision.getD 6) x)
  scientificUpper (v : Value) : Option (List Char) :=
    (asFloat? v).map fun x =>
      spec.signed (x < 0.0) (Text.upper (exponentForm (spec.precision.getD 6) x))
  general (v : Value) : Option (List Char) :=
    (asFloat? v).map fun x => spec.signed (x < 0.0) (Binary64.displayChars x.abs)

/-- Descriptions with commas between them. -/
def describedAll (s : State) : List Value → List Char
  | [] => []
  | [v] => described s v
  | v :: rest => described s v ++ [',', ' '] ++ describedAll s rest

/-- The report of arguments that are left over. -/
def extra (s : State) : List Value → List Char
  | [] => []
  | args => "%!(EXTRA ".toList ++ describedAll s args ++ [')']

/-- What stands for a verb with its argument; none if there is no room for it. -/
def rendered (s : State) (spec : Spec) (verb : Char) (v : Value) : Option (List Char) :=
  match body? s spec verb v with
  | some (body, numeric) => spec.pad body numeric
  | none => some (badVerb s verb v)

/-- Fills in pieces with arguments; none if there is no room for one of the texts. -/
def fillPieces (s : State) : List Piece → List Value → Option (List Char)
  | [], args => some (extra s args)
  | .literal c :: rest, args => (fillPieces s rest args).map (c :: ·)
  | .dangling :: rest, args => (fillPieces s rest args).map ("%!(NOVERB)".toList ++ ·)
  | .verb _ c :: rest, [] =>
    (fillPieces s rest []).map (['%', '!', c] ++ "(MISSING)".toList ++ ·)
  | .verb spec c :: rest, v :: args =>
    (rendered s spec c v).bind fun text => (fillPieces s rest args).map (text ++ ·)

/-- A template with its verbs replaced by arguments, if there is room for the texts. -/
def fill (s : State) (template : String) (args : List Value) : Option String :=
  (fillPieces s (pieces template.toList) args).map String.ofList

end ScriptEngine.Template
