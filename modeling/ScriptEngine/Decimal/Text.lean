import ScriptEngine.Text.Numeral
import ScriptEngine.Binary64.Text
import ScriptEngine.Decimal.Basic

/-!
# Decimals as text

`Decimal.toText` writes a decimal in positional notation without zeros at the end of the
fraction, so equal numbers have equal texts. `Decimal.parse` reads an optional sign,
digits with at most one point, and an optional exponent.

Conversions from and to doubles go through the same digits: a double becomes the shortest
decimal that reads back, a decimal the double nearest to it.
-/

namespace ScriptEngine.Decimal

/-- Why there is no decimal. -/
inductive Error where
  | notNumeral (text : String)
  | badExponent (text : String)
  | manyPoints (text : String)
  | exponentRange (text : String)
  | notFinite (x : Float)
  | divisionByZero

/-- The text of an error. -/
def Error.message : Error → String
  | notNumeral t => "can't convert " ++ t ++ " to decimal"
  | badExponent t => "can't convert " ++ t ++ " to decimal: exponent is not numeric"
  | manyPoints t => "can't convert " ++ t ++ " to decimal: too many .s"
  | exponentRange t => "can't convert " ++ t ++ " to decimal: fractional part too long"
  | notFinite x => "cannot create a decimal from " ++ Binary64.display x
  | divisionByZero => "decimal division by 0"

/-! ### Writing -/

/-- The digits of the integer part and of the fraction, for `places` fractional digits. -/
def splitDigits (digits : List Char) (places : Nat) : List Char × List Char :=
  if places < digits.length then
    (digits.take (digits.length - places), digits.drop (digits.length - places))
  else (['0'], List.replicate (places - digits.length) '0' ++ digits)

/-- The fraction without zeros at its end. -/
def dropEndZeros (fraction : List Char) : List Char :=
  (fraction.reverse.dropWhile (· == '0')).reverse

/-- Positional text. With `trim`, zeros at the end of the fraction are left out, and the
point too when nothing follows it. -/
def render (trim : Bool) (a : Decimal) : List Char :=
  if 0 ≤ a.exp then (toString (a.rescale 0).coeff).toList
  else
    let (whole, fraction) := splitDigits a.coeff.natAbs.repr.toList a.exp.toInt.natAbs
    let fraction := if trim then dropEndZeros fraction else fraction
    let number := if fraction.isEmpty then whole else whole ++ '.' :: fraction
    if a.coeff < 0 then '-' :: number else number

/-- The canonical text of a decimal. -/
def toText (a : Decimal) : String := String.ofList (render true a)

instance : ToString Decimal := ⟨toText⟩

/-- The number rounded to `places` fractional digits, all of them written. -/
def fixedText (a : Decimal) (places : Int32) : String :=
  String.ofList (render false (a.round places))

/-- The text of the number at another exponent. -/
def scaledText (a : Decimal) (exp : Int32) : String := (a.rescale exp).toText

/-- The text in a JSON document: a string, or a bare number. -/
def jsonText (bare : Bool) (a : Decimal) : String :=
  if bare then a.toText else "\"" ++ a.toText ++ "\""

/-- Coefficient and exponent as stored. -/
def storedText (a : Decimal) : String :=
  "Decimal(" ++ toString a.coeff ++ "e" ++ toString a.exp.toInt ++ ")"

/-! ### Reading -/

/-- The text before the exponent mark, and the exponent if there is a mark. -/
def splitExponent (s : List Char) : List Char × Option (List Char) :=
  let isMark (c : Char) : Bool := c == 'e' || c == 'E'
  match s.dropWhile (!isMark ·) with
  | [] => (s, none)
  | _ :: rest => (s.takeWhile (!isMark ·), some rest)

/-- The text of a number without its point: the digits, with zeros at the end of the
fraction dropped, and how many of them are fractional. `none` for several points. -/
def splitPoint (s : List Char) : Option (List Char × Nat) :=
  match s.dropWhile (· != '.') with
  | [] => some (s, 0)
  | _ :: rest =>
    if rest.contains '.' then none
    else
      let fraction := dropEndZeros rest
      some (s.takeWhile (· != '.') ++ fraction, fraction.length)

/-- Reads at least one digit, after the sign. -/
def readUnsigned (negative : Bool) (digits : List Char) : Option Int :=
  if digits.isEmpty || !digits.all Char.isDigit then none
  else
    let n : Int := Text.natOfDigits digits
    some (if negative then -n else n)

/-- Reads an optional plus, an optional minus, and at least one digit. -/
def readCoeff (s : List Char) : Option Int :=
  let digits := match s with
    | '+' :: rest => rest
    | _ => s
  match digits with
  | '-' :: rest => readUnsigned true rest
  | _ => readUnsigned false digits

/-- Reads the exponent after the mark; without a mark it is zero. -/
def readExponent (text : String) : Option (List Char) → Except Error Int
  | none => .ok 0
  | some digits =>
    match Text.readInt32 digits with
    | .ok e => .ok e.toInt
    | .error .tooLarge => .error (.exponentRange text)
    | .error .tooSmall => .error (.exponentRange text)
    | .error _ => .error (.badExponent text)

/-- Reads the text before the exponent mark, for the given exponent. -/
def readBody (text : String) (body : List Char) (exp : Int) : Except Error Decimal :=
  match splitPoint body with
  | none => .error (.manyPoints text)
  | some (digits, places) =>
    match readCoeff digits with
    | none => .error (.notNumeral text)
    | some coeff =>
      let e := exp - places
      if fitsExp e then .ok ⟨coeff, Int32.ofInt e⟩ else .error (.exponentRange text)

/-- Reads a decimal from a whole text. -/
def parse (text : String) : Except Error Decimal := do
  let (body, mark) := splitExponent text.toList
  let exp ← readExponent text mark
  readBody text body exp

/-! ### Doubles -/

/-- The nearest double. -/
def toFloat (a : Decimal) : Float :=
  Binary64.ofDecimal (decide (a.coeff < 0)) a.coeff.natAbs a.exp.toInt

/-- The double cut off to an integer and held within 64 bits. -/
def clampFloat (x : Float) : Int := x.toInt64.toInt

/-- The shortest decimal that reads back as the double. Integers of the 64-bit range, with
both ends, have exponent zero. -/
def ofFloat (x : Float) : Except Error Decimal :=
  match Binary64.parts x with
  | .nan => .error (.notFinite x)
  | .infinite _ => .error (.notFinite x)
  | .finite negative m q =>
    if x.floor == x && x ≤ 9223372036854775808.0 && -9223372036854775808.0 ≤ x then
      .ok (ofInt (clampFloat x))
    else
      let (d, e) := Binary64.shortest m q
      let n : Int := if negative then -(d : Int) else d
      .ok (if 0 ≤ e then ofInt (n * tenPow e.toNat) else ⟨n, Int32.ofInt e⟩)

/-- The double rounded to exponent `exp`, a half going away from zero. The scaled value is
held within 64 bits. -/
def ofFloatAt (x : Float) (exp : Int32) : Except Error Decimal :=
  let scaled := x * Float.pow 10.0 (-(Float.ofInt exp.toInt))
  if scaled.isFinite then
    .ok ⟨clampFloat (if scaled < 0.0 then scaled - 0.5 else scaled + 0.5), exp⟩
  else .error (.notFinite scaled)

end ScriptEngine.Decimal
