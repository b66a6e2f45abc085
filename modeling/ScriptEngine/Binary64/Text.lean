import ScriptEngine.Binary64.Shortest

/-!
# Doubles as text

Three ways of writing a double: positional with the fewest digits that read back
(`display`), positional with a given number of fractional digits (`fixed`), and with an
exponent (`scientific`). Rounding to given digits goes to the nearest, a tie to the even
digit. Reading (`read?`) accepts the usual forms and rounds correctly.
-/

namespace ScriptEngine.Binary64

/-- The quotient rounded to the nearest natural number, a tie to the even one. -/
def divRoundEven (num den : Nat) : Nat :=
  let q := num / den
  let r := num % den
  if 2 * r < den then q
  else if den < 2 * r then q + 1
  else if q % 2 = 0 then q else q + 1

/-- `d · 10 ^ e` in positional notation, with exactly `-e` fractional digits when `e` is
negative. -/
def positional (d : Nat) (e : Int) : List Char :=
  if 0 ≤ e then
    if d = 0 then ['0'] else d.repr.toList ++ List.replicate e.toNat '0'
  else
    let places := (-e).toNat
    let digits := d.repr.toList
    let padded := List.replicate (places + 1 - digits.length) '0' ++ digits
    padded.take (padded.length - places) ++ '.' :: padded.drop (padded.length - places)

/-- Puts the sign in front. -/
def signed (negative : Bool) (s : List Char) : List Char := if negative then '-' :: s else s

/-- The shortest positional text that reads back, never with an exponent. -/
def displayChars (x : Float) : List Char :=
  match parts x with
  | .nan => ['N', 'a', 'N']
  | .infinite s => signed s ['i', 'n', 'f']
  | .finite s m q => let (d, e) := shortest m q; signed s (positional d e)

/-- `displayChars` as a string. -/
def display (x : Float) : String := String.ofList (displayChars x)

/-- Positional text with exactly `places` fractional digits. -/
def fixed (places : Nat) (x : Float) : String :=
  String.ofList <|
    match parts x with
    | .nan => ['N', 'a', 'N']
    | .infinite s => signed s ['i', 'n', 'f']
    | .finite s m q =>
      let (num, den) := magnitude m q
      signed s (positional (divRoundEven (num * Nat.pow 10 places) den) (-(places : Int)))

/-- The digits of a mantissa with a point after the first one. -/
def withPoint : List Char → List Char
  | [] => []
  | [c] => [c]
  | c :: rest => c :: '.' :: rest

/-- Digits and exponent of `num / den` rounded to `places + 1` significant digits. -/
def significant (num den places : Nat) : Nat × Int :=
  if num = 0 then (0, 0)
  else
    let order := decimalOrder num den
    let scale := (places : Int) + 1 - order
    let (up, down) := powTen scale
    let d := divRoundEven (num * up) (den * down)
    if d = Nat.pow 10 (places + 1) then (Nat.pow 10 places, order) else (d, order - 1)

/-- Text with one digit before the point and an exponent: the fewest digits that read
back, or exactly `places?` fractional digits. -/
def scientific (places? : Option Nat) (mark : Char) (x : Float) : String :=
  String.ofList <|
    match parts x with
    | .nan => ['N', 'a', 'N']
    | .infinite s => signed s ['i', 'n', 'f']
    | .finite s m q =>
      let (digits, e) : List Char × Int := match places? with
        | none =>
          let (d, e) := shortest m q
          let order : Int := if d = 0 then 0 else e + (digitCount d : Int) - 1
          (d.repr.toList, order)
        | some places =>
          let (num, den) := magnitude m q
          let (d, e) := significant num den places
          (if d = 0 then List.replicate (places + 1) '0' else d.repr.toList, e)
      signed s (withPoint digits ++ mark :: (toString e).toList)

/-! ### Reading -/

/-- `d · 10 ^ e` as the nearest double. Exponents far outside the range are answered
without computing the power. -/
def ofDecimal (negative : Bool) (d : Nat) (e : Int) : Float :=
  let x :=
    if d = 0 then 0.0
    else if 400 < e + digitCount d then 1.0 / 0.0
    else if e + digitCount d < -400 then 0.0
    else if 0 ≤ e then Float.ofScientific d false e.toNat
    else Float.ofScientific d true (-e).toNat
  if negative then -x else x

/-- The exponent part of a number: nothing, or a mark and an optionally signed run of
digits. -/
def readExponent? : List Char → Option Int
  | [] => some 0
  | c :: rest =>
    if c = 'e' ∨ c = 'E' then
      let (negative, digits) := match rest with
        | '-' :: ds => (true, ds)
        | '+' :: ds => (false, ds)
        | ds => (false, ds)
      if digits.isEmpty || !digits.all Char.isDigit then none
      else
        let n : Nat :=
          digits.foldl (fun acc c => if acc < 100000 then acc * 10 + (c.toNat - 48) else acc) 0
        some (if negative then -(n : Int) else n)
    else none

/-- The words for the values that are no numbers, in any letter case. -/
def readWord? (s : List Char) : Option Float :=
  match String.ofList (s.map Char.toLower) with
  | "inf" => some (1.0 / 0.0)
  | "infinity" => some (1.0 / 0.0)
  | "nan" => some (0.0 / 0.0)
  | _ => none

/-- Reads an unsigned number: digits with an optional point, at least one of them, then an
optional exponent. -/
def readUnsigned? (negative : Bool) (s : List Char) : Option Float :=
  let whole := s.takeWhile Char.isDigit
  let rest := s.dropWhile Char.isDigit
  let (fraction, rest) := match rest with
    | '.' :: more => (more.takeWhile Char.isDigit, more.dropWhile Char.isDigit)
    | more => ([], more)
  if whole.isEmpty && fraction.isEmpty then
    (readWord? s).map fun x => if negative then -x else x
  else
    (readExponent? rest).map fun e =>
      let d := (whole ++ fraction).foldl (fun acc c => acc * 10 + (c.toNat - 48)) 0
      ofDecimal negative d (e - fraction.length)

/-- Reads a double from a whole text. -/
def read? (s : List Char) : Option Float :=
  match s with
  | '-' :: rest => readUnsigned? true rest
  | '+' :: rest => readUnsigned? false rest
  | _ => readUnsigned? false s

end ScriptEngine.Binary64
