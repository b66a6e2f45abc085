/-!
# Integer numerals

Reading a decimal integer within bounds. The reader works from the left and stops at the
first character that settles the matter, so a numeral that has already left the bounds is
out of range whatever follows.
-/

namespace ScriptEngine.Text

/-- Why a text is no integer of the wanted range. -/
inductive NumeralError where
  | empty
  | badDigit
  | tooLarge
  | tooSmall
deriving DecidableEq, Repr

/-- The value of a decimal digit. -/
def digitValue? (c : Char) : Option Nat :=
  if c.isDigit then some (c.toNat - 48) else none

/-- Extends `acc` by the digits of `s`, downwards from zero when `neg`, as long as the
value stays between `lo` and `hi`. -/
def readDigits (lo hi : Int) (neg : Bool) : Int → List Char → Except NumeralError Int
  | acc, [] => .ok acc
  | acc, c :: rest =>
    match digitValue? c with
    | none => .error .badDigit
    | some d =>
      let next := if neg then acc * 10 - d else acc * 10 + d
      if next < lo then .error .tooSmall
      else if hi < next then .error .tooLarge
      else readDigits lo hi neg next rest

/-- Reads an optionally signed decimal integer between `lo` and `hi`. Without negative
values in the range a minus sign counts as a bad digit. -/
def readInt (lo hi : Int) (s : List Char) : Except NumeralError Int :=
  match s with
  | [] => .error .empty
  | ['+'] => .error .badDigit
  | ['-'] => .error .badDigit
  | '+' :: rest => readDigits lo hi false 0 rest
  | '-' :: rest => if lo < 0 then readDigits lo hi true 0 rest else .error .badDigit
  | _ => readDigits lo hi false 0 s

/-- Reads a 32-bit signed integer. -/
def readInt32 (s : List Char) : Except NumeralError Int32 :=
  (readInt (-2147483648) 2147483647 s).map Int32.ofInt

/-- The number written by a run of decimal digits; other characters count as nothing. -/
def natOfDigits (s : List Char) : Nat :=
  s.foldl (fun acc c => acc * 10 + (c.toNat - 48)) 0

end ScriptEngine.Text
