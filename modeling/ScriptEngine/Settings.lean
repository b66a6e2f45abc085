import ScriptEngine.Text.Blank
import ScriptEngine.Text.Numeral

/-!
# Settings

Two settings are shared by everything that runs in one host: how many fractional digits
an inexact decimal quotient keeps, and whether decimals appear in JSON as bare numbers.
`Settings.ofTexts` reads them from two optional texts; a text that cannot be understood
leaves its setting at the default.
-/

namespace ScriptEngine

/-- The host-wide settings. -/
structure Settings where
  /-- Fractional digits kept by an inexact decimal quotient. -/
  divisionPrecision : Int32
  /-- Whether decimals are written to JSON without quotes. -/
  bareDecimals : Bool
deriving DecidableEq, Inhabited

namespace Settings

/-- Sixteen digits, and quoted decimals. -/
def default : Settings := ⟨16, false⟩

/-- The words that switch a setting on. -/
def isYes (s : List Char) : Bool :=
  let word := (Text.trim s).map Char.toLower
  word == ['1'] || word == ['t', 'r', 'u', 'e'] || word == ['y', 'e', 's']

/-- Reads the settings from the texts a host has for them. -/
def ofTexts (precision bare : Option String) : Settings where
  divisionPrecision :=
    match precision.map fun t => Text.readInt32 (Text.trim t.toList) with
    | some (.ok p) => p
    | _ => default.divisionPrecision
  bareDecimals := (bare.map fun t => isYes t.toList).getD default.bareDecimals

end Settings

end ScriptEngine
