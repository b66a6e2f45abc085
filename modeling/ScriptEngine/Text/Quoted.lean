import ScriptEngine.Text.CharClass

/-!
# Quoted texts

A text or character in quotes, with escapes for the quote, the backslash, control
characters, and whatever has no visible form of its own.
-/

namespace ScriptEngine.Text

/-- A character as its code in braces. -/
def codeEscape (c : Char) : List Char :=
  ['\\', 'u', '\x7b'] ++ Nat.toDigits 16 c.toNat ++ ['\x7d']

/-- A character as it stands between quotes of the kind `quote`. -/
def escapeChar (quote c : Char) : List Char :=
  if c = Char.ofNat 0 then ['\\', '0']
  else if c = '\t' then ['\\', 't']
  else if c = '\r' then ['\\', 'r']
  else if c = '\n' then ['\\', 'n']
  else if c = '\\' ∨ c = quote then ['\\', c]
  else if isExtending c || isUnprintable c then codeEscape c
  else [c]

/-- A text in double quotes. -/
def quoted (s : List Char) : List Char := '"' :: (s.flatMap (escapeChar '"') ++ ['"'])

/-- A character in single quotes. -/
def quotedChar (c : Char) : List Char := '\'' :: (escapeChar '\'' c ++ ['\''])

end ScriptEngine.Text
