import ScriptEngine.Builtin.Arguments
import ScriptEngine.Text.Search
import ScriptEngine.Text.Case

/-!
# Methods of texts

Lengths and places count characters.
-/

namespace ScriptEngine.Method

open Eval

/-- A text value of characters. -/
def charsValue (s : List Char) : Value := .text (String.ofList s)

/-- The characters of a text as texts. -/
def singles (s : String) : List Value := s.toList.map fun c => .text c.toString

/-- A question about a text and an argument. -/
def asking (f : List Char → List Char → Bool) : Method String := fun _ site s args => do
  site.exactly 1 args
  let other ← site.textArg args 0
  return .bool (f s.toList other.toList)

/-- The text without characters of `set` at both ends. -/
def trimSet (set s : List Char) : List Char :=
  Text.dropEndWhile (set.contains ·) (s.dropWhile (set.contains ·))

def ofText : MethodTable String := [
  ("len", reading fun s => .int (Int64.ofNat s.length)),
  ("upper", reading fun s => .text (Text.upperText s)),
  ("lower", reading fun s => .text (Text.lowerText s)),
  ("trim", fun _ site s args => do
    site.oneOf [0, 1] args
    if args.isEmpty then return .text (Text.trimText s)
    else
      let set ← site.textArg args 0
      return charsValue (trimSet set.toList s.toList)),
  ("split", fun _ site s args => do
    site.oneOf [0, 1] args
    if args.isEmpty then newArrayOf ((Text.words s.toList).map charsValue)
    else
      let sep ← site.textArg args 0
      if sep.isEmpty then newArrayOf (singles s)
      else newArrayOf ((Text.split sep.toList s.toList).map charsValue)),
  ("contains", asking Text.contains),
  ("startsWith", asking Text.startsWith),
  ("endsWith", asking Text.endsWith),
  ("replace", fun _ site s args => do
    site.oneOf [2, 3] args
    let old ← site.textArg args 0
    let new ← site.textArg args 1
    let count ← if args.length = 3 then site.intArg args 2 else pure (-1)
    let limit := if count < 0 then none else some count.toInt.toNat
    return charsValue (Text.replace old.toList new.toList limit s.toList)),
  ("index", fun _ site s args => do
    site.exactly 1 args
    let other ← site.textArg args 0
    return .int (match Text.find? other.toList s.toList with
      | some i => Int64.ofNat i
      | none => -1)),
  ("chars", plain fun _ s => newArrayOf (singles s)),
  ("reverse", reading fun s => charsValue s.toList.reverse),
  ("repeat", fun _ site s args => do
    site.exactly 1 args
    let count ← site.intArg args 0
    let t ← ofExcept site.span (Arithmetic.repeatText s count)
    return .text t)]

end ScriptEngine.Method
