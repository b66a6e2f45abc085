import ScriptEngine.Builtin.Conversion
import ScriptEngine.Builtin.Counting
import ScriptEngine.Method.Answer
import ScriptEngine.Template.Scan

/-!
# General built-in functions

Output, lengths, copies, integer ranges, characters, templates, and questions about values
and classes.
-/

namespace ScriptEngine.Builtin

open Eval

/-- The texts of values with blanks between them. -/
def joined (args : List Value) : Eval String :=
  gets fun s => String.intercalate " " (args.map s.inspect)

/-- The length of a text or collection. -/
def len (site : CallSite) (v : Value) : Eval Value := do
  match v with
  | .channel r => return Method.countValue (← Method.channel r).size
  | other =>
    match ← gets (·.itemCount? other) with
    | some n => return Method.countValue n
    | none => site.wrongType 0 "*String|*Array|*Tuple|*Hash|*List|*Channel" other

/-- A copy with the items in reverse. -/
def reverse (site : CallSite) (v : Value) : Eval Value := do
  match v with
  | .text s => return .text (String.ofList s.toList.reverse)
  | .array r => newArray (← arrayItems r).reverse
  | .tuple r => newTuple (← tupleItems r).reverse
  | other => site.wrongType 0 "*String|*Array|*Tuple" other

/-- One of two values. -/
def choose (site : CallSite) (args : List Value) : Eval Value :=
  match args with
  | [.bool b, yes, no] => return if b then yes else no
  | v :: _ => site.wrongType 0 "*Boolean" v
  | [] => return .nil

/-- The items of an array, or the value itself. -/
def flattened (v : Value) : Eval (List Value) := do
  match v with
  | .array r => return (← arrayItems r).toList
  | other => return [other]

/-- More items than memory holds. -/
def maxItems : Nat := 1099511627776

/-- An array of the given items, filled up with nil to a length. -/
def filledArray (site : CallSite) (count : Int64) (args : List Value) : Eval Value := do
  if count < 0 then site.general "Parameter of 'newArray' is less than zero."
  else
    let count := count.toInt.toNat
    let items := (← mapList flattened args).flatten
    if items.length < count ∧ maxItems < count then abort "capacity overflow"
    else newArrayOf (items ++ List.replicate (count - items.length) .nil)

/-- A length, of which unsigned ones count by their lowest 64 bits. -/
def lengthArg (site : CallSite) (v : Value) : Eval Int64 :=
  match v with
  | .int n => pure n
  | .uint n => pure n.toInt64
  | other => site.wrongType 0 "*Integer|*UInteger" other

/-- The step of a range, which is one if it is left out. -/
def stepArg (site : CallSite) (args : List Value) : Eval Int64 :=
  if args.length = 2 then site.eitherIntArg args 1 else pure 1

/-- The array of the multiples of a step below a bound; the step has to be positive. -/
def multiplesBelow (site : CallSite) (stop step : Int64) : Eval Value :=
  if h : step ≤ 0 then site.general "second parameter of 'range' should be >0"
  else if stop ≤ 0 then newArray #[]
  else newArray (Counting.upTo stop step (Int64.not_le.mp h))

/-- The array of the integers below a bound, or of those that a step leads to. -/
def range (site : CallSite) (args : List Value) : Eval Value := do
  let stop ← site.eitherIntArg args 0
  let step ← stepArg site args
  multiplesBelow site stop step

def abs (site : CallSite) (v : Value) : Eval Value :=
  match v with
  | .int n => return .int (Method.intAbs n)
  | .uint n => return .uint n
  | .float x => return .float x.abs
  | .decimal d => return .decimal d.abs
  | other => site.wrongType 0 "*Integer|*UInteger|*Float|*Decimal" other

/-- The character of a code point. -/
def chr (site : CallSite) (args : List Value) : Eval Value := do
  let code ← site.eitherIntArg args 0
  match Template.charOfCode? code.toInt with
  | some c => return .text c.toString
  | none => site.fail (.unsupportedInput (toString code.toInt) "chr")

/-- The code point of a text of one character. -/
def ord (site : CallSite) (args : List Value) : Eval Value := do
  let s ← site.textArg args 0
  match s.toList with
  | [c] => return Method.countValue c.toNat
  | chars => site.fail (.inputLength "ord" 1 chars.length)

/-- The values of a text that was made from a template. -/
def scanned (site : CallSite) (args : List Value) : Eval Value := do
  let input ← site.textArg args 0
  let template ← site.textArg args 1
  match Template.scan? input template with
  | some values => newArrayOf values
  | none => return .nil

/-- Whether an object is of a class or of a subclass of it; the class may be given by name. -/
def isA (site : CallSite) (v cls : Value) : Eval Value := do
  match v with
  | .object r =>
    let own ← classOf r
    match cls with
    | .text name => gets fun s => .bool ((s.classes.chain own).any (·.2.name == name))
    | .classDef r => gets fun s => .bool (s.classes.isSubclass own r)
    | _ => site.general "is_a/instanceOf expected a class or string for second argument"
  | _ => return .bool false

/-- The class name of an object, and nothing for other values. -/
def className (v : Value) : Eval Value := do
  match v with
  | .object r => return .text (← Object.className (← classOf r))
  | _ => return .text ""

end ScriptEngine.Builtin
