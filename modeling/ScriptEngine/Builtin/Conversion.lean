import ScriptEngine.Builtin.Arguments

/-!
# Conversions

Built-in functions that make a value of a wanted type. Texts are read as integers in one of
four bases, with underscores between the digits; everything else converts as its type says,
integers by their lowest 64 bits and doubles toward zero within the range.
-/

namespace ScriptEngine

namespace Text

/-- An integer literal taken apart: its sign, its base, and what is left. -/
structure Literal where
  negative : Bool
  base : Nat
  digits : List Char

/-- Takes the blanks around an integer literal away, and its sign and its base mark. -/
def Literal.ofText (s : List Char) : Literal :=
  let body (negative : Bool) : List Char → Literal
    | '0' :: c :: rest =>
      if c == 'x' || c == 'X' then ⟨negative, 16, rest⟩
      else if c == 'o' || c == 'O' then ⟨negative, 8, rest⟩
      else if c == 'b' || c == 'B' then ⟨negative, 2, rest⟩
      else ⟨negative, 10, '0' :: c :: rest⟩
    | other => ⟨negative, 10, other⟩
  match trim s with
  | '-' :: rest => body true rest
  | '+' :: rest => body false rest
  | other => body false other

/-- The value of a digit in a base. -/
def digitInBase? (base : Nat) (c : Char) : Option Nat :=
  let value : Option Nat :=
    if c.isDigit then some (c.toNat - 48)
    else if 'a' ≤ c ∧ c ≤ 'z' then some (c.toNat - 87)
    else if 'A' ≤ c ∧ c ≤ 'Z' then some (c.toNat - 55)
    else none
  value.filter (· < base)

/-- The number that one or more digits stand for. -/
def natInBase? (base : Nat) : List Char → Option Nat
  | [] => none
  | ds => ds.foldlM (fun n c => (digitInBase? base c).map (n * base + ·)) 0

/-- The integer that digits with an optional sign stand for. -/
def intInBase? (base : Nat) : List Char → Option Int
  | '-' :: ds => (natInBase? base ds).map fun n => -(n : Int)
  | '+' :: ds => (natInBase? base ds).map Int.ofNat
  | ds => (natInBase? base ds).map Int.ofNat

/-- The characters that are not underscores. -/
def withoutUnderscores (s : List Char) : List Char := s.filter (· != '_')

/-- Reads a signed integer of 64 bits. -/
def int64? (s : List Char) : Option Int64 := do
  let l := Literal.ofText s
  let n ← intInBase? l.base (withoutUnderscores l.digits)
  let n := if l.negative then -n else n
  if -9223372036854775808 ≤ n ∧ n ≤ 9223372036854775807 then some (Int64.ofInt n) else none

/-- Reads an unsigned integer of 64 bits; a sign in front of a second one is none of it. -/
def uint64? (s : List Char) : Option UInt64 :=
  let l := Literal.ofText s
  if l.negative then none
  else
    let digits := match withoutUnderscores l.digits with
      | '+' :: ds => ds
      | ds => ds
    match natInBase? l.base digits with
    | some n => if n < 18446744073709551616 then some (UInt64.ofNat n) else none
    | none => none

/-- Reads a double; an integer with a base mark counts as one. -/
def float? (s : List Char) : Option Float :=
  if (Literal.ofText s).base = 10 then Binary64.read? (withoutUnderscores (trim s))
  else (int64? s).map fun n => Float.ofInt n.toInt

end Text

namespace Builtin

open Eval

/-- A text that does not stand for a number. -/
def unsupported {α : Type} (site : CallSite) (input : String) : Eval α :=
  site.fail (.unsupportedInput input site.name)

/-- The types that numbers are made of. -/
def numeric : String := "*Integer|*UInteger|*Float|*Decimal|*Boolean|*String"

def toInt (site : CallSite) (v : Value) : Eval Value :=
  match v with
  | .int n => pure (.int n)
  | .uint n => pure (.int n.toInt64)
  | .float x => pure (.int x.toInt64)
  | .decimal d => pure (.int (Int64.ofInt d.intPart))
  | .bool b => pure (.int (if b then 1 else 0))
  | .text s => match Text.int64? s.toList with
    | some n => pure (.int n)
    | none => unsupported site s
  | other => site.wrongType 0 numeric other

def toUInt (site : CallSite) (v : Value) : Eval Value :=
  match v with
  | .int n => pure (.uint n.toUInt64)
  | .uint n => pure (.uint n)
  | .float x => pure (.uint x.toUInt64)
  | .decimal d => pure (.uint (Int64.ofInt d.intPart).toUInt64)
  | .bool b => pure (.uint (if b then 1 else 0))
  | .text s => match Text.uint64? s.toList with
    | some n => pure (.uint n)
    | none => unsupported site s
  | other => site.wrongType 0 numeric other

def toFloat (site : CallSite) (v : Value) : Eval Value :=
  match v with
  | .int n => pure (.float (Float.ofInt n.toInt))
  | .uint n => pure (.float (Float.ofNat n.toNat))
  | .float x => pure (.float x)
  | .decimal d => pure (.float d.toFloat)
  | .bool b => pure (.float (if b then 1.0 else 0.0))
  | .text s => match Text.float? s.toList with
    | some x => pure (.float x)
    | none => unsupported site s
  | other => site.wrongType 0 numeric other

def toDecimal (site : CallSite) (v : Value) : Eval Value :=
  match v with
  | .int n => pure (.decimal (.ofInt n.toInt))
  | .uint n => pure (.decimal (.ofInt n.toNat))
  | .float x => match Decimal.ofFloat x with
    | .ok d => pure (.decimal d)
    | .error e => site.general e.message
  | .decimal d => pure (.decimal d)
  | .text s => match Decimal.parse s with
    | .ok d => pure (.decimal d)
    | .error _ => unsupported site s
  | other => site.wrongType 0 "*Integer|*UInteger|*Float|*Decimal|*String" other

/-- The items of a collection; those of a hash are its entries as tuples. -/
def itemsOf (site : CallSite) (v : Value) : Eval (List Value) := do
  match v with
  | .hash r => mapList (fun (k, v) => newTuple #[k.toValue, v]) (← hashEntries r).entries
  | other =>
    match ← gets (·.items? other) with
    | some items => return items
    | none => site.wrongType 0 "*Array|*Tuple|*String|*Hash" other

/-- The entry that a pair stands for. -/
def entryOf (site : CallSite) (pair : Value) : Eval (Key × Value) := do
  let items ← gets fun s =>
    match pair with
    | .text _ => none
    | other => s.items? other
  match items with
  | some [k, v] => return (← site.keyArg k, v)
  | _ => site.invalid (← CallSite.inspect pair)

/-- A hash of pairs, of which later ones replace earlier ones. -/
def ofPairs (site : CallSite) (pairs : List Value) : Eval Value := do
  newHash (.ofList (← mapList (entryOf site) pairs))

/-- A hash of a collection of pairs, or a copy of a hash. -/
def toHash (site : CallSite) (v : Value) : Eval Value := do
  match v with
  | .hash r => newHash (← hashEntries r)
  | .array r => ofPairs site (← arrayItems r).toList
  | .tuple r => ofPairs site (← tupleItems r).toList
  | other => site.wrongType 0 "*Hash|*Array|*Tuple" other

end Builtin

end ScriptEngine
