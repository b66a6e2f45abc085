import ScriptEngine.Eval.Engine
import ScriptEngine.Eval.Operators
import ScriptEngine.Template.Render

/-!
# Arguments of built-in functions

Built-in functions and methods check how many arguments they are given, then the type of
each. The reports name the place of an argument in words.
-/

namespace ScriptEngine

/-- The numbers of arguments a built-in function takes. -/
inductive Arity where
  | exact (n : Nat)
  | oneOf (counts : List Nat)
  | atLeast (n : Nat)

namespace Arity

def accepts (a : Arity) (got : Nat) : Bool :=
  match a with
  | exact n => got == n
  | oneOf counts => counts.contains got
  | atLeast n => decide (n ≤ got)

def text : Arity → String
  | exact n => toString n
  | oneOf counts => String.intercalate "|" (counts.map toString)
  | atLeast n => ">=" ++ toString n

end Arity

/-- The place of an argument, counting from zero, in words. -/
def ordinal (position : Nat) : String :=
  let words := ["first", "second", "third", "fourth", "fifth", "sixth", "seventh", "eighth",
    "ninth", "tenth"]
  words.getD position (toString (position + 1) ++ "th")

namespace CallSite

open Eval

variable {α : Type}

/-- Ends with a general fault. -/
def general (site : CallSite) (message : String) : Eval α := site.fail (.general message)

/-- Ends with an argument that is not acceptable. -/
def invalid (site : CallSite) (text : String) : Eval α := site.fail (.invalidArgument text)

/-- Checks the number of arguments. -/
def arity (site : CallSite) (a : Arity) (args : List Value) : Eval Unit :=
  if a.accepts args.length then pure ()
  else site.fail (.argumentCount a.text args.length)

/-- Exactly `n` arguments. -/
def exactly (site : CallSite) (n : Nat) (args : List Value) : Eval Unit :=
  site.arity (.exact n) args

/-- One of several numbers of arguments. -/
def oneOf (site : CallSite) (counts : List Nat) (args : List Value) : Eval Unit :=
  site.arity (.oneOf counts) args

/-- At least `n` arguments. -/
def atLeast (site : CallSite) (n : Nat) (args : List Value) : Eval Unit :=
  site.arity (.atLeast n) args

/-- Ends with an argument of a wrong type. -/
def wrongType (site : CallSite) (position : Nat) (expected : String) (v : Value) : Eval α := do
  let got ← gets (·.typeName v)
  site.fail (.parameterType (ordinal position) site.name expected got)

/-- Ends with an argument that is missing. -/
def missing (site : CallSite) (args : List Value) (position : Nat) : Eval α :=
  site.fail (.argumentCount (toString (position + 1)) args.length)

/-- An argument that has to be a text. -/
def textArg (site : CallSite) (args : List Value) (position : Nat) : Eval String :=
  match args[position]? with
  | some (.text s) => pure s
  | some v => site.wrongType position "*String" v
  | none => site.missing args position

/-- An argument that has to be an integer of either kind, and fit the signed one. -/
def intArg (site : CallSite) (args : List Value) (position : Nat) : Eval Int64 :=
  match args[position]? with
  | some (.int n) => pure n
  | some (.uint n) =>
    match (Value.uint n).asInt? with
    | some k => pure k
    | none => site.invalid (toString n.toNat)
  | some v => site.wrongType position "*Integer" v
  | none => site.missing args position

/-- An argument that has to be an integer; other types are reported with both kinds. -/
def eitherIntArg (site : CallSite) (args : List Value) (position : Nat) : Eval Int64 :=
  match args[position]? with
  | some (.int n) => pure n
  | some (.uint n) =>
    match (Value.uint n).asInt? with
    | some k => pure k
    | none => site.invalid (toString n.toNat)
  | some v => site.wrongType position "*Integer|*UInteger" v
  | none => site.missing args position

/-- A key, or the report that the value cannot be one. -/
def keyArg (site : CallSite) (v : Value) : Eval Key :=
  match Key.ofValue? v with
  | some k => pure k
  | none => do site.fail (.notHashable (← gets (·.typeName v)))

/-- A decimal result, or the end of the host in its place. -/
def decimalOr (r : Except Decimal.Trap Decimal) : Eval Value :=
  match r with
  | .ok d => pure (.decimal d)
  | .error t => abort t.message

/-- The text of a template, which is the first argument, with the others filled in. The host
cannot carry on if there is no room for it. -/
def filled (site : CallSite) (args : List Value) : Eval String := do
  site.atLeast 1 args
  let template ← site.textArg args 0
  match ← gets fun s => Template.fill s template args.tail with
  | some text => pure text
  | none => abort "capacity overflow"

/-- Whether a value counts as true. -/
def isTrue (v : Value) : Eval Bool := gets (·.isTrue v)

/-- The text of a value. -/
def inspect (v : Value) : Eval String := gets (·.inspect v)

end CallSite

/-- A method of values of type `α`: what it does at a place with a receiver and arguments. -/
abbrev Method (α : Type) := Engine → CallSite → α → List Value → Eval Value

/-- The methods of a kind of value, by name. -/
abbrev MethodTable (α : Type) := List (String × Method α)

namespace Method

variable {α : Type}

/-- A method without arguments that only computes. -/
def reading (f : α → Value) : Method α := fun _ site receiver args => do
  site.exactly 0 args
  return f receiver

/-- A method without arguments. -/
def plain (f : CallSite → α → Eval Value) : Method α := fun _ site receiver args => do
  site.exactly 0 args
  f site receiver

end Method

namespace MethodTable

variable {α : Type}

/-- The names of the methods. -/
def names (t : MethodTable α) : List String := t.map (·.1)

/-- The method of a name. -/
def find? (t : MethodTable α) (name : String) : Option (Method α) := t.lookup name

theorem isSome_find?_iff (t : MethodTable α) (name : String) :
    (t.find? name).isSome ↔ name ∈ t.names := by
  induction t with
  | nil => simp [find?, names]
  | cons e rest ih =>
    obtain ⟨n, m⟩ := e
    simp only [find?, names, List.lookup_cons, List.map_cons, List.mem_cons] at ih ⊢
    by_cases h : name = n
    · simp [h]
    · have : (name == n) = false := by simpa using h
      simp [this, ih, h]

end MethodTable

end ScriptEngine
