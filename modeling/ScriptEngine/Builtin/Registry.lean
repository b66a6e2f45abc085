import ScriptEngine.Assoc
import ScriptEngine.Text.Case
import ScriptEngine.Value

/-!
# The registry of built-in names

Global functions, and namespaces with functions and constants of their own. Names are
matched without regard to letter case, and a later registration replaces an earlier one of
the same name. Within a namespace functions come before constants.
-/

namespace ScriptEngine

/-- Functions and constants under one name. -/
structure Namespace where
  functions : Assoc String Native
  vars : Assoc String Value

/-- All built-in names. -/
structure Registry where
  functions : Assoc String Native
  namespaces : Assoc String Namespace

namespace Registry

def empty : Registry := ⟨.empty, .empty⟩

/-- The form under which a name is stored. -/
def fold (name : String) : String := Text.lowerText name

/-- Adds a global function. -/
def define (r : Registry) (name : String) (op : Op) : Registry :=
  { r with functions := r.functions.insert (fold name) ⟨name, op⟩ }

/-- Changes a namespace, which is created if it is not there. -/
def within (r : Registry) (space : String) (f : Namespace → Namespace) : Registry :=
  let old := (r.namespaces.get? (fold space)).getD ⟨.empty, .empty⟩
  { r with namespaces := r.namespaces.insert (fold space) (f old) }

/-- Adds a function to a namespace. -/
def addIn (r : Registry) (space name : String) (f : Native) : Registry :=
  r.within space fun n => { n with functions := n.functions.insert (fold name) f }

/-- Adds a function to a namespace under its qualified name. -/
def defineIn (r : Registry) (space name : String) (op : Op) : Registry :=
  r.addIn space name ⟨space ++ "." ++ name, op⟩

/-- Adds a constant to a namespace. -/
def defineVar (r : Registry) (space name : String) (v : Value) : Registry :=
  r.within space fun n => { n with vars := n.vars.insert (fold name) v }

/-- Adds a batch of functions; an empty namespace stands for the global one. -/
def addFunctions (r : Registry) (space : String) (batch : List Native) : Registry :=
  batch.foldl (fun acc f =>
    if space = "" then { acc with functions := acc.functions.insert (fold f.name) f }
    else acc.addIn space f.name f) r

/-- Adds a batch of constants. -/
def addVars (r : Registry) (space : String) (batch : List (String × Value)) : Registry :=
  batch.foldl (fun acc v => acc.defineVar space v.1 v.2) r

/-- The global function of a name. -/
def lookup (r : Registry) (name : String) : Option Value :=
  (r.functions.get? (fold name)).map .native

/-- The function or constant of a name in a namespace. -/
def lookupIn (r : Registry) (space name : String) : Option Value :=
  (r.namespaces.get? (fold space)).bind fun n =>
    match n.functions.get? (fold name) with
    | some f => some (.native f)
    | none => n.vars.get? (fold name)

def hasNamespace (r : Registry) (space : String) : Bool := r.namespaces.contains (fold space)

/-- Names of the global functions, as they were registered. -/
def names (r : Registry) : List String := r.functions.values.map (·.name)

/-- Names in a namespace, as they are stored. -/
def members (r : Registry) (space : String) : List String :=
  match r.namespaces.get? (fold space) with
  | some n => n.functions.keys ++ n.vars.keys
  | none => []

end Registry

end ScriptEngine
