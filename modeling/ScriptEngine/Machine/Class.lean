import ScriptEngine.Assoc
import ScriptEngine.Program
import ScriptEngine.Value

/-!
# Classes

A class has at most one parent, which existed before it; its *chain* is the class followed
by its ancestors. Looking up a member of one kind goes through the chain and stops at the
first class that declares the name, so among declarations of one kind the most derived wins.
-/

namespace ScriptEngine

/-- What a script function was written as. -/
inductive Origin where
  /-- A function expression or statement, which makes a value. -/
  | value
  /-- A method of a class. -/
  | method
  /-- A getter or a setter of a class. -/
  | accessor
deriving DecidableEq, Repr, Inhabited

/-- A script function together with the scope it was created in. Nothing that runs asks for the
origin; it tells the functions that only classes hold from those that are values. -/
structure Closure where
  name : String
  params : List Param
  body : List Stmt
  scope : Ref .scope
  span : Span
  origin : Origin
deriving Inhabited

namespace Closure

/-- The number of parameters that every call has to supply. -/
def requiredArity (f : Closure) : Nat := (f.params.filter (·.default?.isNone)).length

def arity (f : Closure) : Nat := f.params.length

/-- Whether a call may supply `count` arguments. -/
def accepts (f : Closure) (count : Nat) : Bool :=
  decide (f.requiredArity ≤ count ∧ count ≤ f.arity)

/-- The accepted numbers of arguments, from the least to the greatest. -/
def arityLabel (f : Closure) : String :=
  String.intercalate "|"
    ((List.range (f.arity + 1 - f.requiredArity)).map fun k => toString (f.requiredArity + k))

end Closure

/-- A method together with its receiver and the place it was taken from. -/
structure Bound where
  receiver : Value
  method : String
  /-- The name of the packaged method as a function. -/
  label : String
  scope : Ref .scope
  span : Span
deriving Inhabited

/-- What the built-in annotations ask of a method call. -/
inductive Marker where
  /-- The method redefines one of an ancestor. -/
  | overrides
  /-- No argument is nil. -/
  | notNull
  /-- No text or collection among the arguments is empty. -/
  | notEmpty
deriving DecidableEq, Repr

structure MethodDef where
  closure : Closure
  visibility : Visibility
  isStatic : Bool
  annotations : List (Ref .classDef)

structure PropertyDef where
  visibility : Visibility
  getter : Option Closure
  setter : Option Closure

/-- Access by index: the getter takes the index, the setter the index and the value. -/
structure IndexerDef where
  getter : Option Closure
  setter : Option Closure

structure FieldDef where
  name : String
  visibility : Visibility
  initial : Option Expr

/-- A class. -/
structure ClassDef where
  name : String
  parent : Option (Ref .classDef)
  category : Category
  methods : Assoc String MethodDef
  properties : Assoc String PropertyDef
  fields : List FieldDef
  statics : Assoc String Value
  staticVisibility : Assoc String Visibility
  indexer : Option IndexerDef
  /-- The scope of the declaration, in which field values are computed. -/
  scope : Option (Ref .scope)
  marker : Option Marker

/-- An object: its class and the values of its fields. -/
structure Instance where
  cls : Ref .classDef
  fields : Assoc String Value
deriving Inhabited

/-- All classes. -/
structure ClassTable where
  classes : Array ClassDef

namespace ClassTable

/-- A class without members. -/
def bare (name : String) (category : Category) (marker : Option Marker) : ClassDef :=
  ⟨name, none, category, .empty, .empty, [], .empty, .empty, none, none, marker⟩

/-- The root of all normal classes. -/
def base : Ref .classDef := ⟨0⟩

/-- The classes every program sees: the root and the three annotations. -/
def builtin : ClassTable := ⟨#[
  bare "object" .normal none,
  bare "Override" .marking (some .overrides),
  bare "NotNull" .marking (some .notNull),
  bare "NotEmpty" .marking (some .notEmpty)]⟩

/-- The built-in class of a name. -/
def builtin? : String → Option (Ref .classDef)
  | "object" => some base
  | "Override" => some ⟨1⟩
  | "NotNull" => some ⟨2⟩
  | "NotEmpty" => some ⟨3⟩
  | _ => none

def builtinNames : List String := ["object", "Override", "NotNull", "NotEmpty"]

def class? (t : ClassTable) (r : Ref .classDef) : Option ClassDef := t.classes[r.index]?

/-- A class together with its definition. -/
def entry? (t : ClassTable) (r : Ref .classDef) : Option (Ref .classDef × ClassDef) :=
  (t.class? r).map (r, ·)

def name (t : ClassTable) (r : Ref .classDef) : String := ((t.class? r).map (·.name)).getD ""

def add (t : ClassTable) (c : ClassDef) : Ref .classDef × ClassTable :=
  (⟨t.classes.size⟩, ⟨t.classes.push c⟩)

/-- The classes from `r` upwards, within `fuel` steps. -/
def chainWithin (t : ClassTable) : Nat → Ref .classDef → List (Ref .classDef × ClassDef)
  | 0, _ => []
  | fuel + 1, r =>
    match t.class? r with
    | none => []
    | some c =>
      (r, c) :: match c.parent with
        | none => []
        | some up => t.chainWithin fuel up

/-- A class followed by its ancestors. Parents have smaller indices, so the index bounds
the number of steps. -/
def chain (t : ClassTable) (r : Ref .classDef) : List (Ref .classDef × ClassDef) :=
  t.chainWithin (r.index + 1) r

/-- The first answer along the chain, with the class that gives it. -/
def findAlong {α : Type} (t : ClassTable) (r : Ref .classDef) (f : ClassDef → Option α) :
    Option (Ref .classDef × α) :=
  (t.chain r).findSome? fun (r', c) => (f c).map (r', ·)

def findMethod (t : ClassTable) (r : Ref .classDef) (name : String) :
    Option (Ref .classDef × MethodDef) :=
  t.findAlong r (·.methods.get? name)

/-- A method as the ancestors of `r` declare it. -/
def findInherited (t : ClassTable) (r : Ref .classDef) (name : String) :
    Option (Ref .classDef × MethodDef) :=
  match (t.class? r).bind (·.parent) with
  | some up => t.findMethod up name
  | none => none

def findProperty (t : ClassTable) (r : Ref .classDef) (name : String) :
    Option (Ref .classDef × PropertyDef) :=
  t.findAlong r (·.properties.get? name)

def findIndexer (t : ClassTable) (r : Ref .classDef) : Option (Ref .classDef × IndexerDef) :=
  t.findAlong r (·.indexer)

/-- The visibility of an instance field, with the class that declares it. -/
def findField (t : ClassTable) (r : Ref .classDef) (name : String) :
    Option (Ref .classDef × Visibility) :=
  t.findAlong r fun c => (c.fields.find? (·.name == name)).map (·.visibility)

/-- The class of the chain that holds a static field, with the field's value. -/
def findStatic (t : ClassTable) (r : Ref .classDef) (name : String) :
    Option (Ref .classDef × Value) :=
  t.findAlong r (·.statics.get? name)

/-- Who may use a static field of `r`. -/
def staticVisibility (t : ClassTable) (r : Ref .classDef) (name : String) : Visibility :=
  ((t.class? r).bind (·.staticVisibility.get? name)).getD .isPublic

/-- Whether `other` is `r` or one of its ancestors. -/
def isSubclass (t : ClassTable) (r other : Ref .classDef) : Bool :=
  (t.chain r).any (·.1 == other)

/-- What an annotation class asks for: its own marker or the nearest inherited one. -/
def markerOf (t : ClassTable) (r : Ref .classDef) : Option Marker :=
  (t.findAlong r (·.marker)).map (·.2)

/-- Names of the methods that satisfy `p` along the chain. -/
def methodNames (t : ClassTable) (r : Ref .classDef) (p : MethodDef → Bool) : List String :=
  (t.chain r).flatMap fun (_, c) => (c.methods.entries.filter (p ·.2)).map (·.1)

/-- Writes a static field of `r`. -/
def setStatic (t : ClassTable) (r : Ref .classDef) (name : String) (v : Value) : ClassTable :=
  ⟨t.classes.modify r.index fun c => { c with statics := c.statics.insert name v }⟩

end ClassTable

end ScriptEngine
