import ScriptEngine.Assoc
import ScriptEngine.Value
import ScriptEngine.Text.Quoted

/-!
# Scopes

Lexical scopes form a tree. Each holds its own bindings, some of them constant, and sees
those of its ancestors. Scopes are created with a parent that exists already, so going from
a scope to its parent always lowers the index; `ScopeTree.nearest?` and everything built on
it needs no more steps than the index of the scope it starts from.

Only three operations write: `set` and `setConst` bind a name in the scope itself, `reset`
changes the nearest scope that holds the name. All refuse to touch a constant.
-/

namespace ScriptEngine

/-- One lexical scope. -/
structure Scope where
  bindings : Assoc String Value
  constants : List String
  parent : Option (Ref .scope)
  /-- The task whose calls run in this scope. -/
  task : Nat
  /-- The class whose code runs in this scope, if the scope is the one of a method. -/
  owner : Option (Ref .classDef)

/-- All scopes. -/
structure ScopeTree where
  nodes : Array Scope

/-- A write to a constant. -/
structure ReadOnly where
  name : String
deriving DecidableEq

def ReadOnly.message (e : ReadOnly) : String := "'" ++ e.name ++ "' is read-only"

namespace Scope

/-- A scope without bindings. -/
def fresh (parent : Option (Ref .scope)) (task : Nat) (owner : Option (Ref .classDef)) : Scope :=
  ⟨.empty, [], parent, task, owner⟩

def holds (s : Scope) (name : String) : Bool := s.bindings.contains name

def isConst (s : Scope) (name : String) : Bool := s.constants.contains name

/-- The scope with `name` bound to a value. -/
def bind (s : Scope) (name : String) (v : Value) : Scope :=
  { s with bindings := s.bindings.insert name v }

/-- The scope with `name` bound to a value for good. -/
def bindConst (s : Scope) (name : String) (v : Value) : Scope :=
  { s with bindings := s.bindings.insert name v, constants := name :: s.constants }

end Scope

namespace ScopeTree

def empty : ScopeTree := ⟨#[]⟩

def node? (t : ScopeTree) (r : Ref .scope) : Option Scope := t.nodes[r.index]?

/-- Adds a scope. -/
def add (t : ScopeTree) (s : Scope) : Ref .scope × ScopeTree :=
  (⟨t.nodes.size⟩, ⟨t.nodes.push s⟩)

/-- The task of a scope. -/
def task (t : ScopeTree) (r : Ref .scope) : Nat := ((t.node? r).map (·.task)).getD 0

/-- A scope nested in `r`, for the same task. -/
def child (t : ScopeTree) (r : Ref .scope) : Ref .scope × ScopeTree :=
  t.add (.fresh (some r) (t.task r) none)

/-- The innermost scope from `r` outwards that satisfies `p`, within `fuel` steps. -/
def nearestWithin (t : ScopeTree) (p : Scope → Bool) : Nat → Ref .scope → Option (Ref .scope × Scope)
  | 0, _ => none
  | fuel + 1, r =>
    match t.node? r with
    | none => none
    | some s =>
      if p s then some (r, s)
      else
        match s.parent with
        | none => none
        | some outer => t.nearestWithin p fuel outer

/-- The innermost scope from `r` outwards that satisfies `p`. -/
def nearest? (t : ScopeTree) (p : Scope → Bool) (r : Ref .scope) : Option (Ref .scope × Scope) :=
  t.nearestWithin p (r.index + 1) r

/-- The value of a name as seen from `r`. -/
def get? (t : ScopeTree) (r : Ref .scope) (name : String) : Option Value :=
  (t.nearest? (·.holds name) r).bind fun found => found.2.bindings.get? name

/-- Whether the nearest binding of a name is a constant. -/
def isReadOnly (t : ScopeTree) (r : Ref .scope) (name : String) : Bool :=
  match t.nearest? (·.holds name) r with
  | some (_, s) => s.isConst name
  | none => false

/-- Whether `r` itself binds a name. -/
def hasLocal (t : ScopeTree) (r : Ref .scope) (name : String) : Bool :=
  match t.node? r with
  | some s => s.holds name
  | none => false

/-- Whether `r` itself binds a name for good. -/
def isConstIn (t : ScopeTree) (r : Ref .scope) (name : String) : Bool :=
  match t.node? r with
  | some s => s.isConst name
  | none => false

/-- Replaces the scope at `r` by what `f` makes of it. -/
def modify (t : ScopeTree) (r : Ref .scope) (f : Scope → Scope) : ScopeTree :=
  ⟨t.nodes.modify r.index f⟩

/-- Changes `r` by a write to a name, unless the name is a constant there. -/
def write (t : ScopeTree) (r : Ref .scope) (name : String) (f : Scope → Scope) :
    Except ReadOnly ScopeTree :=
  if t.isConstIn r name then .error ⟨name⟩ else .ok (t.modify r f)

/-- Binds a name in `r`. -/
def set (t : ScopeTree) (r : Ref .scope) (name : String) (v : Value) : Except ReadOnly ScopeTree :=
  t.write r name (·.bind name v)

/-- Binds a name in `r` for good. -/
def setConst (t : ScopeTree) (r : Ref .scope) (name : String) (v : Value) :
    Except ReadOnly ScopeTree :=
  t.write r name (·.bindConst name v)

/-- The nearest scope that binds a name, or `r` if there is none. -/
def holder (t : ScopeTree) (r : Ref .scope) (name : String) : Ref .scope :=
  match t.nearest? (·.holds name) r with
  | some (found, _) => found
  | none => r

/-- Changes the nearest binding of a name, or binds it in `r` if there is none. -/
def reset (t : ScopeTree) (r : Ref .scope) (name : String) (v : Value) :
    Except ReadOnly ScopeTree :=
  t.set (t.holder r name) name v

/-- The names visible from `r` within `fuel` steps that are not in `seen`, inner ones
first. -/
def namesWithin (t : ScopeTree) : Nat → List String → Ref .scope → List String
  | 0, _, _ => []
  | fuel + 1, seen, r =>
    match t.node? r with
    | none => []
    | some s =>
      let new := s.bindings.keys.filter (!seen.contains ·)
      match s.parent with
      | none => new
      | some outer => new ++ t.namesWithin fuel (new ++ seen) outer

/-- Every name visible from `r`, each once. -/
def visibleNames (t : ScopeTree) (r : Ref .scope) : List String :=
  t.namesWithin (r.index + 1) [] r

/-- A description of a scope: the names it binds, in order, and whether it has a parent. -/
def describe (t : ScopeTree) (r : Ref .scope) : String :=
  let names := (((t.node? r).map (·.bindings.keys)).getD []).mergeSort (· ≤ ·)
  let hasParent := ((t.node? r).bind (·.parent)).isSome
  "Scope \x7b names: [" ++
    String.intercalate ", " (names.map fun n => String.ofList (Text.quoted n.toList)) ++
    "], has_parent: " ++ Key.boolText hasParent ++ " \x7d"

/-- The class whose code runs in `r`. -/
def currentClass? (t : ScopeTree) (r : Ref .scope) : Option (Ref .classDef) :=
  (t.nearest? (·.owner.isSome) r).bind (·.2.owner)

end ScopeTree

end ScriptEngine
