import ScriptEngine.Machine.Alloc

/-!
# Packages

A package is a program that was evaluated in a scope of its own. The names it binds there
that start with a capital of the Latin alphabet are exported; the others stay private.
-/

namespace ScriptEngine

namespace Package

/-- Whether a name is exported. -/
def isExported (name : String) : Bool :=
  match name.toList with
  | c :: _ => c.isUpper
  | [] => false

/-- The name of the package at a path: the last part of the path up to its first point, or
all of that part if it starts with the point. -/
def nameOf (path : String) : String :=
  let last := (path.toList.reverse.takeWhile fun c => c != '/' && c != '\\').reverse
  let stem := last.takeWhile (· != '.')
  String.ofList (if stem.isEmpty then last else stem)

end Package

namespace Packages

/-- The imports in progress from `path` on, closed by `path` itself, if it is among them. -/
def cycle? (p : Packages) (path : String) : Option (List String) :=
  match p.resolving.dropWhile (· != path) with
  | [] => none
  | chain => some (chain ++ [path])

/-- Starts an import. -/
def enter (p : Packages) (path : String) : Packages := { p with resolving := p.resolving ++ [path] }

/-- Ends the latest import of a path. -/
def leave (p : Packages) (path : String) : Packages :=
  { p with resolving := (p.resolving.reverse.erase path).reverse }

end Packages

namespace State

/-- The value that a package exports under a name. -/
def export? (s : State) (r : Ref .package) (name : String) : Except Cause Value :=
  match s.packages.table.get? r with
  | none => .error (.unknownName name)
  | some p =>
    if !Package.isExported name then .error (.notExported p.name name)
    else
      match s.scopes.get? p.scope name with
      | some v => .ok v
      | none => .error (.unknownName (p.name ++ "." ++ name))

/-- Names and values that a package exports, in the order of the names. -/
def exports (s : State) (r : Ref .package) : List (String × Value) :=
  match s.packages.table.get? r with
  | none => []
  | some p =>
    let names := ((s.scopes.visibleNames p.scope).filter Package.isExported).mergeSort (· ≤ ·)
    names.filterMap fun name => (s.scopes.get? p.scope name).map (name, ·)

end State

namespace Eval

/-- A package with its scope, stored under its path. -/
def newPackage (path : String) (scope : Ref .scope) : Eval (Ref .package) :=
  modifyGet fun s =>
    let (r, table) := s.packages.table.add ⟨Package.nameOf path, path, scope⟩
    (r, { s with packages := { s.packages with table, loaded := s.packages.loaded.insert path r } })

end Eval

end ScriptEngine
