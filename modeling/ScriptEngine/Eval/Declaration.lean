import ScriptEngine.Eval.Object

/-!
# Class declarations

A declaration makes a class of its members and binds it in the current scope; the values of
static fields are computed after that, so that they can refer to the class. Annotations are
classes of their own category, with ancestors of that category only.
-/

namespace ScriptEngine.Declaration

open Eval

/-- The class a name stands for, with its definition. A binding hides a built-in class of the same
name. -/
def resolve (scope : Ref .scope) (name : String) (span : Span) :
    Eval (Option (Ref .classDef × ClassDef)) := do
  match ← gets (·.scopes.get? scope name) with
  | some (.classDef r) => gets (·.classes.entry? r)
  | some _ => fail (.notClass name) span
  | none => gets fun s => (ClassTable.builtin? name).bind s.classes.entry?

/-- The annotation a name stands for. -/
def markingClass (scope : Ref .scope) (span : Span) (name : String) : Eval (Ref .classDef) := do
  match ← resolve scope name span with
  | none => fail (.classUnknown name) span
  | some (r, c) =>
    if c.category = .marking then return r
    else fail (.classCategory name Category.marking.text) span

/-- The parent of a declared class: of its own category, and the root of all classes if none
is given. -/
def parentOf (scope : Ref .scope) (name : String) (parent : Option String) (category : Category)
    (span : Span) : Eval (Option (Ref .classDef)) := do
  match parent with
  | none => return if category = .marking then none else some ClassTable.base
  | some parent =>
    match ← resolve scope parent span with
    | none => fail (.parentUnknown parent) span
    | some (r, c) =>
      match category, c.category with
      | .marking, .normal => fail (.parentNotMarking name c.name) span
      | .normal, .marking => fail (.classCategory c.name Category.normal.text) span
      | _, _ => return some r

/-- The types an indexer's parameter can have. -/
def indexTypes : List String := ["int", "integer", "Integer"]

/-- A parameter without a default. -/
def plainParam (name : String) : Param := .mk name none

/-- Adds a member to a class. The values of static fields are left for later. -/
def addMember (scope : Ref .scope) (c : ClassDef) : MemberDecl → Eval ClassDef
  | .mk visibility isStatic annotations form span =>
    match form with
    | .field name value =>
      if isStatic then
        return { c with staticVisibility := c.staticVisibility.insert name visibility }
      else return { c with fields := c.fields ++ [⟨name, visibility, value⟩] }
    | .method name params body => do
      let annotations ← mapList (markingClass scope span) annotations
      let m : MethodDef := ⟨⟨name, params, body, scope, span, .method⟩, visibility, isStatic,
        annotations⟩
      return { c with methods := c.methods.insert name m }
    | .property name getter setter =>
      let p : PropertyDef := ⟨visibility,
        getter.map fun body => ⟨name, [], body, scope, span, .accessor⟩,
        setter.map fun (param, body) => ⟨name, [plainParam param], body, scope, span, .accessor⟩⟩
      return { c with properties := c.properties.insert name p }
    | .indexer param type getter setter =>
      if isStatic then fail (.indexerStatic c.name) span
      else if !indexTypes.contains type then fail (.indexerType c.name) span
      else
        let i : IndexerDef := ⟨
          getter.map fun body => ⟨"this[]", [plainParam param], body, scope, span, .accessor⟩,
          setter.map fun (value, body) =>
            ⟨"this[]=", [plainParam param, plainParam value], body, scope, span, .accessor⟩⟩
        return { c with indexer := some i }

/-- Adds members in order. -/
def addMembers (scope : Ref .scope) : ClassDef → List MemberDecl → Eval ClassDef
  | c, [] => return c
  | c, m :: rest => do addMembers scope (← addMember scope c m) rest

/-- Computes and stores the value of a static field. -/
def initStatic (E : Engine) (scope : Ref .scope) (r : Ref .classDef) : MemberDecl → Eval Unit
  | .mk _ true _ (.field name value) _ => do
    let v ← match value with
      | some e => E.expr scope e
      | none => pure .nil
    storeStatic r name v
  | _ => return ()

/-- Declares a class in a scope. -/
def run (E : Engine) (scope : Ref .scope) : ClassDecl → Eval Unit
  | .mk name parent category members span => do
    let parent ← parentOf scope name parent category span
    let empty : ClassDef :=
      { ClassTable.bare name category none with parent, scope := some scope }
    let r ← newClass (← addMembers scope empty members)
    bindName scope name (.classDef r) span
    forList (initStatic E scope r) members

/-- Makes an object of the class that an expression stands for. -/
def instantiate (E : Engine) (scope : Ref .scope) (cls : Expr) (args : List Expr) (span : Span) :
    Eval Value := do
  let v ← match cls.form with
    | .name name =>
      match ← resolve scope name span with
      | some (r, _) => pure (.classDef r)
      | none => fail (.classUnknown name) span
    | _ => E.operand scope cls
  match v with
  | .classDef r =>
    let args ← E.exprs scope args
    Object.instantiate E scope r args span
  | other => fail (.notClass (← gets (·.inspect other))) span

end ScriptEngine.Declaration
