import ScriptEngine.Eval.Function
import ScriptEngine.Suggestion

/-!
# Objects and classes in use

Members of objects and classes are found along the class chain, fields before properties before
methods; among declarations of one kind the most derived wins. Private members serve the
code of the declaring class only, protected ones the code of its subclasses too. The code of
a class is whatever runs in a scope below that of one of its methods.
-/

namespace ScriptEngine.Object

open Eval

variable {α : Type}

/-- Methods that every class answers besides its static ones. -/
def classMethods : List String := ["name", "parent", "new"]

/-- A method name that a value does not answer, with the similar ones among those it does. -/
def noMethod (receiver : Value) (name : String) (known : List String) (span : Span) :
    Eval α := do
  let object ← gets (·.typeName receiver)
  match Suggestion.similar name known with
  | [] => fail (.noMethod name object) span
  | near => fail (.noMethodLike name object (Suggestion.text near)) span

/-- The name of a class. -/
def className (r : Ref .classDef) : Eval String := gets (·.classes.name r)

/-- Whether code in `scope` may use a member that `owner` declares. -/
def mayUse (s : State) (scope : Ref .scope) (owner : Ref .classDef) : Visibility → Bool
  | .isPublic => true
  | .isPrivate => s.scopes.currentClass? scope == some owner
  | .isProtected =>
    match s.scopes.currentClass? scope with
    | some current => s.classes.isSubclass current owner
    | none => false

/-- Refuses a field or property that code in `scope` may not use. -/
def requireMember (scope : Ref .scope) (owner : Ref .classDef) (visibility : Visibility)
    (name : String) (span : Span) : Eval Unit := do
  if !(← gets fun s => mayUse s scope owner visibility) then
    fail (.memberPrivate name (← className owner)) span

/-- Refuses a method that code in `scope` may not use. -/
def requireMethod (scope : Ref .scope) (owner : Ref .classDef) (visibility : Visibility)
    (name : String) (span : Span) : Eval Unit := do
  if !(← gets fun s => mayUse s scope owner visibility) then
    fail (.methodPrivate name (← className owner)) span

/-- A member that cannot be used in this way. -/
def badMember (name : String) (cls : Ref .classDef) (span : Span) : Eval α := do
  fail (.memberUse name (← className cls)) span

/-! ### Methods -/

/-- The name of the parameter that takes the first argument satisfying `p`, if there is such
an argument; arguments beyond the parameters go by the name of the method. -/
def firstParam? (f : Closure) (args : List Value) (p : Value → Bool) : Option String :=
  (args.findIdx? p).map fun i => ((f.params[i]?).map (·.name)).getD f.name

/-- Checks what one annotation asks of a call. -/
def checkMarking (owner : Ref .classDef) (f : Closure) (args : List Value) (span : Span)
    (marking : Ref .classDef) : Eval Unit := do
  match ← gets (·.classes.markerOf marking) with
  | some .overrides =>
    if (← gets (·.classes.findInherited owner f.name)).isNone then
      fail (.noOverride f.name (← className owner)) span
  | some .notNull =>
    match firstParam? f args (·.isNil) with
    | some param => fail (.isNull param) span
    | none => return ()
  | some .notEmpty =>
    match ← gets fun s => firstParam? f args fun v => !v.isNil && s.isEmpty v with
    | some param =>
      fail (.general ("argument '" ++ param ++ "' of method '" ++ f.name ++
        "' must not be empty")) span
    | none => return ()
  | none => return ()

/-- Runs a method after the checks of its annotations. -/
def runMethod (E : Engine) (scope : Ref .scope) (receiver : Option Value)
    (owner : Ref .classDef) (m : MethodDef) (args : List Value) (span : Span) : Eval Value := do
  forList (checkMarking owner m.closure args span) m.annotations
  Function.run E scope m.closure args span ⟨receiver, some owner⟩

/-- Calls a method of an object. A field that holds something callable is called in place of
a method that is not there. -/
def invoke (E : Engine) (scope : Ref .scope) (r : Ref .object) (name : String)
    (args : List Value) (span : Span) : Eval Value := do
  let cls ← classOf r
  let classes ← gets (·.classes)
  match classes.findMethod cls name with
  | some (owner, m) =>
    if m.isStatic then badMember name owner span
    else
      requireMethod scope owner m.visibility name span
      runMethod E scope (some (.object r)) owner m args span
  | none =>
    match ← field? r name with
    | some callee =>
      if callee.isCallable then E.call scope callee args span
      else noMethod (.object r) name (classes.methodNames cls fun _ => true) span
    | none => noMethod (.object r) name (classes.methodNames cls fun _ => true) span

/-! ### Instances -/

/-- A field that a class of a chain declares, with the scope of the declaration. -/
structure Slot where
  owner : Ref .classDef
  outer : Ref .scope
  field : FieldDef

/-- The fields that the classes of a chain declare, from the root down. Fields of a class that was not
declared anywhere belong to `scope`. -/
def slots (t : ClassTable) (scope : Ref .scope) (cls : Ref .classDef) : List Slot :=
  (t.chain cls).reverse.flatMap fun (owner, c) =>
    c.fields.map fun field => ⟨owner, c.scope.getD scope, field⟩

/-- The first value of a field, computed for an object in the scope of the declaration. -/
def firstValue (E : Engine) (scope : Ref .scope) (r : Ref .object) (span : Span) (slot : Slot) :
    Eval Value := do
  match slot.field.initial with
  | some e =>
    let inner ← enclosedScope slot.outer scope (some slot.owner)
    bindReceiver inner (.object r) span
    E.expr inner e
  | none => return .nil

/-- Gives an object a field. -/
def fill (E : Engine) (scope : Ref .scope) (r : Ref .object) (span : Span) (slot : Slot) :
    Eval Unit := do
  setField r slot.field.name (← firstValue E scope r span slot)

/-- Makes an object with the fields that the classes of its chain declare. -/
def create (E : Engine) (scope : Ref .scope) (cls : Ref .classDef) (span : Span) :
    Eval (Ref .object) := do
  let classes ← gets (·.classes)
  let r ← newObject cls
  forList (fill E scope r span) (slots classes scope cls)
  return r

/-- Runs the method `init` of a new object, which has to be there if there are arguments. -/
def initialise (E : Engine) (scope : Ref .scope) (r : Ref .object) (cls : Ref .classDef)
    (args : List Value) (span : Span) : Eval Unit := do
  match ← gets (·.classes.findMethod cls "init") with
  | some (owner, m) => discard <| runMethod E scope (some (.object r)) owner m args span
  | none => if !args.isEmpty then fail (.argumentCount "0" args.length) span

/-- Makes an object: the fields from the root of the chain down, then the method `init`. -/
def instantiate (E : Engine) (scope : Ref .scope) (cls : Ref .classDef) (args : List Value)
    (span : Span) : Eval Value := do
  let classes ← gets (·.classes)
  let c ← ofOption (classes.class? cls) (.classUnknown (classes.name cls)) span
  if c.category = .marking then fail (.classCategory c.name Category.normal.text) span
  else
    let r ← create E scope cls span
    initialise E scope r cls args span
    return .object r

/-! ### Members of objects -/

/-- Reads a member: a field, a property, or a method packaged with the object. -/
def get (E : Engine) (scope : Ref .scope) (r : Ref .object) (name : String) (span : Span) :
    Eval Value := do
  let cls ← classOf r
  let classes ← gets (·.classes)
  match classes.findField cls name with
  | some (owner, visibility) =>
    requireMember scope owner visibility name span
    return (← field? r name).getD .nil
  | none =>
    match classes.findProperty cls name with
    | some (owner, property) =>
      requireMember scope owner property.visibility name span
      match property.getter with
      | some getter => Function.run E scope getter [] span ⟨some (.object r), some owner⟩
      | none => fail (.propertyUse name (classes.name owner)) span
    | none =>
      match classes.findMethod cls name with
      | some (owner, m) =>
        if m.isStatic then badMember name cls span
        else
          requireMethod scope owner m.visibility name span
          newBound (.object r) name scope span
      | none => badMember name cls span

/-- Writes a member: a field or a property. -/
def set (E : Engine) (scope : Ref .scope) (r : Ref .object) (name : String) (v : Value)
    (span : Span) : Eval Unit := do
  let cls ← classOf r
  let classes ← gets (·.classes)
  match classes.findField cls name with
  | some (owner, visibility) =>
    requireMember scope owner visibility name span
    setField r name v
  | none =>
    match classes.findProperty cls name with
    | some (owner, property) =>
      requireMember scope owner property.visibility name span
      match property.setter with
      | some setter =>
        discard <| Function.run E scope setter [v] span ⟨some (.object r), some owner⟩
      | none => fail (.propertyUse name (classes.name owner)) span
    | none => badMember name cls span

/-- The indexer of an object, for an index that it takes. -/
def indexerOf (r : Ref .object) (index : Value) (span : Span) :
    Eval (Ref .classDef × IndexerDef) := do
  let cls ← classOf r
  match ← gets (·.classes.findIndexer cls) with
  | none => fail (.indexerMissing (← className cls)) span
  | some found =>
    match index with
    | .int _ => return found
    | _ => fail (.indexerType (← className cls)) span

/-- Reads by index. -/
def getAt (E : Engine) (scope : Ref .scope) (r : Ref .object) (index : Value) (span : Span) :
    Eval Value := do
  let (owner, indexer) ← indexerOf r index span
  match indexer.getter with
  | some getter => Function.run E scope getter [index] span ⟨some (.object r), some owner⟩
  | none => fail (.indexerUse (← className (← classOf r))) span

/-- Writes by index. -/
def setAt (E : Engine) (scope : Ref .scope) (r : Ref .object) (index v : Value) (span : Span) :
    Eval Unit := do
  let (owner, indexer) ← indexerOf r index span
  match indexer.setter with
  | some setter =>
    discard <| Function.run E scope setter [index, v] span ⟨some (.object r), some owner⟩
  | none => fail (.indexerUse (← className (← classOf r))) span

/-! ### Members of classes -/

/-- Reads a static field, or a static method packaged with the class. -/
def getStatic (scope : Ref .scope) (cls : Ref .classDef) (name : String) (span : Span) :
    Eval Value := do
  let classes ← gets (·.classes)
  match classes.findStatic cls name with
  | some (holder, v) =>
    requireMember scope holder (classes.staticVisibility holder name) name span
    return v
  | none =>
    match classes.findMethod cls name with
    | some (_, m) =>
      if m.isStatic then newBound (.classDef cls) name scope span else badMember name cls span
    | none => badMember name cls span

/-- Writes a static field in the class that holds it. -/
def setStatic (scope : Ref .scope) (cls : Ref .classDef) (name : String) (v : Value)
    (span : Span) : Eval Unit := do
  let classes ← gets (·.classes)
  match classes.findStatic cls name with
  | some (holder, _) =>
    requireMember scope holder (classes.staticVisibility holder name) name span
    storeStatic holder name v
  | none => badMember name cls span

/-- The methods a class answers. -/
def staticNames (classes : ClassTable) (cls : Ref .classDef) : List String :=
  classes.methodNames cls (·.isStatic) ++ classMethods

/-- Calls a static method of a class, or one of those that every class answers. -/
def invokeStatic (E : Engine) (scope : Ref .scope) (cls : Ref .classDef) (name : String)
    (args : List Value) (span : Span) : Eval Value := do
  let classes ← gets (·.classes)
  match classes.findMethod cls name with
  | some (owner, m) =>
    if m.isStatic then
      requireMethod scope owner m.visibility name span
      runMethod E scope (some (.classDef cls)) owner m args span
    else fail (.methodNotStatic name (classes.name cls)) span
  | none =>
    match name with
    | "new" => instantiate E scope cls args span
    | "name" =>
      if args.isEmpty then return .text (classes.name cls)
      else fail (.argumentCount "0" args.length) span
    | "parent" =>
      if args.isEmpty then
        return (((classes.class? cls).bind (·.parent)).map Value.classDef).getD .nil
      else fail (.argumentCount "0" args.length) span
    | _ => noMethod (.classDef cls) name (staticNames classes cls) span

/-- Calls a method as the ancestors of the class `current` define it. -/
def invokeInherited (E : Engine) (scope : Ref .scope) (current : Ref .classDef)
    (receiver : Option Value) (name : String) (args : List Value) (span : Span) : Eval Value := do
  let classes ← gets (·.classes)
  match classes.findInherited current name with
  | some (owner, m) =>
    requireMethod scope owner m.visibility name span
    runMethod E scope receiver owner m args span
  | none =>
    if name = "init" ∧ args.isEmpty then return .nil
    else
      let parent := (((classes.class? current).bind (·.parent)).map classes.name).getD ""
      fail (.noMethod name parent) span

/-- Calls the inherited definition of a method, relative to the class whose code runs. -/
def invokeSuper (E : Engine) (scope : Ref .scope) (name : String) (args : List Expr)
    (span : Span) : Eval Value := do
  match ← gets (·.scopes.currentClass? scope) with
  | none => fail (.general "'super' used outside of a class method") span
  | some current =>
    let receiver ← gets (·.scopes.get? scope "self")
    let args ← E.exprs scope args
    invokeInherited E scope current receiver name args span

end ScriptEngine.Object
