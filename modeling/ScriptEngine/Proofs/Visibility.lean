import ScriptEngine.Eval.Level
import ScriptEngine.Proofs.Classes.Chains
import ScriptEngine.Proofs.Run.Ends

/-!
# Visibility

A member is used by name: a field, property or method of an object is read, written or called, a
static member of a class likewise, and an inherited method is called through `super`. Each use
finds the declaration that governs it (`Use.governing?`). Where this is private or protected and
the code that runs is neither of the declaring class nor, if it is protected, of a subclass, the
use is refused: it ends with the fault of its kind in the state it began in, so nothing has been
read, written or run (`Use.run_of_outside`).

The uses that no declaration governs are not all harmless. A private field that holds a function
cannot be read by code outside of its class, but can be called by it (`Use.run_call_field`). A
static method that is read is packaged whatever its visibility; that matters only when it is
called. And access by index is not a use by name: an indexer is declared without visibility.
-/

namespace ScriptEngine

open Eval

namespace Object

/-- Code that runs in `scope` is not of the class `owner`, nor, for a protected member, of a
subclass. -/
def Outside (s : State) (scope : Ref .scope) (owner : Ref .classDef) : Visibility → Prop
  | .isPublic => False
  | .isPrivate => s.scopes.currentClass? scope ≠ some owner
  | .isProtected =>
    ∀ current, s.scopes.currentClass? scope = some current → ¬ s.classes.Descends current owner

variable {E : Engine} {s : State} {scope : Ref .scope} {owner : Ref .classDef}
  {visibility : Visibility} {name : String} {span : Span}

/-- Code from outside may not use the member. -/
theorem mayUse_of_outside (h : Outside s scope owner visibility) :
    mayUse s scope owner visibility = false := by
  cases visibility with
  | isPublic => exact h.elim
  | isPrivate =>
    have hne : s.scopes.currentClass? scope ≠ some owner := h
    -- the class of the code is another one, or there is none
    simpa [mayUse] using hne
  | isProtected =>
    unfold mayUse
    -- code of no class may not, and code of a class only if this descends from the declaring one
    cases hc : s.scopes.currentClass? scope with
    | none => rfl
    | some current =>
      exact Bool.eq_false_iff.mpr fun hsub =>
        h current hc (ClassTable.descends_of_isSubclass hsub)

/-- The check of a field or a property fails outside. -/
theorem requireMember_of_outside (h : Outside s scope owner visibility) :
    requireMember scope owner visibility name span s =
      .stop (.fault ⟨.memberPrivate name (s.classes.name owner), span⟩) s := by
  simp [requireMember, mayUse_of_outside h, className, fail, raise, gets, Run.andThen]

/-- So does that of a method. -/
theorem requireMethod_of_outside (h : Outside s scope owner visibility) :
    requireMethod scope owner visibility name span s =
      .stop (.fault ⟨.methodPrivate name (s.classes.name owner), span⟩) s := by
  simp [requireMethod, mayUse_of_outside h, className, fail, raise, gets, Run.andThen]

end Object

open Object

/-! ### Uses of members -/

/-- A use of a member by its name. -/
inductive Use where
  | read (r : Ref .object)
  | write (r : Ref .object) (v : Value)
  | call (r : Ref .object) (args : List Value)
  | readStatic (cls : Ref .classDef)
  | writeStatic (cls : Ref .classDef) (v : Value)
  | callStatic (cls : Ref .classDef) (args : List Value)
  /-- A call through `super` by code of the class `current`. -/
  | callSuper (current : Ref .classDef) (receiver : Option Value) (args : List Value)

/-- What is declared of a member: where, for whom, and whether it is a method. -/
structure Declared where
  owner : Ref .classDef
  visibility : Visibility
  isMethod : Bool

/-- What is reported when the member is used from outside. -/
def Declared.refusal (d : Declared) (name : String) (classes : ClassTable) : Cause :=
  if d.isMethod then .methodPrivate name (classes.name d.owner)
  else .memberPrivate name (classes.name d.owner)

namespace Use

/-- Uses a member from code in a scope. What it answers is of no matter here. -/
def run (E : Engine) (scope : Ref .scope) (name : String) (span : Span) : Use → Eval Unit
  | read r => discard (Access.getMember E scope (.object r) name span)
  | write r v => Access.setMember E scope (.object r) name v span
  | call r args => discard (Dispatch.invoke E scope (.object r) name args span)
  | readStatic cls => discard (Access.getMember E scope (.classDef cls) name span)
  | writeStatic cls v => Access.setMember E scope (.classDef cls) name v span
  | callStatic cls args => discard (Dispatch.invoke E scope (.classDef cls) name args span)
  | callSuper current receiver args =>
    discard (invokeInherited E scope current receiver name args span)

/-- The class of an object. -/
abbrev classOf (s : State) (r : Ref .object) : Ref .classDef :=
  ((s.heap.objects.get? r).map (·.cls)).getD ClassTable.base

/-- The declaration that governs a use. Fields come before properties, and these before methods;
the most derived class that declares the name decides. -/
def governing? (s : State) (name : String) : Use → Option Declared
  | read r => field (classOf s r) <|> property (classOf s r) <|> method false (classOf s r)
  | write r _ => field (classOf s r) <|> property (classOf s r)
  | call r _ => method false (classOf s r)
  | readStatic cls => static cls
  | writeStatic cls _ => static cls
  | callStatic cls _ => method true cls
  | callSuper current _ _ =>
    (s.classes.findInherited current name).map fun (owner, m) => ⟨owner, m.visibility, true⟩
where
  field (cls : Ref .classDef) : Option Declared :=
    (s.classes.findField cls name).map fun (owner, visibility) => ⟨owner, visibility, false⟩
  property (cls : Ref .classDef) : Option Declared :=
    (s.classes.findProperty cls name).map fun (owner, p) => ⟨owner, p.visibility, false⟩
  method (isStatic : Bool) (cls : Ref .classDef) : Option Declared :=
    match s.classes.findMethod cls name with
    | some (owner, m) => if m.isStatic = isStatic then some ⟨owner, m.visibility, true⟩ else none
    | none => none
  static (cls : Ref .classDef) : Option Declared :=
    (s.classes.findStatic cls name).map fun (holder, _) =>
      ⟨holder, s.classes.staticVisibility holder name, false⟩

variable {E : Engine} {s : State} {scope : Ref .scope} {name : String} {span : Span}

/-- A member that is not visible is not read. -/
theorem get_of_outside {r : Ref .object} {d : Declared} (hd : (read r).governing? s name = some d)
    (hout : Outside s scope d.owner d.visibility) :
    Object.get E scope r name span s = .stop (.fault ⟨d.refusal name s.classes, span⟩) s := by
  unfold Object.get
  simp only [Eval.classOf, gets_bind_apply]
  simp only [governing?, governing?.field, governing?.property, governing?.method] at hd
  -- in the order in which declarations decide
  cases hf : s.classes.findField (classOf s r) name with
  | some found =>
    obtain ⟨owner, visibility⟩ := found
    obtain rfl : ⟨owner, visibility, false⟩ = d := by simpa [hf] using hd
    exact bind_of_stop (requireMember_of_outside hout) _
  | none =>
    -- there is no such field, so a property decides
    cases hp : s.classes.findProperty (classOf s r) name with
    | some found =>
      obtain ⟨owner, p⟩ := found
      obtain rfl : ⟨owner, p.visibility, false⟩ = d := by simpa [hf, hp] using hd
      exact bind_of_stop (requireMember_of_outside hout) _
    | none =>
      -- nor is there a property, so a method does
      cases hm : s.classes.findMethod (classOf s r) name with
      | none => simp [hf, hp, hm] at hd
      | some found =>
        obtain ⟨owner, m⟩ := found
        obtain ⟨hstatic, rfl⟩ : m.isStatic = false ∧ ⟨owner, m.visibility, true⟩ = d := by
          simpa [hf, hp, hm] using hd
        -- static methods are no members of objects, so it is one that is called on the object
        simp only [hstatic]
        exact bind_of_stop (requireMethod_of_outside hout) _

/-- Nor is it written. -/
theorem set_of_outside {r : Ref .object} {v : Value} {d : Declared}
    (hd : (write r v).governing? s name = some d) (hout : Outside s scope d.owner d.visibility) :
    Object.set E scope r name v span s = .stop (.fault ⟨d.refusal name s.classes, span⟩) s := by
  unfold Object.set
  simp only [Eval.classOf, gets_bind_apply]
  simp only [governing?, governing?.field, governing?.property] at hd
  cases hf : s.classes.findField (classOf s r) name with
  | some found =>
    obtain ⟨owner, visibility⟩ := found
    obtain rfl : ⟨owner, visibility, false⟩ = d := by simpa [hf] using hd
    exact bind_of_stop (requireMember_of_outside hout) _
  | none =>
    -- what is neither a field nor a property is not governed
    cases hp : s.classes.findProperty (classOf s r) name with
    | none => simp [hf, hp] at hd
    | some found =>
      obtain ⟨owner, p⟩ := found
      obtain rfl : ⟨owner, p.visibility, false⟩ = d := by simpa [hf, hp] using hd
      exact bind_of_stop (requireMember_of_outside hout) _

/-- What governs a call is the method that the call finds. -/
theorem findMethod_of_governing {cls : Ref .classDef} {isStatic : Bool} {d : Declared}
    (hd : governing?.method s name isStatic cls = some d) :
    ∃ m, s.classes.findMethod cls name = some (d.owner, m) ∧ m.isStatic = isStatic ∧
      d.visibility = m.visibility ∧ d.isMethod = true := by
  unfold governing?.method at hd
  -- a method of the other kind does not govern the call
  cases hm : s.classes.findMethod cls name with
  | none => simp [hm] at hd
  | some found =>
    obtain ⟨owner, m⟩ := found
    obtain ⟨hstatic, rfl⟩ : m.isStatic = isStatic ∧ ⟨owner, m.visibility, true⟩ = d := by
      simpa [hm] using hd
    exact ⟨m, rfl, hstatic, rfl, rfl⟩

/-- A method that is not visible is not called. -/
theorem invoke_of_outside {r : Ref .object} {args : List Value} {d : Declared}
    (hd : (call r args).governing? s name = some d)
    (hout : Outside s scope d.owner d.visibility) :
    Object.invoke E scope r name args span s =
      .stop (.fault ⟨d.refusal name s.classes, span⟩) s := by
  obtain ⟨m, hm, hstatic, hv, hmethod⟩ := findMethod_of_governing hd
  unfold Object.invoke
  simp only [Eval.classOf, gets_bind_apply, hm, hstatic]
  rw [Declared.refusal, hmethod]
  exact bind_of_stop (requireMethod_of_outside (hv ▸ hout)) _

/-- Nor is a static one. -/
theorem invokeStatic_of_outside {cls : Ref .classDef} {args : List Value} {d : Declared}
    (hd : (callStatic cls args).governing? s name = some d)
    (hout : Outside s scope d.owner d.visibility) :
    Object.invokeStatic E scope cls name args span s =
      .stop (.fault ⟨d.refusal name s.classes, span⟩) s := by
  obtain ⟨m, hm, hstatic, hv, hmethod⟩ := findMethod_of_governing hd
  unfold Object.invokeStatic
  simp only [gets_bind_apply, hm, hstatic]
  rw [Declared.refusal, hmethod]
  exact bind_of_stop (requireMethod_of_outside (hv ▸ hout)) _

/-- Nor is an inherited one. -/
theorem invokeInherited_of_outside {current : Ref .classDef} {receiver : Option Value}
    {args : List Value} {d : Declared}
    (hd : (callSuper current receiver args).governing? s name = some d)
    (hout : Outside s scope d.owner d.visibility) :
    invokeInherited E scope current receiver name args span s =
      .stop (.fault ⟨d.refusal name s.classes, span⟩) s := by
  -- what is inherited is found above the class that calls
  obtain ⟨⟨owner, m⟩, hm, rfl⟩ := Option.map_eq_some_iff.mp hd
  unfold invokeInherited
  simp only [gets_bind_apply, hm]
  exact bind_of_stop (requireMethod_of_outside hout) _

/-- The class that holds a static field decides on reading and on writing it. -/
theorem static_of_outside {cls : Ref .classDef} {v : Value} {d : Declared}
    (hd : governing?.static s name cls = some d) (hout : Outside s scope d.owner d.visibility) :
    Object.getStatic scope cls name span s =
      .stop (.fault ⟨d.refusal name s.classes, span⟩) s ∧
    Object.setStatic scope cls name v span s =
      .stop (.fault ⟨d.refusal name s.classes, span⟩) s := by
  obtain ⟨⟨holder, w⟩, hfound, rfl⟩ := Option.map_eq_some_iff.mp hd
  -- the same class is asked in both cases
  constructor
  · unfold Object.getStatic
    simp only [gets_bind_apply, hfound]
    exact bind_of_stop (requireMember_of_outside hout) _
  · unfold Object.setStatic
    simp only [gets_bind_apply, hfound]
    exact bind_of_stop (requireMember_of_outside hout) _

/-- **What is not visible is not used.** If a private or protected declaration governs a use, and
the code that runs is of no class that may, the use ends with the fault of its kind at its place,
in the state it began in. -/
theorem run_of_outside {use : Use} {d : Declared} (hd : use.governing? s name = some d)
    (hout : Outside s scope d.owner d.visibility) :
    use.run E scope name span s = .stop (.fault ⟨d.refusal name s.classes, span⟩) s := by
  -- one case for each use, and its own lemma for it
  cases use with
  | read r => exact bind_of_stop (get_of_outside hd hout) _
  | write r v => exact set_of_outside hd hout
  | call r args => exact bind_of_stop (invoke_of_outside hd hout) _
  | readStatic cls => exact bind_of_stop (static_of_outside (v := .nil) hd hout).1 _
  | writeStatic cls v => exact (static_of_outside hd hout).2
  | callStatic cls args => exact bind_of_stop (invokeStatic_of_outside hd hout) _
  | callSuper current receiver args => exact bind_of_stop (invokeInherited_of_outside hd hout) _

/-- A host's state with an object of a class `Vault`, whose private field `open` holds a function
that answers 42. -/
def vault : State :=
  let s := State.initial ⟨.empty, .default, none, .empty, false, 0, 0⟩
  let answer : Stmt := .mk (.return (some (.mk (.int 42) .unknown))) .unknown
  let cls : ClassDef :=
    { ClassTable.bare "Vault" .normal none with
      parent := some ClassTable.base, fields := [⟨"open", .isPrivate, none⟩] }
  { s with
    classes := (s.classes.add cls).2
    heap := { s.heap with
      closures := ⟨#[⟨"open", [], [answer], State.root, .unknown, .value⟩]⟩
      objects := ⟨#[⟨⟨4⟩, Assoc.empty.insert "open" (.function ⟨0⟩)⟩]⟩ } }

/-- Code outside of all classes does not read the field. -/
theorem run_of_outside_vault :
    (read ⟨0⟩).governing? vault "open" = some ⟨⟨4⟩, .isPrivate, false⟩ ∧
    Outside vault State.root ⟨4⟩ .isPrivate ∧
    (read ⟨0⟩).run (.level 3) State.root "open" .unknown vault =
      .stop (.fault ⟨.memberPrivate "open" "Vault", .unknown⟩) vault := by
  have hd : (read ⟨0⟩).governing? vault "open" = some ⟨⟨4⟩, .isPrivate, false⟩ := rfl
  have hout : Outside vault State.root ⟨4⟩ .isPrivate := nofun
  exact ⟨hd, hout, run_of_outside hd hout⟩

/-- **A private field that holds a function is called from outside.** The field is declared private
and the code is of no class; reading the field would be refused, but calling it by name as if it
were a method runs the function. -/
theorem run_call_field :
    vault.classes.findField ⟨4⟩ "open" = some (⟨4⟩, .isPrivate) ∧
    Outside vault State.root ⟨4⟩ .isPrivate ∧
    ∃ t, Dispatch.invoke (.level 4) State.root (.object ⟨0⟩) "open" [] .unknown vault =
      .done (.int 42) t :=
  ⟨rfl, nofun, _, rfl⟩

end Use

end ScriptEngine
