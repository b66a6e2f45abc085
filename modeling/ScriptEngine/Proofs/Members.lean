import ScriptEngine.Proofs.Visibility

/-!
# Which declaration a member name means

A name can be declared by several classes of a chain, and in several ways: as a field, as a property
or as a method. One would like the most derived class that declares it to decide
(`ClassTable.nearest?`, one walk along the chain). What decides is `ClassTable.resolved?`: there is
one walk for each kind, and the kinds are tried in a fixed order, so a field of the root comes
before a property of the object's own class. Reading and writing a member use the declaration that
is resolved (`getMember_eq`, `setMember_eq`).

The walks agree on the nearest declaration exactly if none of an earlier kind is on the chain, and,
for a method, no static method of the name stands nearer (`ClassTable.resolved?_eq_nearest?_iff`).
-/

namespace ScriptEngine

/-- A declaration of an instance member. -/
inductive Member where
  | field (visibility : Visibility)
  | property (p : PropertyDef)
  | method (m : MethodDef)

/-- The place of its kind in the order in which kinds are tried. -/
def Member.rank : Member → Nat
  | field _ => 0
  | property _ => 1
  | method _ => 2

namespace ClassDef

/-- The visibility of a field that the class itself declares. -/
def field? (c : ClassDef) (name : String) : Option Visibility :=
  (c.fields.find? (·.name == name)).map (·.visibility)

/-- What the class itself declares under a name. Its fields come before its properties, and these
before its methods. Static methods are no members of objects. -/
def member? (c : ClassDef) (name : String) : Option Member :=
  match c.field? name with
  | some visibility => some (.field visibility)
  | none =>
    match c.properties.get? name with
    | some p => some (.property p)
    | none => ((c.methods.get? name).filter (!·.isStatic)).map .method

variable {c : ClassDef} {name : String}

/-- What a class declares is a field if it has a field of the name. -/
theorem member?_eq_field {visibility : Visibility} :
    c.member? name = some (.field visibility) ↔ c.field? name = some visibility := by
  unfold member?
  cases c.field? name with
  | some _ => simp
  | none => cases c.properties.get? name <;> simp

/-- It is a property if there is no field. -/
theorem member?_eq_property {p : PropertyDef} :
    c.member? name = some (.property p) ↔
      c.field? name = none ∧ c.properties.get? name = some p := by
  unfold member?
  cases c.field? name with
  | some _ => simp
  | none => cases c.properties.get? name <;> simp

/-- It is a method if there is neither, and the method is not static. -/
theorem member?_eq_method {m : MethodDef} :
    c.member? name = some (.method m) ↔
      c.field? name = none ∧ c.properties.get? name = none ∧ c.methods.get? name = some m ∧
        m.isStatic = false := by
  unfold member?
  cases c.field? name with
  | some _ => simp
  | none => cases c.properties.get? name <;> simp

/-- It is nothing if only a static method has the name. -/
theorem member?_eq_none :
    c.member? name = none ↔
      c.field? name = none ∧ c.properties.get? name = none ∧
        ∀ m, c.methods.get? name = some m → m.isStatic = true := by
  unfold member?
  cases c.field? name with
  | some _ => simp
  | none => cases c.properties.get? name <;> simp

end ClassDef

namespace ClassTable

variable {t : ClassTable} {r owner : Ref .classDef} {name : String} {d : Member}

/-! ### Walks along a chain -/

section

variable {α β : Type} {f : ClassDef → Option α} {g : ClassDef → Option β} {a : α} {b : β}

/-- **Two walks along one chain.** Where the first one answers the second one does, too; if it has
not answered before, in a class that is silent for the first one. -/
theorem findAlong_of_first (h : t.findAlong r f = some (owner, a))
    (hg : ∀ c, f c = some a → g c = some b) :
    t.findAlong r g = some (owner, b) ∨
      ∃ p ∈ t.chain r, f p.2 = none ∧ ∃ b', g p.2 = some b' ∧ t.findAlong r g = some (p.1, b') := by
  -- the first walk passes by the classes that are nearer, and ends at `c`
  obtain ⟨nearer, ⟨owner', c⟩, farther, hchain, hfound, hnearer⟩ := List.findSome?_eq_some_iff.mp h
  obtain ⟨_, hf, heq⟩ := Option.map_eq_some_iff.mp hfound
  cases heq
  unfold findAlong
  rw [hchain, List.findSome?_append]
  -- the second walk may have answered before
  generalize hbefore : nearer.findSome? _ = before
  cases before with
  | none =>
    left
    simp [hg c hf]
  | some found =>
    obtain ⟨p, hp, hfoundp⟩ := List.exists_of_findSome?_eq_some hbefore
    obtain ⟨b', hb', rfl⟩ := Option.map_eq_some_iff.mp hfoundp
    have hsilent : f p.2 = none := by simpa using hnearer p hp
    exact .inr ⟨p, List.mem_append_left _ hp, hsilent, b', hb', rfl⟩

end

/-! ### The nearest declaration and the one that is used -/

/-- What the most derived class declares that declares the name, with this class. -/
def nearest? (t : ClassTable) (r : Ref .classDef) (name : String) :
    Option (Ref .classDef × Member) :=
  t.findAlong r (·.member? name)

/-- What is used for a name, with its class: fields are looked for first, then properties, then
methods, each along the whole chain. -/
def resolved? (t : ClassTable) (r : Ref .classDef) (name : String) :
    Option (Ref .classDef × Member) :=
  match t.findField r name with
  | some (owner, visibility) => some (owner, .field visibility)
  | none =>
    match t.findProperty r name with
    | some (owner, p) => some (owner, .property p)
    | none =>
      match t.findMethod r name with
      | some (owner, m) => if m.isStatic then none else some (owner, .method m)
      | none => none

/-- How the nearest declaration can be passed over. -/
inductive Overtaken (t : ClassTable) (r : Ref .classDef) (name : String) : Member → Prop
  /-- A class of the chain declares the name in a kind that is tried earlier. -/
  | earlier {p : Ref .classDef × ClassDef} {d d' : Member} :
      p ∈ t.chain r → p.2.member? name = some d' → d'.rank < d.rank → Overtaken t r name d
  /-- A static method stands nearer than any other method. -/
  | hidden {m m' : MethodDef} {owner : Ref .classDef} :
      t.findMethod r name = some (owner, m') → m'.isStatic = true →
      Overtaken t r name (.method m)

variable {visibility : Visibility} {property : PropertyDef} {m : MethodDef}

/-- A field that is nearest is the first field on the chain. -/
theorem findField_of_nearest? (h : t.nearest? r name = some (owner, .field visibility)) :
    t.findField r name = some (owner, visibility) := by
  refine (findAlong_of_first h fun c => ClassDef.member?_eq_field.mp).resolve_right ?_
  -- a class without any declaration has no field that could be found before
  rintro ⟨p, -, hnone, _, hfield, -⟩
  exact nomatch (ClassDef.member?_eq_none.mp hnone).1.symm.trans hfield

/-- A property that is nearest is the first property on the chain. -/
theorem findProperty_of_nearest? (h : t.nearest? r name = some (owner, .property property)) :
    t.findProperty r name = some (owner, property) := by
  refine (findAlong_of_first h fun c hc => (ClassDef.member?_eq_property.mp hc).2).resolve_right ?_
  rintro ⟨p, -, hnone, _, hproperty, -⟩
  exact nomatch (ClassDef.member?_eq_none.mp hnone).2.1.symm.trans hproperty

/-- A walk that looks for methods can be stopped by a static one. -/
theorem findMethod_of_nearest? (h : t.nearest? r name = some (owner, .method m)) :
    t.findMethod r name = some (owner, m) ∨
      ∃ owner' m', t.findMethod r name = some (owner', m') ∧ m'.isStatic = true := by
  refine (findAlong_of_first h fun c hc => (ClassDef.member?_eq_method.mp hc).2.2.1).imp_right ?_
  -- a class without any declaration may still have a static method
  rintro ⟨p, -, hnone, m', hm', hfind⟩
  exact ⟨p.1, m', hfind, (ClassDef.member?_eq_none.mp hnone).2.2 m' hm'⟩

/-- A field that is found is what its class declares. -/
theorem exists_field (h : t.findField r name = some (owner, visibility)) :
    ∃ p ∈ t.chain r, p.2.member? name = some (.field visibility) := by
  obtain ⟨p, hp, -, hfield⟩ := exists_of_findAlong h
  exact ⟨p, hp, ClassDef.member?_eq_field.mpr hfield⟩

/-- If no field is found, no class of the chain has one. -/
theorem field?_of_findField_none (h : t.findField r name = none) {p : Ref .classDef × ClassDef}
    (hp : p ∈ t.chain r) : p.2.field? name = none :=
  findAlong_eq_none_iff.mp h p hp

/-- A property that is found is what its class declares, if there are no fields. -/
theorem exists_property (hf : t.findField r name = none)
    (h : t.findProperty r name = some (owner, property)) :
    ∃ p ∈ t.chain r, p.2.member? name = some (.property property) := by
  obtain ⟨p, hp, -, hproperty⟩ := exists_of_findAlong h
  exact ⟨p, hp, ClassDef.member?_eq_property.mpr ⟨field?_of_findField_none hf hp, hproperty⟩⟩

/-- Without fields on the chain no declaration is of an earlier kind than a property. -/
theorem one_le_rank (hf : t.findField r name = none) {p : Ref .classDef × ClassDef}
    (hp : p ∈ t.chain r) (hd : p.2.member? name = some d) : 1 ≤ d.rank := by
  cases d with
  | field v =>
    have hfield := ClassDef.member?_eq_field.mp hd
    exact nomatch (field?_of_findField_none hf hp).symm.trans hfield
  | property p => exact Nat.le_refl 1
  | method m => exact Nat.le_succ 1

/-- Without fields and properties there are only methods. -/
theorem two_le_rank (hf : t.findField r name = none) (hp : t.findProperty r name = none)
    {p : Ref .classDef × ClassDef} (hmem : p ∈ t.chain r) (hd : p.2.member? name = some d) :
    2 ≤ d.rank := by
  cases d with
  | field v => exact absurd (one_le_rank hf hmem hd) (Nat.not_succ_le_zero 0)
  | property q =>
    have hproperty := (ClassDef.member?_eq_property.mp hd).2
    exact nomatch (findAlong_eq_none_iff.mp hp p hmem).symm.trans hproperty
  | method m => exact Nat.le_refl 2

/-- **When the nearest declaration is used:** exactly if it is not overtaken. -/
theorem resolved?_eq_nearest?_iff (h : t.nearest? r name = some (owner, d)) :
    t.resolved? r name = some (owner, d) ↔ ¬Overtaken t r name d := by
  unfold resolved?
  cases d with
  | field v =>
    -- no kind is tried earlier
    rw [findField_of_nearest? h]
    refine iff_of_true rfl ?_
    rintro (⟨-, -, hlt⟩)
    exact Nat.not_lt_zero _ hlt
  -- only fields are tried earlier
  | property q =>
    cases hf : t.findField r name with
    | some found =>
      obtain ⟨p, hp, hd⟩ := exists_field hf
      -- such a field is found first, and overtakes the property
      exact iff_of_false nofun (not_not_intro (.earlier hp hd (Nat.lt_succ_self 0)))
    | none =>
      rw [findProperty_of_nearest? h]
      refine iff_of_true rfl ?_
      rintro (⟨hp, hd, hlt⟩)
      exact absurd hlt (Nat.not_lt.mpr (one_le_rank hf hp hd))
  -- fields and properties are tried earlier
  | method m =>
    cases hf : t.findField r name with
    | some found =>
      obtain ⟨p, hp, hd⟩ := exists_field hf
      exact iff_of_false nofun (not_not_intro (.earlier hp hd Nat.two_pos))
    | none =>
      cases hq : t.findProperty r name with
      | some found =>
        obtain ⟨p, hp, hd⟩ := exists_property hf hq
        exact iff_of_false nofun (not_not_intro (.earlier hp hd (Nat.lt_succ_self 1)))
      | none =>
        -- there are only methods, so it matters which one stands first
        obtain ⟨c, hc, -, hmember⟩ := exists_of_findAlong h
        have hm : m.isStatic = false := (ClassDef.member?_eq_method.mp hmember).2.2.2
        rcases findMethod_of_nearest? h with hfind | ⟨owner', m', hfind, hstatic⟩
        -- the walk for methods ends at the nearest method
        · rw [hfind]
          refine iff_of_true (if_neg (by simp [hm])) ?_
          rintro (⟨hp, hd, hlt⟩ | ⟨hfind', hstatic⟩)
          · exact absurd hlt (Nat.not_lt.mpr (two_le_rank hf hq hp hd))
          · cases hfind.symm.trans hfind'
            exact nomatch hm.symm.trans hstatic
        -- or at a static one, and then nothing is used
        · rw [hfind]
          refine iff_of_false ?_ (not_not_intro (.hidden hfind hstatic))
          simp [hstatic]

end ClassTable

open Eval Object

namespace Member

/-! ### Uses of members -/

/-- Reads a member as a class declares it. -/
def read (E : Engine) (scope : Ref .scope) (r : Ref .object) (name : String) (span : Span)
    (owner : Ref .classDef) : Member → Eval Value
  | field visibility => do
    requireMember scope owner visibility name span
    return (← field? r name).getD .nil
  | property p => do
    let classes ← gets (·.classes)
    requireMember scope owner p.visibility name span
    match p.getter with
    | some getter => Function.run E scope getter [] span ⟨some (.object r), some owner⟩
    | none => fail (.propertyUse name (classes.name owner)) span
  | method m => do
    requireMethod scope owner m.visibility name span
    newBound (.object r) name scope span

/-- Writes a member as a class declares it. Methods are not written. -/
def write (E : Engine) (scope : Ref .scope) (r : Ref .object) (name : String) (v : Value)
    (span : Span) (owner : Ref .classDef) : Member → Eval Unit
  | field visibility => do
    requireMember scope owner visibility name span
    setField r name v
  | property p => do
    let classes ← gets (·.classes)
    requireMember scope owner p.visibility name span
    match p.setter with
    | some setter => discard <| Function.run E scope setter [v] span ⟨some (.object r), some owner⟩
    | none => fail (.propertyUse name (classes.name owner)) span
  | method _ => do badMember name (← Eval.classOf r) span

/-- Reads a member by the declaration that is used, if there is one. -/
def readBy (E : Engine) (scope : Ref .scope) (r : Ref .object) (name : String) (span : Span) :
    Option (Ref .classDef × Member) → Eval Value
  | some (owner, d) => d.read E scope r name span owner
  | none => do badMember name (← Eval.classOf r) span

/-- Writes a member by the declaration that is used, if there is one. -/
def writeBy (E : Engine) (scope : Ref .scope) (r : Ref .object) (name : String) (v : Value)
    (span : Span) : Option (Ref .classDef × Member) → Eval Unit
  | some (owner, d) => d.write E scope r name v span owner
  | none => do badMember name (← Eval.classOf r) span

variable {s : State} {r : Ref .object} {owner : Ref .classDef} {name : String} {d : Member}

/-- The declaration that a program's use of a member means in a state. -/
def used? (s : State) (r : Ref .object) (name : String) : Option (Ref .classDef × Member) :=
  s.classes.resolved? (Use.classOf s r) name

/-- Reading a member goes by the declaration that is used. -/
theorem getMember_eq (E : Engine) (scope : Ref .scope) (span : Span) :
    Access.getMember E scope (.object r) name span s =
      readBy E scope r name span (used? s r name) s := by
  show Object.get E scope r name span s = _
  unfold Object.get used? ClassTable.resolved?
  simp only [Eval.classOf, gets_bind_apply]
  -- the kinds are tried in one order by both, so they agree in each case
  cases s.classes.findField (Use.classOf s r) name with
  | some found => rfl
  | none =>
    cases s.classes.findProperty (Use.classOf s r) name with
    | some found => rfl
    | none =>
      cases s.classes.findMethod (Use.classOf s r) name with
      | none => rfl
      | some found => cases hm : found.2.isStatic <;> simp only [hm] <;> rfl

/-- Writing a member goes by the same declaration. -/
theorem setMember_eq (E : Engine) (scope : Ref .scope) (v : Value) (span : Span) :
    Access.setMember E scope (.object r) name v span s =
      writeBy E scope r name v span (used? s r name) s := by
  show Object.set E scope r name v span s = _
  unfold Object.set used? ClassTable.resolved?
  simp only [Eval.classOf, gets_bind_apply]
  -- a method is found, but it is not written
  cases s.classes.findField (Use.classOf s r) name with
  | some found => rfl
  | none =>
    cases s.classes.findProperty (Use.classOf s r) name with
    | some found => rfl
    | none =>
      cases s.classes.findMethod (Use.classOf s r) name with
      | none => rfl
      | some found => cases hm : found.2.isStatic <;> simp only [hm] <;> rfl

/-- **Which declaration reading and writing a member use.** It is the nearest one on the chain of
the object's class exactly if this is not overtaken: if no class of the chain, however far, declares
the name in a kind that is tried earlier, and no static method hides it. -/
theorem uses_nearest_iff (hd : s.classes.nearest? (Use.classOf s r) name = some (owner, d)) :
    (∀ (E : Engine) (scope : Ref .scope) (span : Span),
      Access.getMember E scope (.object r) name span s =
        readBy E scope r name span (used? s r name) s) ∧
    (∀ (E : Engine) (scope : Ref .scope) (v : Value) (span : Span),
      Access.setMember E scope (.object r) name v span s =
        writeBy E scope r name v span (used? s r name) s) ∧
    (used? s r name = some (owner, d) ↔
      ¬s.classes.Overtaken (Use.classOf s r) name d) :=
  ⟨getMember_eq, setMember_eq, ClassTable.resolved?_eq_nearest?_iff hd⟩

/-- A getter or method without parameters that answers a number. -/
def answering (origin : Origin) (n : Int) : Closure :=
  let answer : Stmt := .mk (.return (some (.mk (.int (Int64.ofInt n)) .unknown))) .unknown
  ⟨"answer", [], [answer], State.root, .unknown, origin⟩

/-- A host's state with an object whose class and the parent of this class declare three names, in
different ways: the parent a field `size` and properties `kind` and `label`, the class a property
`size`, a method `kind` and a field `label`. The declarations of the parent have to do with 1, those
of the class with 2. -/
def family : State :=
  let s := State.initial ⟨.empty, .default, none, .empty, false, 0, 0⟩
  let one : PropertyDef := ⟨.isPublic, some (answering .accessor 1), none⟩
  let two : PropertyDef := ⟨.isPublic, some (answering .accessor 2), none⟩
  let parent : ClassDef :=
    { ClassTable.bare "Base" .normal none with
      parent := some ClassTable.base
      fields := [⟨"size", .isPublic, none⟩]
      properties := .ofList [("kind", one), ("label", one)] }
  let cls : ClassDef :=
    { ClassTable.bare "Derived" .normal none with
      parent := some ⟨4⟩
      fields := [⟨"label", .isPublic, none⟩]
      properties := .ofList [("size", two)]
      methods := .ofList [("kind", ⟨answering .method 2, .isPublic, false, []⟩)] }
  { s with
    classes := ((s.classes.add parent).2.add cls).2
    heap := { s.heap with
      objects := ⟨#[⟨⟨5⟩, .ofList [("size", .int 1), ("label", .int 2)]⟩]⟩ } }

/-- The field of the class is used, and not the property of its parent. -/
theorem uses_nearest_iff_family :
    family.classes.nearest? (Use.classOf family ⟨0⟩) "label" = some (⟨5⟩, .field .isPublic) ∧
    used? family ⟨0⟩ "label" = some (⟨5⟩, .field .isPublic) ∧
    Access.getMember .idle State.root (.object ⟨0⟩) "label" .unknown family =
      .done (.int 2) family := by
  have hd : family.classes.nearest? (Use.classOf family ⟨0⟩) "label" =
      some (⟨5⟩, .field .isPublic) := rfl
  obtain ⟨hread, -, hused⟩ := uses_nearest_iff hd
  -- a field is of the kind that is tried first
  have huses := hused.mpr fun h => by
    cases h with
    | earlier _ _ hlt => exact Nat.not_lt_zero _ hlt
  refine ⟨hd, huses, ?_⟩
  rw [hread, huses]
  rfl

/-- **A farther declaration is used.** The nearest declaration of `size` is the property of the
class, that of `kind` its method; read are the field and the property of the parent. Calling `kind`
finds the method of the class, though. -/
theorem uses_farther_family :
    (∃ d t, family.classes.nearest? (Use.classOf family ⟨0⟩) "size" = some (⟨5⟩, d) ∧
      d.read (.level 4) State.root ⟨0⟩ "size" .unknown ⟨5⟩ family = .done (.int 2) t ∧
      Access.getMember (.level 4) State.root (.object ⟨0⟩) "size" .unknown family =
        .done (.int 1) family) ∧
    ∃ d f t t' t'', family.classes.nearest? (Use.classOf family ⟨0⟩) "kind" = some (⟨5⟩, d) ∧
      d.read (.level 4) State.root ⟨0⟩ "kind" .unknown ⟨5⟩ family = .done f t ∧ f.isCallable = true ∧
      Access.getMember (.level 4) State.root (.object ⟨0⟩) "kind" .unknown family =
        .done (.int 1) t' ∧
      Dispatch.invoke (.level 4) State.root (.object ⟨0⟩) "kind" [] .unknown family =
        .done (.int 2) t'' :=
  ⟨⟨_, _, rfl, rfl, rfl⟩, _, _, _, _, _, rfl, rfl, rfl, rfl, rfl⟩

end Member

end ScriptEngine
