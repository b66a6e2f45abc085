import ScriptEngine.Eval.Engine
import ScriptEngine.Proofs.Classes.Chains

/-!
# Lawful states

A state is *lawful* if its classes are sound and every object has a class, with no fields but those
that the chain of its class declares (`State.Lawful`). What a step may do to classes, objects and
functions is said once (`ClassStep`): declare a class that is admitted, write to a static field,
make an object without fields, write to a field that is declared, make a function. Such a step leads
from lawful states to lawful ones (`ClassStep.lawful`), and whatever is there stays: classes with
their members, objects with their class and the fields they have got, functions (`State.Onward`).

So what has been found out about classes and objects can be relied on later, whatever has happened
meanwhile. A `Knowledge` is a fact of this kind about states, and `Knowledge.after` is what is known
once a computation that does not wait has answered. `Admitted` says which calls are let in: those of
functions, of accessors, and of methods whose annotations are upheld by the arguments.
-/

namespace ScriptEngine

/-! ### States -/

/-- The classes are sound, an object has no fields but those declared along the chain of its class,
and the functions that are values were written as such. -/
structure State.Lawful (s : State) : Prop where
  classes : s.classes.Sound
  isSome_class : ∀ {r o}, s.heap.objects.get? r = some o → (s.classes.class? o.cls).isSome
  declared : ∀ {r o name}, s.heap.objects.get? r = some o → o.fields.contains name = true →
    name ∈ s.classes.fieldNames o.cls
  functions : ∀ {r f}, s.heap.closures.get? r = some f → f.origin = .value

/-- The object is of the class. -/
def State.IsOf (s : State) (r : Ref .object) (cls : Ref .classDef) : Prop :=
  ∃ o, s.heap.objects.get? r = some o ∧ o.cls = cls

/-- An object is of one class only. -/
theorem State.IsOf.eq {s : State} {r : Ref .object} {cls cls' : Ref .classDef} (h : s.IsOf r cls)
    (h' : s.IsOf r cls') : cls = cls' := by
  obtain ⟨o, ho, rfl⟩ := h
  obtain ⟨o', ho', rfl⟩ := h'
  rw [Option.some.inj (ho.symm.trans ho')]

/-- The object has the field. -/
def State.HasField (s : State) (r : Ref .object) (name : String) : Prop :=
  ∃ o, s.heap.objects.get? r = some o ∧ o.fields.contains name = true

/-- What is there in `s` is there in `t`: classes with their members, objects with their class and
the fields they have got, functions. -/
structure State.Onward (s t : State) : Prop where
  classes : s.classes.Extends t.classes
  isOf : ∀ {r cls}, s.IsOf r cls → t.IsOf r cls
  hasField : ∀ {r name}, s.HasField r name → t.HasField r name
  closures : ∀ {r f}, s.heap.closures.get? r = some f → t.heap.closures.get? r = some f

/-- What a step may do to classes, objects and functions. -/
inductive ClassStep : State → State → Prop
  | apart {s t : State} : t.classes = s.classes → t.heap.objects = s.heap.objects →
      t.heap.closures = s.heap.closures → ClassStep s t
  | newClosure {s t : State} {f : Closure} : f.origin = .value → t.classes = s.classes →
      t.heap.objects = s.heap.objects → t.heap.closures = (s.heap.closures.add f).2 →
      ClassStep s t
  | newClass {s t : State} {c : ClassDef} : s.classes.Admits c → t.classes = (s.classes.add c).2 →
      t.heap.objects = s.heap.objects → t.heap.closures = s.heap.closures → ClassStep s t
  | setStatic {s t : State} (r : Ref .classDef) (name : String) (v : Value) :
      t.classes = s.classes.setStatic r name v → t.heap.objects = s.heap.objects →
      t.heap.closures = s.heap.closures → ClassStep s t
  | newObject {s t : State} {cls : Ref .classDef} : (s.classes.class? cls).isSome →
      t.classes = s.classes → t.heap.objects = (s.heap.objects.add ⟨cls, .empty⟩).2 →
      t.heap.closures = s.heap.closures → ClassStep s t
  | setField {s t : State} {r : Ref .object} {name : String} (v : Value) :
      (∀ cls, s.IsOf r cls → name ∈ s.classes.fieldNames cls) → t.classes = s.classes →
      t.heap.objects =
        s.heap.objects.modify r (fun o => { o with fields := o.fields.insert name v }) →
      t.heap.closures = s.heap.closures → ClassStep s t

variable {s t u : State}

/-! ### Fields of an object -/

/-- A field that is written to is there. -/
theorem Assoc.contains_insert_self {m : Assoc String Value} {name : String} (v : Value) :
    (m.insert name v).contains name = true := by
  rw [contains, get?_insert_self]
  rfl

/-- A field that is written to is there, and the others are those that were there. -/
theorem Assoc.contains_insert_iff {m : Assoc String Value} {name other : String} {v : Value} :
    (m.insert name v).contains other = true ↔ other = name ∨ m.contains other = true := by
  by_cases h : other = name
  · subst h
    simp [contains_insert_self]
  · simp [contains, get?_insert_of_ne m h, h]

namespace State.Onward

/-- Nothing has changed. -/
theorem refl (s : State) : s.Onward s := ⟨.refl _, id, id, id⟩

/-- What is there after one stretch is there after the next. -/
theorem trans (h : s.Onward t) (h' : t.Onward u) : s.Onward u :=
  ⟨h.classes.trans h'.classes, h'.isOf ∘ h.isOf, h'.hasField ∘ h.hasField,
    h'.closures ∘ h.closures⟩

/-- Objects are left alone. -/
theorem of_objects (hclasses : s.classes.Extends t.classes)
    (hobjects : t.heap.objects = s.heap.objects)
    (hclosures : ∀ {r f}, s.heap.closures.get? r = some f → t.heap.closures.get? r = some f) :
    s.Onward t := by
  refine ⟨hclasses, fun h => ?_, fun h => ?_, hclosures⟩
  · simpa only [IsOf, hobjects] using h
  · simpa only [HasField, hobjects] using h

end State.Onward

namespace ClassStep

/-- **Whatever is there stays.** -/
theorem onward (h : ClassStep s t) : s.Onward t := by
  cases h with
  -- where objects are left alone it is enough that classes are extended and functions kept
  | apart hclasses hobjects hclosures =>
    exact .of_objects (hclasses ▸ .refl _) hobjects fun hf => hclosures ▸ hf
  | newClosure _ hclasses hobjects hclosures =>
    exact .of_objects (hclasses ▸ .refl _) hobjects
      fun hf => hclosures ▸ Table.get?_add_of_some _ _ hf
  | newClass _ hclasses hobjects hclosures =>
    exact .of_objects (hclasses ▸ ClassTable.extends_add _ _) hobjects fun hf => hclosures ▸ hf
  | setStatic r name v hclasses hobjects hclosures =>
    exact .of_objects (hclasses ▸ ClassTable.extends_setStatic _ _ _ _) hobjects
      fun hf => hclosures ▸ hf
  | newObject _ hclasses hobjects hclosures =>
    -- a new object takes a new place, so the old ones are read as before
    refine ⟨hclasses ▸ .refl _, fun ⟨o, ho, hcls⟩ => ?_, fun ⟨o, ho, hname⟩ => ?_, fun h => ?_⟩
    · exact ⟨o, hobjects ▸ Table.get?_add_of_some _ _ ho, hcls⟩
    · exact ⟨o, hobjects ▸ Table.get?_add_of_some _ _ ho, hname⟩
    · exact hclosures ▸ h
  | @setField r name v _ hclasses hobjects hclosures =>
    -- the object written to keeps its class and gains at most a field; the others are untouched
    have hkept : ∀ {q o}, s.heap.objects.get? q = some o → ∃ o', t.heap.objects.get? q = some o' ∧
        o'.cls = o.cls ∧
        ∀ {other}, o.fields.contains other = true → o'.fields.contains other = true := by
      intro q o ho
      obtain ⟨o', ho', rfl | rfl⟩ := Table.exists_get?_modify s.heap.objects o _ ho
      · exact ⟨o', hobjects ▸ ho', rfl, id⟩
      · exact ⟨{ o with fields := o.fields.insert name v }, hobjects ▸ ho', rfl,
          fun hother => Assoc.contains_insert_iff.mpr (.inr hother)⟩
    refine ⟨hclasses ▸ .refl _, fun ⟨o, ho, hcls⟩ => ?_, fun ⟨o, ho, hother⟩ => ?_, fun h => ?_⟩
    · obtain ⟨o', ho', hcls', -⟩ := hkept ho
      exact ⟨o', ho', hcls'.trans hcls⟩
    · obtain ⟨o', ho', -, hfields⟩ := hkept ho
      exact ⟨o', ho', hfields hother⟩
    · exact hclosures ▸ h

/-- **A step leads from a lawful state to a lawful one.** -/
theorem lawful (h : ClassStep s t) (hs : s.Lawful) : t.Lawful := by
  -- most steps leave functions alone
  have functions (hclosures : t.heap.closures = s.heap.closures) {r : Ref .closure} {f : Closure}
      (hf : t.heap.closures.get? r = some f) : f.origin = .value :=
    hs.functions (hclosures ▸ hf)
  -- as long as objects are left alone, sound classes that extend the old ones are all it takes
  have of_objects : t.classes.Sound → t.heap.objects = s.heap.objects →
      (∀ {r f}, t.heap.closures.get? r = some f → f.origin = .value) → t.Lawful := by
    intro hsound hobjects hfunctions
    have hext : s.classes.Extends t.classes := h.onward.classes
    refine ⟨hsound, fun ho => ?_, fun ho hname => ?_, hfunctions⟩
    all_goals rw [hobjects] at ho
    · exact hext.isSome (hs.isSome_class ho)
    · exact (hext.mem_fieldNames_iff hs.classes (hs.isSome_class ho)).mpr (hs.declared ho hname)
  cases h with
  | apart hclasses hobjects hclosures =>
    exact of_objects (hclasses ▸ hs.classes) hobjects (functions hclosures)
  | newClosure hvalue hclasses hobjects hclosures =>
    refine of_objects (hclasses ▸ hs.classes) hobjects fun hf => ?_
    rw [hclosures] at hf
    obtain hf | ⟨-, rfl⟩ := Table.eq_of_get?_add _ _ hf
    · exact hs.functions hf
    · exact hvalue
  | newClass hadmits hclasses hobjects hclosures =>
    exact of_objects (hclasses ▸ hs.classes.add hadmits) hobjects (functions hclosures)
  | setStatic r name v hclasses hobjects hclosures =>
    exact of_objects (hclasses ▸ hs.classes.setStatic r name v) hobjects (functions hclosures)
  | newObject hsome hclasses hobjects hclosures =>
    refine ⟨hclasses ▸ hs.classes, fun ho => ?_, fun ho hname => ?_, functions hclosures⟩
    all_goals rw [hclasses]; rw [hobjects] at ho
    -- the object is an old one, or the new one, whose class is there
    · obtain ho | ⟨-, rfl⟩ := Table.eq_of_get?_add _ _ ho
      · exact hs.isSome_class ho
      · exact hsome
    -- the new object has no fields, so none that is not declared
    · obtain ho | ⟨-, rfl⟩ := Table.eq_of_get?_add _ _ ho
      · exact hs.declared ho hname
      · exact nomatch hname
  | @setField r name v hdeclared hclasses hobjects hclosures =>
    refine ⟨hclasses ▸ hs.classes, fun ho => ?_, fun ho hname => ?_, functions hclosures⟩
    all_goals
      rw [hclasses]
      rw [hobjects] at ho
    -- an object of the new state is one of the old state, perhaps with the field written to
    · obtain ho | ⟨-, o', ho', rfl⟩ := Table.eq_of_get?_modify _ ho
      · exact hs.isSome_class ho
      · exact hs.isSome_class (o := o') ho'
    · obtain ho | ⟨rfl, o', ho', rfl⟩ := Table.eq_of_get?_modify _ ho
      · exact hs.declared ho hname
      · obtain rfl | hname := Assoc.contains_insert_iff.mp hname
        -- the field just written to is declared along the chain by the guard of the step
        · exact hdeclared o'.cls ⟨o', ho', rfl⟩
        · exact hs.declared (o := o') ho' hname

end ClassStep

/-! ### Knowledge -/

/-- A fact about classes, objects and functions that lasts. -/
structure Knowledge where
  holds : State → Prop
  lasts : ∀ {s t}, holds s → s.Onward t → holds t

namespace Knowledge

/-- Nothing is known. -/
def nothing : Knowledge := ⟨fun _ => True, fun _ _ => trivial⟩

/-- What is known once a computation has answered: what was known before, and that it has answered
so in a lawful state. -/
def after {α : Type} (K : Knowledge) (m : Eval α) (a : α) : Knowledge where
  holds t := K.holds t ∧ ∃ s u, s.Lawful ∧ K.holds s ∧ m s = .done a u ∧ u.Lawful ∧ u.Onward t
  lasts := fun ⟨hK, s, u, hs, hKs, hm, hu, hut⟩ h =>
    ⟨K.lasts hK h, s, u, hs, hKs, hm, hu, hut.trans h⟩

/-- What has been read is known to have been there. -/
theorem after_gets {α : Type} {K : Knowledge} {f : State → α} {a : α}
    (h : (K.after (Eval.gets f) a).holds t) :
    K.holds t ∧ ∃ s, s.Lawful ∧ K.holds s ∧ f s = a ∧ s.Onward t := by
  obtain ⟨hK, s, u, hs, hKs, hm, -, hut⟩ := h
  cases hm
  exact ⟨hK, s, hs, hKs, rfl, hut⟩

/-- A table of classes that has been read is sound, and its classes are there still. -/
theorem after_classes {K : Knowledge} {classes : ClassTable}
    (h : (K.after (Eval.gets (·.classes)) classes).holds t) :
    classes.Sound ∧ classes.Extends t.classes := by
  obtain ⟨-, s, hs, -, rfl, hst⟩ := after_gets h
  exact ⟨hs.classes, hst.classes⟩

end Knowledge

namespace Eval

variable {α β : Type}

/-- The computation does not wait. -/
def Immediate (m : Eval α) : Prop := ∀ s, (∃ a t, m s = .done a t) ∨ ∃ why t, m s = .stop why t

namespace Immediate

/-- An answer that is at hand. -/
theorem pure (a : α) : Immediate (Pure.pure a : Eval α) := fun s => .inl ⟨a, s, rfl⟩

/-- A failure comes at once. -/
theorem fail (cause : Cause) (span : Span) : Immediate (Eval.fail cause span : Eval α) :=
  fun s => .inr ⟨_, s, rfl⟩

/-- Reading the state. -/
theorem gets (f : State → α) : Immediate (Eval.gets f) := fun s => .inl ⟨f s, s, rfl⟩

/-- Changing the state in one go. -/
theorem modifyGet (f : State → α × State) : Immediate (Eval.modifyGet f) :=
  fun s => .inl ⟨(f s).1, (f s).2, rfl⟩

/-- A lookup answers or fails at once. -/
theorem ofOption (o : Option α) (cause : Cause) (span : Span) :
    Immediate (Eval.ofOption o cause span) := by
  cases o with
  | none => exact fail cause span
  | some a => exact pure a

/-- One after the other, whatever the first one answers. -/
theorem bind {m : Eval α} {f : α → Eval β} (hm : Immediate m) (hf : ∀ a, Immediate (f a)) :
    Immediate (m >>= f) := by
  intro s
  -- a computation that is immediate goes on where the first one answered
  rw [bind_apply]
  obtain ⟨a, t, h⟩ | ⟨why, t, h⟩ := hm s
  · rw [h]
    exact hf a t
  · rw [h]
    exact .inr ⟨why, t, rfl⟩

/-- Over a list, by induction on it. -/
theorem mapList {f : α → Eval β} (hf : ∀ a, Immediate (f a)) :
    ∀ as, Immediate (Eval.mapList f as)
  | [] => pure []
  | a :: rest => bind (hf a) fun _ => bind (mapList hf rest) fun _ => pure _

end Immediate

end Eval

/-! ### Calls that are let in -/

namespace ClassTable

/-- The class declares the method. -/
def HasMethod (t : ClassTable) (owner : Ref .classDef) (m : MethodDef) : Prop :=
  ∃ c, t.class? owner = some c ∧ c.methods.get? m.closure.name = some m

/-- The function is a getter or a setter of the class. -/
inductive HasAccessor (t : ClassTable) (owner : Ref .classDef) (f : Closure) : Prop
  | getter {c : ClassDef} {name : String} {p : PropertyDef} : t.class? owner = some c →
      c.properties.get? name = some p → p.getter = some f → HasAccessor t owner f
  | setter {c : ClassDef} {name : String} {p : PropertyDef} : t.class? owner = some c →
      c.properties.get? name = some p → p.setter = some f → HasAccessor t owner f
  | indexGetter {c : ClassDef} {i : IndexerDef} : t.class? owner = some c →
      c.indexer = some i → i.getter = some f → HasAccessor t owner f
  | indexSetter {c : ClassDef} {i : IndexerDef} : t.class? owner = some c →
      c.indexer = some i → i.setter = some f → HasAccessor t owner f

/-- A strict ancestor of the class defines a method of the name. -/
def Overrides (t : ClassTable) (owner : Ref .classDef) (name : String) : Prop :=
  ∃ c up q d, t.class? owner = some c ∧ c.parent = some up ∧ t.Descends up q ∧
    t.class? q = some d ∧ (d.methods.get? name).isSome

end ClassTable

/-- A call of the method `f` of the class `owner` does what the annotation `marking` asks for, if
this is a built-in one or descends from it. -/
structure Upheld (s : State) (owner : Ref .classDef) (f : Closure) (args : List Value)
    (marking : Ref .classDef) : Prop where
  overrides : s.classes.Descends marking (ClassTable.marking .overrides) →
    s.classes.Overrides owner f.name
  notNull : s.classes.Descends marking (ClassTable.marking .notNull) →
    ∀ v ∈ args, v.isNil = false
  notEmpty : s.classes.Descends marking (ClassTable.marking .notEmpty) →
    ∀ v ∈ args, s.itemCount? v ≠ some 0

/-- The calls that are let in. -/
inductive Admitted (s : State) (f : Closure) (args : List Value) : Binding → Prop
  /-- A function that is a value. -/
  | function {r : Ref .closure} : s.heap.closures.get? r = some f → Admitted s f args .none
  /-- A getter or a setter of a class. -/
  | accessor {receiver : Option Value} {owner : Ref .classDef} : s.classes.HasAccessor owner f →
      Admitted s f args ⟨receiver, some owner⟩
  /-- A method of a class, with arguments that uphold its annotations. -/
  | method {receiver : Option Value} {owner : Ref .classDef} {m : MethodDef} : m.closure = f →
      s.classes.HasMethod owner m → (∀ a ∈ m.annotations, Upheld s owner f args a) →
      Admitted s f args ⟨receiver, some owner⟩

namespace ClassTable

variable {t u : ClassTable} {owner : Ref .classDef}

/-- A method that is declared stays declared. -/
theorem HasMethod.of_extends {m : MethodDef} (h : t.HasMethod owner m) (hext : t.Extends u) :
    u.HasMethod owner m := by
  obtain ⟨c, hc, hm⟩ := h
  -- an extension keeps the class but for what its static fields hold
  obtain ⟨_, hd, statics, rfl⟩ := hext owner c hc
  exact ⟨_, hd, hm⟩

/-- So does a getter or a setter. -/
theorem HasAccessor.of_extends {f : Closure} (h : t.HasAccessor owner f) (hext : t.Extends u) :
    u.HasAccessor owner f := by
  cases h with
  | getter hc hp hf =>
    obtain ⟨_, hd, statics, rfl⟩ := hext owner _ hc
    exact .getter hd hp hf
  | setter hc hp hf =>
    obtain ⟨_, hd, statics, rfl⟩ := hext owner _ hc
    exact .setter hd hp hf
  | indexGetter hc hi hf =>
    obtain ⟨_, hd, statics, rfl⟩ := hext owner _ hc
    exact .indexGetter hd hi hf
  | indexSetter hc hi hf =>
    obtain ⟨_, hd, statics, rfl⟩ := hext owner _ hc
    exact .indexSetter hd hi hf

/-- A method that is found is one that its class declares. -/
theorem Sound.hasMethod_of_findMethod (h : t.Sound) {r : Ref .classDef} {name : String}
    {m : MethodDef} (hfound : t.findMethod r name = some (owner, m)) : t.HasMethod owner m := by
  -- what is found along a chain is found in one class of it
  obtain ⟨⟨q, c⟩, hmem, rfl, hm⟩ := exists_of_findAlong hfound
  have hc : t.class? q = some c := class?_of_mem_chainWithin hmem
  refine ⟨c, hc, ?_⟩
  -- the method is filed under its own name, as the classes are sound
  rw [h.methods hc hm]
  exact hm

/-- So is one found above the class. -/
theorem Sound.hasMethod_of_findInherited (h : t.Sound) {r : Ref .classDef} {name : String}
    {m : MethodDef} (hfound : t.findInherited r name = some (owner, m)) :
    t.HasMethod owner m := by
  unfold findInherited at hfound
  -- only a class with a parent has anything to inherit
  split at hfound
  · exact h.hasMethod_of_findMethod hfound
  · exact nomatch hfound

/-- The getter and the setter of a property that is found are accessors of the class it was found
in. -/
theorem hasAccessor_of_findProperty {r : Ref .classDef} {name : String} {p : PropertyDef}
    (hfound : t.findProperty r name = some (owner, p)) {f : Closure} :
    (p.getter = some f → t.HasAccessor owner f) ∧ (p.setter = some f → t.HasAccessor owner f) := by
  obtain ⟨⟨q, c⟩, hmem, rfl, hp⟩ := exists_of_findAlong hfound
  have hc : t.class? q = some c := class?_of_mem_chainWithin hmem
  exact ⟨.getter hc hp, .setter hc hp⟩

/-- So are those of an indexer. -/
theorem hasAccessor_of_findIndexer {r : Ref .classDef} {i : IndexerDef}
    (hfound : t.findIndexer r = some (owner, i)) {f : Closure} :
    (i.getter = some f → t.HasAccessor owner f) ∧ (i.setter = some f → t.HasAccessor owner f) := by
  obtain ⟨⟨q, c⟩, hmem, rfl, hi⟩ := exists_of_findAlong hfound
  have hc : t.class? q = some c := class?_of_mem_chainWithin hmem
  exact ⟨.indexGetter hc hi, .indexSetter hc hi⟩

end ClassTable

end ScriptEngine
