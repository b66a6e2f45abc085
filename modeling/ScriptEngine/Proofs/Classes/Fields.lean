import ScriptEngine.Proofs.Classes.Ancestors

/-!
# The fields of objects

An object starts without fields. `Object.create` gives it one after the other the fields that the
classes of its chain declare, from the root down; the values are computed by the program, which has
got hold of the object already. `Object.Filled` says how this goes: each value is computed and
stored before the next one is computed, and a value that cannot be computed is the end of it.

Whatever the program does meanwhile, fields are only written to that are declared, so in all states
the object has no others (`State.FieldsDeclared`). And a field that has been written to is there for
ever, so once the object is made it has got them all (`Object.complete_of_instantiate`).
-/

namespace ScriptEngine

open Eval

namespace State

/-- No object has a field that its class does not declare. -/
def FieldsDeclared (s : State) : Prop :=
  ∀ r cls name, s.IsOf r cls → s.HasField r name → name ∈ s.classes.fieldNames cls

/-- The object is of the class and has the fields that the classes of its chain declare, and no
others. -/
structure Complete (s : State) (r : Ref .object) (cls : Ref .classDef) : Prop where
  isOf : s.IsOf r cls
  hasField_iff : ∀ name, s.HasField r name ↔ name ∈ s.classes.fieldNames cls

/-- The reference of the next object. -/
def nextObject (s : State) : Ref .object := ⟨s.heap.objects.size⟩

/-- The state with a new object. -/
def withObject (s : State) (cls : Ref .classDef) : State :=
  { s with heap := { s.heap with objects := (s.heap.objects.add ⟨cls, .empty⟩).2 } }

/-- The state in which a field of an object has been written to. -/
def withField (s : State) (r : Ref .object) (name : String) (v : Value) : State :=
  { s with heap := { s.heap with
    objects := s.heap.objects.modify r fun o => { o with fields := o.fields.insert name v } } }

/-- The value of a field. -/
def field? (s : State) (r : Ref .object) (name : String) : Option Value :=
  (s.heap.objects.get? r).bind (·.fields.get? name)

variable {s t : State} {r : Ref .object} {cls : Ref .classDef} {name : String} {v : Value}

/-- In a lawful state no object has a field that its class does not declare. -/
theorem Lawful.fieldsDeclared (hs : s.Lawful) : s.FieldsDeclared := by
  rintro r cls name hof ⟨o, ho, hname⟩
  -- an object has one class only, which is the one that declares the field
  obtain rfl := hof.eq ⟨o, ho, rfl⟩
  exact hs.declared ho hname

/-- There is no object yet under the next reference. -/
theorem get?_nextObject (s : State) : s.heap.objects.get? s.nextObject = none := by
  simp [Table.get?, nextObject, Table.size]

/-- The new object is of its class. -/
theorem isOf_withObject (s : State) (cls : Ref .classDef) :
    (s.withObject cls).IsOf s.nextObject cls :=
  ⟨_, Table.get?_add_self _ _, rfl⟩

/-- **A write overwrites.** The field that was written to has got the value, and no other field of
the object has changed. -/
theorem field?_withField (hr : s.IsOf r cls) (name other : String) (v : Value) :
    (s.withField r name v).field? r other = if other = name then some v else s.field? r other := by
  -- the field is read back from the object as the write has left it
  obtain ⟨o, ho, -⟩ := hr
  have hget : (s.withField r name v).heap.objects.get? r =
      some { o with fields := o.fields.insert name v } := by
    rw [withField, Table.get?_modify, if_pos rfl, ho]
    rfl
  rw [field?, field?, hget, ho]
  split
  · next h =>
    subst h
    exact Assoc.get?_insert_self _ _ _
  · next h => exact Assoc.get?_insert_of_ne _ h _

/-- A field that has been written to is there. -/
theorem hasField_withField (hr : s.IsOf r cls) (name : String) (v : Value) :
    (s.withField r name v).HasField r name := by
  obtain ⟨o, ho, -⟩ := hr
  refine ⟨{ o with fields := o.fields.insert name v }, ?_, Assoc.contains_insert_self v⟩
  rw [withField, Table.get?_modify, if_pos rfl, ho]
  rfl

/-- A write to a field that is declared is a class step. -/
theorem classStep_withField (hr : s.IsOf r cls) (hname : name ∈ s.classes.fieldNames cls)
    (v : Value) : ClassStep s (s.withField r name v) :=
  .setField v (fun _ hof => hr.eq hof ▸ hname) rfl rfl rfl

end State

namespace Object

variable {E : Engine} {scope : Ref .scope} {r : Ref .object} {cls : Ref .classDef} {span : Span}
  {s t : State}

/-! ### Values in turn -/

/-- **The fields of an object are filled in turn:** the value of the first one is computed and
written, then the others are filled; or it cannot be computed, and then the others are left. Other
tasks may take class steps meanwhile. -/
inductive Filled (E : Engine) (scope : Ref .scope) (r : Ref .object) (span : Span) :
    List Slot → State → Except Fault Unit → State → Prop
  | nil (s : State) : Filled E scope r span [] s (.ok ()) s
  | cons {slot : Slot} {rest : List Slot} {s u t : State} {v : Value} {o : Except Fault Unit} :
      (firstValue E scope r span slot s).EndsAmid ClassSteps (.ok v) u →
      Filled E scope r span rest (u.withField r slot.field.name v) o t →
      Filled E scope r span (slot :: rest) s o t
  | failed {slot : Slot} {rest : List Slot} {s t : State} {e : Fault} :
      (firstValue E scope r span slot s).EndsAmid ClassSteps (.error e) t →
      Filled E scope r span (slot :: rest) s (.error e) t

/-- A field is given its value as soon as that is there. -/
theorem fill_endsAmid_iff {slot : Slot} {o : Except Fault Unit} :
    (fill E scope r span slot s).EndsAmid ClassSteps o t ↔
      (∃ v u, (firstValue E scope r span slot s).EndsAmid ClassSteps (.ok v) u ∧ o = .ok () ∧
        t = u.withField r slot.field.name v) ∨
      ∃ e, o = .error e ∧ (firstValue E scope r span slot s).EndsAmid ClassSteps (.error e) t := by
  rw [fill, endsAmid_bind_iff]
  constructor
  · rintro (⟨v, u, hv, h⟩ | h)
    -- writing takes no time, so the end is that of the computation of the value
    · obtain ⟨rfl, rfl⟩ := Run.endsAmid_done_iff.mp h
      exact .inl ⟨v, u, hv, rfl, rfl⟩
    · exact .inr h
  · rintro (⟨v, u, hv, rfl, rfl⟩ | h)
    · exact .inl ⟨v, u, hv, .done () _⟩
    · exact .inr h

/-- So it is of several fields, by induction on them. -/
theorem forList_fill_endsAmid_iff {slots : List Slot} {o : Except Fault Unit} :
    (forList (fill E scope r span) slots s).EndsAmid ClassSteps o t ↔
      Filled E scope r span slots s o t := by
  -- by induction on the fields that are still to be filled
  induction slots generalizing s with
  | nil =>
    constructor
    · intro h
      obtain ⟨rfl, rfl⟩ := Run.endsAmid_done_iff.mp h
      exact .nil t
    · rintro ⟨⟩
      exact .done () t
  | cons slot rest ih =>
    rw [forList, endsAmid_bind_iff]
    constructor
    · rintro (⟨_, u, hfill, hrest⟩ | ⟨e, rfl, hfill⟩)
      -- the first field has been filled, or this is where it stops
      · obtain ⟨v, u', hv, -, rfl⟩ | ⟨e, he, -⟩ := fill_endsAmid_iff.mp hfill
        · exact .cons hv (ih.mp hrest)
        · cases he
      · obtain ⟨v, u, -, he, -⟩ | ⟨e', he, hfailed⟩ := fill_endsAmid_iff.mp hfill
        · cases he
        · cases he
          exact .failed hfailed
    · intro h
      cases h with
      | cons hv hrest =>
        exact .inl ⟨(), _, fill_endsAmid_iff.mpr (.inl ⟨_, _, hv, rfl, rfl⟩), ih.mpr hrest⟩
      | failed hv => exact .inr ⟨_, rfl, fill_endsAmid_iff.mpr (.inr ⟨_, rfl, hv⟩)⟩

/-- **How an object is made:** it is there without fields, and then the fields that its chain
declares are filled in turn. -/
theorem create_endsAmid_iff {o : Except Fault (Ref .object)} :
    (create E scope cls span s).EndsAmid ClassSteps o t ↔
      ∃ filled, Filled E scope s.nextObject span (slots s.classes scope cls) (s.withObject cls)
        filled t ∧ o = filled.map fun _ => s.nextObject := by
  have hcreate : create E scope cls span s =
      (forList (fill E scope s.nextObject span) (slots s.classes scope cls) >>= fun _ =>
        pure s.nextObject : Eval (Ref .object)) (s.withObject cls) := rfl
  rw [hcreate, endsAmid_bind_iff]
  simp only [forList_fill_endsAmid_iff]
  constructor
  -- the reference is answered once all fields are filled
  · rintro (⟨_, u, hfilled, h⟩ | ⟨e, rfl, hfilled⟩)
    · obtain ⟨rfl, rfl⟩ := Run.endsAmid_done_iff.mp h
      exact ⟨_, hfilled, rfl⟩
    · exact ⟨_, hfilled, rfl⟩
  · rintro ⟨filled, hfilled, rfl⟩
    cases filled with
    | ok _ => exact .inl ⟨(), t, hfilled, .done _ t⟩
    | error e => exact .inr ⟨e, rfl, hfilled⟩

/-! ### Objects that are made -/

/-- **When all fields are filled they are there.** -/
theorem Filled.hasField (hE : E.Abides) {slots : List Slot} {o : Except Fault Unit}
    (h : Filled E scope r span slots s o t) (hs : s.Lawful) (hr : s.IsOf r cls)
    (hslots : ∀ slot ∈ slots, slot.field.name ∈ s.classes.fieldNames cls) :
    ClassSteps s t ∧ (o = .ok () → ∀ slot ∈ slots, t.HasField r slot.field.name) := by
  -- computing a value is a matter of class steps, whoever takes them
  have hvalue : ∀ {slot : Slot} {s u : State} {o}, s.Lawful →
      (firstValue E scope r span slot s).EndsAmid ClassSteps o u → ClassSteps s u := by
    intro slot s u o hs hv
    have hbuilt := firstValue_built (E := E) (K := .nothing) (x := .away) scope r span slot
    exact (hbuilt.abides hE s hs trivial).relied hv
  induction h with
  | nil s => exact ⟨.refl, fun _ => nofun⟩
  | failed hv => exact ⟨hvalue hs hv, nofun⟩
  | @cons slot rest s u t v o hv _ ih =>
    have hsu : ClassSteps s u := hvalue hs hv
    have hof : u.IsOf r cls := hsu.onward.isOf hr
    -- the chain of the class declares the same fields as before
    have hnames : ∀ name, name ∈ u.classes.fieldNames cls ↔ name ∈ s.classes.fieldNames cls := by
      obtain ⟨c, hc, rfl⟩ := hr
      exact fun _ => hsu.onward.classes.mem_fieldNames_iff hs.classes (hs.isSome_class hc)
    have hfield : slot.field.name ∈ u.classes.fieldNames cls :=
      (hnames _).mpr (hslots slot (.head _))
    -- the value is written, and the rest is filled from there
    have hwrite : ClassStep u (u.withField r slot.field.name v) :=
      State.classStep_withField hof hfield v
    obtain ⟨hsteps, hrest⟩ := ih (hwrite.lawful (hsu.lawful hs)) (hwrite.onward.isOf hof)
      fun other hother => (hnames _).mpr (hslots other (.tail _ hother))
    refine ⟨hsu.trans (.head hwrite hsteps), fun ho other hother => ?_⟩
    -- the first field has just been written, the others are there by induction
    obtain rfl | hother := List.mem_cons.mp hother
    · exact hsteps.onward.hasField (State.hasField_withField hof _ v)
    · exact hrest ho other hother

/-- A new object has got all of its fields as soon as it is made, and it keeps them. -/
theorem complete_of_create (hE : E.Abides) (hs : s.Lawful) (hcls : (s.classes.class? cls).isSome)
    (h : (create E scope cls span s).EndsAmid ClassSteps (.ok r) t) :
    r = s.nextObject ∧ ClassSteps s t ∧ ∀ u, ClassSteps t u → u.Complete r cls := by
  obtain ⟨filled, hfilled, hr⟩ := create_endsAmid_iff.mp h
  cases filled with
  | error e => cases hr
  | ok _ =>
    cases hr
    -- the new object has no fields, and its class is there
    have hnew : ClassStep s (s.withObject cls) := .newObject hcls rfl rfl rfl
    have hdeclared : ∀ slot ∈ slots s.classes scope cls,
        slot.field.name ∈ (s.withObject cls).classes.fieldNames cls :=
      fun slot hslot => mem_fieldNames_iff.mpr ⟨slot, hslot, rfl⟩
    obtain ⟨hsteps, hall⟩ :=
      hfilled.hasField hE (hnew.lawful hs) (State.isOf_withObject s cls) hdeclared
    have hst : ClassSteps s t := .head hnew hsteps
    refine ⟨rfl, hst, fun u htu => ?_⟩
    have hof : u.IsOf s.nextObject cls :=
      htu.onward.isOf (hsteps.onward.isOf (State.isOf_withObject s cls))
    have hu : u.Lawful := htu.lawful (hst.lawful hs)
    refine ⟨hof, fun name => ⟨hu.fieldsDeclared _ _ _ hof, fun hname => ?_⟩⟩
    -- what the chain declares now, it declared when the object was made
    have hbefore : name ∈ s.classes.fieldNames cls :=
      ((hst.onward.trans htu.onward).classes.mem_fieldNames_iff hs.classes hcls).mp hname
    obtain ⟨slot, hslot, rfl⟩ := mem_fieldNames_iff.mp hbefore
    exact htu.onward.hasField (hall rfl slot hslot)

/-- **What `new` returns** is a new object with all the fields that its chain declares and no
others, and so it is for ever. -/
theorem complete_of_instantiate (hE : E.Abides) (hs : s.Lawful) {args : List Value} {v : Value}
    (h : (instantiate E scope cls args span s).EndsAmid ClassSteps (.ok v) t) :
    v = .object s.nextObject ∧ ∀ u, ClassSteps t u → u.Complete s.nextObject cls := by
  unfold instantiate at h
  rw [gets_bind_apply] at h
  obtain ⟨c, u, hfound, hrest⟩ | ⟨e, he, -⟩ := endsAmid_bind_iff.mp h
  · obtain ⟨hcls, rfl⟩ : s.classes.class? cls = some c ∧ u = s := by
      -- a class that is not there makes no object
      cases hcls : s.classes.class? cls with
      | none =>
        rw [hcls] at hfound
        exact nomatch (Run.endsAmid_fault_iff.mp hfound).1
      | some d =>
        rw [hcls] at hfound
        obtain ⟨hd, hu⟩ := Run.endsAmid_done_iff.mp hfound
        exact ⟨congrArg some (Except.ok.inj hd).symm, hu⟩
    split at hrest
    · exact nomatch (Run.endsAmid_fault_iff.mp hrest).1
    · obtain ⟨r, made, hcreate, hrest⟩ | ⟨e, he, -⟩ := endsAmid_bind_iff.mp hrest
      -- the class is there, so the object can be made
      · have hsome : (u.classes.class? cls).isSome := by rw [hcls]; rfl
        obtain ⟨rfl, hmade, hcomplete⟩ := complete_of_create hE hs hsome hcreate
        obtain ⟨_, last, hinit, hdone⟩ | ⟨e, he, -⟩ := endsAmid_bind_iff.mp hrest
        · obtain ⟨hv, rfl⟩ := Run.endsAmid_done_iff.mp hdone
          -- whatever `init` does, the object keeps its fields
          have hbuilt := initialise_built (E := E) (K := .nothing) (x := .away) scope u.nextObject
            cls args span
          have hsteps : ClassSteps made t :=
            (hbuilt.abides hE made (hmade.lawful hs) trivial).relied hinit
          exact ⟨Except.ok.inj hv, fun w hw => hcomplete w (hsteps.trans hw)⟩
        · cases he
      · cases he
  · cases he

end Object

/-- At the end of each of its stretches the run has taken class steps, and no object has a field
that is not declared; as long as the others only take class steps. -/
abbrev Run.KeepsFields {α : Type} (s : State) (r : Run α) : Prop :=
  r.Along (fun t u => ClassSteps t u ∧ u.FieldsDeclared) ClassSteps s

/-- A computation that abides keeps the fields of objects as declared. -/
theorem Eval.Abides.keepsFields {α : Type} {m : Eval α} {s : State} (hm : m.Abides .nothing)
    (hs : s.Lawful) : (m s).KeepsFields s :=
  hm.always hs fun htu hu => ⟨htu, hu.fieldsDeclared⟩

/-- **Objects have the fields that their classes declare.** Take the state that a session is in
after any programs, or what has become of it since by class steps, which is all that a session takes
when it goes on; and any activity of an engine of any level, watched or not. At the beginning,
wherever its run can be seen, and at its end, whichever that is, no object has a field that the
classes of its chain do not declare.

If `new` returns, then with an object that was not there before and that has all the fields declared
along its chain, and so it is in all states that follow. They are filled in turn from the root of
the chain down, in the order of their declarations, and each value overwrites the one that a field
of this name may have had. -/
theorem Engine.fields_are_declared {setup : Setup} {programs : List Program} {s : State}
    (hs : ClassSteps ((Session.start setup).runAll programs).2.state s) (w : Bool) (n : Nat)
    (scope : Ref .scope) :
    s.FieldsDeclared ∧
    (∀ later, ClassSteps ((Session.start setup).runAll programs).2.state
      (((Session.start setup).runAll programs).2.runAll later).2.state) ∧
    (∀ program, ((watched w n).program scope program s).KeepsFields s) ∧
    (∀ e, ((watched w n).expr scope e s).KeepsFields s) ∧
    (∀ stmt, ((watched w n).stmt scope stmt s).KeepsFields s) ∧
    (∀ callee args span, ((watched w n).call scope callee args span s).KeepsFields s) ∧
    (∀ receiver name args span,
      ((watched w n).invoke scope receiver name args span s).KeepsFields s) ∧
    (∀ cls args span v t,
      (Object.instantiate (watched w n) scope cls args span s).EndsAmid ClassSteps (.ok v) t →
      v = .object s.nextObject ∧ s.heap.objects.get? s.nextObject = none ∧
        ∀ u, ClassSteps t u → u.Complete s.nextObject cls) ∧
    (∀ cls span o t,
      (Object.create (watched w n) scope cls span s).EndsAmid ClassSteps o t ↔
      ∃ filled, Object.Filled (watched w n) scope s.nextObject span
        (Object.slots s.classes scope cls) (s.withObject cls) filled t ∧
        o = filled.map fun _ => s.nextObject) ∧
    (∀ (u : State) r cls name other v, u.IsOf r cls →
      (u.withField r name v).field? r other =
        if other = name then some v else u.field? r other) := by
  -- a session is lawful, and class steps keep it so
  have hlawful : s.Lawful := hs.lawful (Session.lawful setup programs)
  have hE : (watched w n).Abides := watched_abides w n
  refine ⟨hlawful.fieldsDeclared, Session.classSteps_runAll setup programs, fun program => ?_,
    fun e => ?_, fun stmt => ?_, fun callee args span => ?_, fun receiver name args span => ?_,
    fun cls args span v t h => ?_, fun cls span o t => ?_, fun u r cls name other v hr => ?_⟩
  · exact ((program_built scope program).abides hE).keepsFields hlawful
  · exact (hE.expr scope e).keepsFields hlawful
  · exact (hE.stmt scope stmt).keepsFields hlawful
  · exact (hE.call scope callee args span).keepsFields hlawful
  · exact (hE.invoke scope receiver name args span).keepsFields hlawful
  · obtain ⟨hv, hcomplete⟩ := Object.complete_of_instantiate hE hlawful h
    exact ⟨hv, s.get?_nextObject, hcomplete⟩
  · exact Object.create_endsAmid_iff
  · exact State.field?_withField hr name other v

/-- A class below `parent` with a field `a`. -/
def holder (parent : Ref .classDef) (value : Option Expr) : ClassDef :=
  { ClassTable.bare "Holder" .normal none with
    parent := some parent, fields := [⟨"a", .isPublic, value⟩] }

/-- A class with a field, and a child that declares the field again, with a value. -/
def redeclaring : State :=
  let up := holder ClassTable.base none
  let down := holder ⟨4⟩ (some (.mk (.bool true) .unknown))
  { State.initial bare with classes := ((ClassTable.builtin.add up).2.add down).2 }

/-- An object of the child has the one field, with the value that the child gives it. -/
theorem Engine.fields_are_declared_redeclaring :
    ClassSteps ((Session.start bare).runAll []).2.state redeclaring ∧
    ∃ t, Object.instantiate (watched false 1) State.root ⟨5⟩ [] .unknown redeclaring =
        .done (.object ⟨0⟩) t ∧
      t.field? ⟨0⟩ "a" = some (.bool true) ∧ t.Complete ⟨0⟩ ⟨5⟩ := by
  have hadmits : ∀ {t : ClassTable} {parent c value}, t.class? parent = some c →
      c.category = .normal → t.Admits (holder parent value) := by
    intro t parent c value hc hnormal
    exact ⟨fun p hp => by cases hp; exact ⟨c, hc, hnormal⟩, nofun, rfl, nofun,
      nofun, nofun, nofun⟩
  have hsteps : ClassSteps ((Session.start bare).runAll []).2.state redeclaring := by
    let s : State := { State.initial bare with
      classes := (ClassTable.builtin.add (holder ClassTable.base none)).2 }
    have hup : ClassStep (State.initial bare) s := .newClass (hadmits rfl rfl) rfl rfl rfl
    have hdown : ClassStep s redeclaring := .newClass (hadmits rfl rfl) rfl rfl rfl
    exact .tail (.single hup) hdown
  obtain ⟨t, ht, hvalue⟩ : ∃ t,
      Object.instantiate (watched false 1) State.root ⟨5⟩ [] .unknown redeclaring =
        .done (.object ⟨0⟩) t ∧ t.field? ⟨0⟩ "a" = some (.bool true) := ⟨_, rfl, rfl⟩
  obtain ⟨-, -, -, -, -, -, -, hnew, -⟩ := fields_are_declared hsteps false 1 State.root
  obtain ⟨-, -, hcomplete⟩ := hnew ⟨5⟩ [] .unknown (.object ⟨0⟩) t (ht ▸ .done _ t)
  exact ⟨hsteps, t, ht, hvalue, hcomplete t .refl⟩

end ScriptEngine
