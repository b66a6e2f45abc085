import ScriptEngine.Eval.Declaration
import ScriptEngine.Proofs.Classes.Lawful
import ScriptEngine.Proofs.Run.Ends

/-!
# What is looked up

Some computations only look things up: the field that a write goes to, the indexer of an object, the
parent and the annotations of a class that is being declared. They do not wait, so what they find is
known afterwards (`Knowledge.after`). From this it follows that a write to a field is one to a field
that is declared (`Object.declared_of_after`), and that a class which is declared can be added to
the table (`Declaration.admits_of_after`).
-/

namespace ScriptEngine

open Eval

variable {K : Knowledge} {s t : State}

/-! ### Members of objects -/

namespace Object

variable {r : Ref .object} {name : String} {index : Value} {span : Span}

/-- What is found as a field is declared, for any object that the search can have been about: the
class that was searched is the object's class, or, without an object, one that declares nothing. -/
theorem declared_of_after {cls : Ref .classDef} {classes : ClassTable}
    {found : Ref .classDef × Visibility}
    (hK : (((K.after (classOf r) cls).after (gets (·.classes))) classes).holds s)
    (hfound : classes.findField cls name = some found) {cls' : Ref .classDef}
    (hof : s.IsOf r cls') : name ∈ s.classes.fieldNames cls' := by
  -- the class was read first, then the table, and neither has gone since
  obtain ⟨-, u, hu, hKu, rfl, hus⟩ := Knowledge.after_gets hK
  obtain ⟨-, t, ht, -, hcls, htu⟩ := Knowledge.after_gets hKu
  have hname : name ∈ u.classes.fieldNames cls := by
    rw [← ClassTable.isSome_findField_iff, hfound]
    rfl
  cases ho : t.heap.objects.get? r with
  -- without an object the base class is searched, which declares no fields
  | none =>
    rw [ho] at hcls
    obtain rfl : ClassTable.base = cls := hcls
    rw [hu.classes.fieldNames_base] at hname
    exact nomatch hname
  | some o =>
    rw [ho] at hcls
    obtain rfl : o.cls = cls := hcls
    -- an object is of one class, so the search was along its chain
    obtain rfl := (hus.isOf (htu.isOf ⟨o, ho, rfl⟩)).eq hof
    have hsome := htu.classes.isSome (ht.isSome_class ho)
    exact (hus.classes.mem_fieldNames_iff hu.classes hsome).mpr hname

/-- A field is declared along a chain if it is among those that an object gets. -/
theorem mem_fieldNames_iff {t : ClassTable} {scope : Ref .scope} {cls : Ref .classDef} :
    name ∈ t.fieldNames cls ↔ ∃ slot ∈ slots t scope cls, slot.field.name = name := by
  unfold ClassTable.fieldNames slots
  simp only [List.mem_flatMap, List.mem_map, List.mem_reverse]
  constructor
  · rintro ⟨p, hp, field, hfield, rfl⟩
    exact ⟨_, ⟨p, hp, field, hfield, rfl⟩, rfl⟩
  · rintro ⟨_, ⟨p, hp, field, hfield, rfl⟩, rfl⟩
    exact ⟨p, hp, field, hfield, rfl⟩

/-- To look up the indexer takes no time. -/
theorem indexerOf_immediate (r : Ref .object) (index : Value) (span : Span) :
    Immediate (indexerOf r index span) := by
  unfold indexerOf
  refine .bind (.gets _) fun cls => .bind (.gets _) fun found => ?_
  split
  -- a reference that no table knows is reported, and so is a class without an indexer
  · exact .bind (.gets _) fun _ => .fail _ _
  · split
    · exact .pure _
    · exact .bind (.gets _) fun _ => .fail _ _

/-- The indexer that is found is one of a chain. -/
theorem indexer_of_after {owner : Ref .classDef} {i : IndexerDef}
    (hK : (K.after (indexerOf r index span) (owner, i)).holds s) :
    ∃ (t : State) (cls : Ref .classDef), t.classes.findIndexer cls = some (owner, i) ∧
      t.classes.Extends s.classes := by
  obtain ⟨-, t, u, -, -, hfound, -, hus⟩ := hK
  unfold indexerOf at hfound
  -- the computation is taken apart, step by step, from the state in which it began
  obtain ⟨cls, t₁, hcls, hfound⟩ := exists_of_bind_eq_done hfound
  obtain ⟨-, rfl⟩ := Run.done.inj hcls
  obtain ⟨found, t₂, hread, hfound⟩ := exists_of_bind_eq_done hfound
  obtain ⟨hi, rfl⟩ := Run.done.inj hread
  cases found with
  | none => exact nomatch hfound
  -- only an integer is an index of an object
  | some entry =>
    cases index with
    | int n =>
      cases hfound
      exact ⟨t, cls, hi, hus.classes⟩
    | _ => exact nomatch hfound

end Object

/-! ### Declarations -/

namespace Declaration

variable {scope : Ref .scope} {name : String} {span : Span}

/-- To look up a name takes no time. -/
theorem resolve_immediate (scope : Ref .scope) (name : String) (span : Span) :
    Immediate (resolve scope name span) := by
  unfold resolve
  -- a name may stand for anything, and only a class is an answer
  refine .bind (.gets _) fun v => ?_
  split
  · exact .gets _
  · exact .fail _ _
  · exact .gets _

/-- An entry of the table is found under its reference. -/
theorem class?_of_entry? {t : ClassTable} {q r : Ref .classDef} {c : ClassDef}
    (h : t.entry? q = some (r, c)) : t.class? r = some c := by
  obtain ⟨d, hd, heq⟩ := Option.map_eq_some_iff.mp h
  cases heq
  exact hd

/-- The class that a name stands for is in the table. -/
theorem resolve_done {r : Ref .classDef} {c : ClassDef}
    (h : resolve scope name span s = .done (some (r, c)) t) :
    t = s ∧ s.classes.class? r = some c := by
  rw [resolve, gets_bind_apply] at h
  -- what the scope has under the name decides
  generalize s.scopes.get? scope name = v at h
  cases v with
  | none =>
    obtain ⟨hfound, rfl⟩ := Run.done.inj h
    obtain ⟨q, -, hq⟩ := Option.bind_eq_some_iff.mp hfound
    exact ⟨rfl, class?_of_entry? hq⟩
  | some v =>
    cases v with
    | classDef q =>
      obtain ⟨hfound, rfl⟩ := Run.done.inj h
      exact ⟨rfl, class?_of_entry? hfound⟩
    | _ => exact nomatch h

/-- To look up the parent takes no time. -/
theorem parentOf_immediate (scope : Ref .scope) (name : String) (parent : Option String)
    (category : Category) (span : Span) :
    Immediate (parentOf scope name parent category span) := by
  unfold parentOf
  split
  · split <;> exact .pure _
  -- a parent that is named has to be of the same category
  · refine .bind (resolve_immediate _ _ _) fun found => ?_
    split
    · exact .fail _ _
    · split
      · exact .fail _ _
      · exact .fail _ _
      · exact .pure _

/-- A parent is there and has the category of its child; without one, the child is an annotation. -/
theorem parentOf_done (hs : s.Lawful) {parent : Option String} {category : Category}
    {found : Option (Ref .classDef)}
    (h : parentOf scope name parent category span s = .done found t) :
    t = s ∧ (∀ p, found = some p → ∃ d, s.classes.class? p = some d ∧ d.category = category) ∧
      (found = none → category = .marking) := by
  unfold parentOf at h
  -- without a name the parent is the base class, or there is none
  split at h
  · split at h
    · next hmarking =>
      cases h
      exact ⟨rfl, nofun, fun _ => hmarking⟩
    · next hnormal =>
      cases h
      obtain ⟨_, hbase, statics, rfl⟩ := hs.classes.builtin ClassTable.base _ rfl
      refine ⟨rfl, fun p hp => ?_, nofun⟩
      cases hp
      cases category with
      | normal => exact ⟨_, hbase, rfl⟩
      | marking => exact absurd rfl hnormal
  · next parent =>
    obtain ⟨entry, u, hr, hdone⟩ := exists_of_bind_eq_done h
    cases entry with
    | none => exact nomatch hdone
    | some entry =>
      obtain ⟨r, c⟩ := entry
      obtain ⟨rfl, hc⟩ := resolve_done hr
      dsimp only at hdone
      -- of the categories of child and parent those that differ are refused
      cases category <;> cases hcat : c.category <;> rw [hcat] at hdone <;> cases hdone
      all_goals exact ⟨rfl, fun p hp => by cases hp; exact ⟨c, hc, hcat⟩, nofun⟩

/-- A class that has got members: what it descends from and what it is has stayed, its methods go by
their names, and its functions serve as what they were written as. -/
structure Grown (c d : ClassDef) : Prop where
  parent : d.parent = c.parent
  category : d.category = c.category
  marker : d.marker = c.marker
  methods : (∀ name m, c.methods.get? name = some m → m.closure.name = name) →
    ∀ name m, d.methods.get? name = some m → m.closure.name = name
  written : c.Written → d.Written

namespace Grown

variable {c d e : ClassDef}

/-- Nothing has been added. -/
theorem refl (c : ClassDef) : Grown c c := ⟨rfl, rfl, rfl, id, id⟩

/-- One member after the other. -/
theorem trans (h : Grown c d) (h' : Grown d e) : Grown c e :=
  ⟨h'.parent.trans h.parent, h'.category.trans h.category, h'.marker.trans h.marker,
    h'.methods ∘ h.methods, h'.written ∘ h.written⟩

/-- A method is declared under its own name. -/
theorem method (c : ClassDef) {name : String} {m : MethodDef} (hm : m.closure.name = name)
    (horigin : m.closure.origin = .method) :
    Grown c { c with methods := c.methods.insert name m } := by
  -- a method that is found is the new one, or was there
  have hcases {other : String} {m' : MethodDef}
      (h : (c.methods.insert name m).get? other = some m') :
      other = name ∧ m' = m ∨ c.methods.get? other = some m' := by
    by_cases hother : other = name
    · subst hother
      rw [Assoc.get?_insert_self] at h
      exact .inl ⟨rfl, (Option.some.inj h).symm⟩
    · rw [Assoc.get?_insert_of_ne c.methods hother] at h
      exact .inr h
  refine ⟨rfl, rfl, rfl, fun hc other m' hm' => ?_,
    fun hc => ⟨fun hm' => ?_, hc.property, hc.indexer⟩⟩
  · obtain ⟨rfl, rfl⟩ | hold := hcases hm'
    · exact hm
    · exact hc other m' hold
  · obtain ⟨-, rfl⟩ | hold := hcases hm'
    · exact horigin
    · exact hc.method hold

/-- A property is declared, with accessors that were written as such. -/
theorem property (c : ClassDef) (name : String) {p : PropertyDef}
    (hp : ∀ {f}, p.getter = some f ∨ p.setter = some f → f.origin = .accessor) :
    Grown c { c with properties := c.properties.insert name p } := by
  refine ⟨rfl, rfl, rfl, id, fun hc => ⟨hc.method, fun {other q f} hq hf => ?_, hc.indexer⟩⟩
  by_cases hother : other = name
  -- a property that is found is the new one, or was there
  · subst hother
    rw [Assoc.get?_insert_self] at hq
    obtain rfl := Option.some.inj hq
    exact hp hf
  · rw [Assoc.get?_insert_of_ne c.properties hother] at hq
    exact hc.property hq hf

/-- So is an indexer. -/
theorem indexer (c : ClassDef) {i : IndexerDef}
    (hi : ∀ {f}, i.getter = some f ∨ i.setter = some f → f.origin = .accessor) :
    Grown c { c with indexer := some i } :=
  ⟨rfl, rfl, rfl, id, fun hc => ⟨hc.method, hc.property, fun h hf => hi (Option.some.inj h ▸ hf)⟩⟩

end Grown

/-- To look up an annotation takes no time. -/
theorem markingClass_immediate (scope : Ref .scope) (span : Span) (name : String) :
    Immediate (markingClass scope span name) := by
  unfold markingClass
  -- an annotation has to be the name of a class of annotations
  refine .bind (resolve_immediate _ _ _) fun found => ?_
  split
  · exact .fail _ _
  · split
    · exact .pure _
    · exact .fail _ _

/-- To add a member takes no time, as values are computed later. -/
theorem addMember_immediate (scope : Ref .scope) (c : ClassDef) (m : MemberDecl) :
    Immediate (addMember scope c m) := by
  unfold addMember
  split
  split
  · split <;> exact .pure _
  · exact .bind (.mapList (markingClass_immediate _ _) _) fun _ => .pure _
  · exact .pure _
  · split
    · exact .fail _ _
    · split
      · exact .fail _ _
      · exact .pure _

/-- Nor does adding several. -/
theorem addMembers_immediate (scope : Ref .scope) (c : ClassDef) (members : List MemberDecl) :
    Immediate (addMembers scope c members) := by
  induction members generalizing c with
  | nil => exact .pure c
  | cons m rest ih => exact .bind (addMember_immediate scope c m) fun d => ih d

/-- **A class with another member has grown.** -/
theorem addMember_done {c d : ClassDef} {m : MemberDecl}
    (h : addMember scope c m s = .done d t) : Grown c d := by
  unfold addMember at h
  split at h
  split at h
  -- the members of a class are told apart by their kind
  · -- a field
    split at h
    · cases h
      exact ⟨rfl, rfl, rfl, id, fun hc => ⟨hc.method, hc.property, hc.indexer⟩⟩
    · cases h
      exact ⟨rfl, rfl, rfl, id, fun hc => ⟨hc.method, hc.property, hc.indexer⟩⟩
  · obtain ⟨annotations, u, -, h⟩ := exists_of_bind_eq_done h
    cases h
    exact .method c rfl rfl
  · cases h
    refine .property c _ fun hf => ?_
    obtain hf | hf := hf <;> obtain ⟨_, -, rfl⟩ := Option.map_eq_some_iff.mp hf <;> rfl
  · -- an indexer, if it is one of objects and takes integers
    split at h
    · exact nomatch h
    · split at h
      · exact nomatch h
      · cases h
        refine .indexer c fun hf => ?_
        obtain hf | hf := hf <;> obtain ⟨_, -, rfl⟩ := Option.map_eq_some_iff.mp hf <;> rfl

/-- So has one with several, by induction on them. -/
theorem addMembers_done {c d : ClassDef} {members : List MemberDecl}
    (h : addMembers scope c members s = .done d t) : Grown c d := by
  induction members generalizing c s with
  | nil =>
    cases h
    exact .refl _
  | cons m rest ih =>
    obtain ⟨e, u, he, h⟩ := exists_of_bind_eq_done h
    exact (addMember_done he).trans (ih h)

/-- **What is declared is admitted.** -/
theorem admits_of_after {parent : Option String} {category : Category}
    {found : Option (Ref .classDef)} {members : List MemberDecl} {d : ClassDef}
    (hK : (((K.after (parentOf scope name parent category span) found).after
      (addMembers scope { ClassTable.bare name category none with
        parent := found, scope := some scope } members)) d).holds s) :
    s.classes.Admits d := by
  obtain ⟨⟨-, t, u, ht, -, hfound, -, hus⟩, v, w, -, -, hd, -, -⟩ := hK
  obtain ⟨rfl, hparent, hroot⟩ := parentOf_done ht hfound
  -- the class has grown from a bare one, which has no members that could go by another name
  have hgrown : Grown _ d := addMembers_done hd
  refine ⟨fun p hp => ?_, fun hp => ?_, hgrown.marker, hgrown.methods nofun,
    hgrown.written ⟨nofun, nofun, nofun⟩⟩
  · -- the parent was there when it was looked up, and it still is
    obtain ⟨c, hc, hcat⟩ := hparent p (hgrown.parent.symm.trans hp)
    obtain ⟨_, he, statics, rfl⟩ := hus.classes p c hc
    exact ⟨_, he, hcat.trans hgrown.category.symm⟩
  · exact hgrown.category.trans (hroot (hgrown.parent.symm.trans hp))

end Declaration

end ScriptEngine
