import ScriptEngine.Proofs.Places.Lookups
import ScriptEngine.Proofs.Run.Calls
import ScriptEngine.Proofs.Sequences.Slices
import ScriptEngine.Proofs.Visibility

/-!
# Writing to places

A write to a place goes one of three ways. It is refused, for one of the reasons that
`Place.Refuses` lists: then it fails and the state is what it was. It aims at a cell
(`Place.Aims`): then the value is put into this cell, nothing else changes, and reading the place
gives the value. Or it calls what the program has written to do it, a setter of a property or an
indexer (`Place.Calls`).
-/

namespace ScriptEngine

open Eval

/-! ### Positions -/

namespace Access

variable {i : Int64} {n p : ℕ}

/-- Positions count from the front, or, below zero, from the back. -/
theorem position?_eq_some_iff :
    position? i n = some p ↔ p < n ∧ (i.toInt = p ∨ i.toInt = p - n) := by
  rw [position?_eq, place]
  split_ifs <;> simp only [Option.some.injEq, false_iff] <;> omega

theorem position?_eq_none_iff : position? i n = none ↔ i.toInt < -n ∨ n ≤ i.toInt := by
  rw [position?_eq, place]
  split_ifs <;> simp <;> omega

end Access

/-! ### Kinds of values -/

/-- Elements of the value can be asked for by index. -/
def Value.IsIndexed : Value → Prop
  | .array _ => True
  | .tuple _ => True
  | .text _ => True
  | .hash _ => True
  | .object _ => True
  | _ => False

/-- Members of the value can be assigned to. -/
def Value.HasMembers : Value → Prop
  | .object _ => True
  | .classDef _ => True
  | .hash _ => True
  | _ => False

namespace Place

open Use (classOf)
open Object (mayUse)

variable {s : State} {scope : Ref .scope} {v : Value}

/-! ### What a write means -/

/-- The cell that a write to the place changes. -/
inductive Aims (s : State) (scope : Ref .scope) : Place → Cell → Prop
  /-- A name is bound anew where it is bound nearest, or else in the scope itself. -/
  | name {name : String} :
      s.scopes.isConstIn (s.scopes.holder scope name) name = false →
      Aims s scope (.name name) (.binding (s.scopes.holder scope name) name)
  | element {r : Ref .array} {index : Value} {i : Int64} {items : Array Value} {p : ℕ} :
      s.heap.arrays.get? r = some items → index.asInt? = some i →
      p < items.size → i.toInt = p ∨ i.toInt = p - items.size →
      Aims s scope (.index (.array r) index) (.element r p)
  | entry {r : Ref .hash} {index : Value} {k : Key} :
      Key.ofValue? index = some k → Aims s scope (.index (.hash r) index) (.entry r k)
  | member {r : Ref .hash} {name : String} :
      Aims s scope (.member (.hash r) name) (.entry r (.text name))
  | field {r : Ref .object} {name : String} {owner : Ref .classDef} {visibility : Visibility} :
      s.classes.findField (classOf s r) name = some (owner, visibility) →
      mayUse s scope owner visibility = true →
      Aims s scope (.member (.object r) name) (.field r name)
  /-- A static field is written to in the class that holds it. -/
  | static {cls holder : Ref .classDef} {name : String} {old : Value} :
      s.classes.findStatic cls name = some (holder, old) →
      mayUse s scope holder (s.classes.staticVisibility holder name) = true →
      Aims s scope (.member (.classDef cls) name) (.static holder name)

/-- The function of the program that does the write of `v`, and what it is called with. -/
inductive Calls (s : State) (scope : Ref .scope) (v : Value) :
    Place → Closure → List Value → Binding → Prop
  | property {r : Ref .object} {name : String} {owner : Ref .classDef} {p : PropertyDef}
      {f : Closure} :
      s.classes.findField (classOf s r) name = none →
      s.classes.findProperty (classOf s r) name = some (owner, p) →
      mayUse s scope owner p.visibility = true → p.setter = some f →
      Calls s scope v (.member (.object r) name) f [v] ⟨some (.object r), some owner⟩
  | indexer {r : Ref .object} {n : Int64} {owner : Ref .classDef} {i : IndexerDef} {f : Closure} :
      s.classes.findIndexer (classOf s r) = some (owner, i) → i.setter = some f →
      Calls s scope v (.index (.object r) (.int n)) f [.int n, v] ⟨some (.object r), some owner⟩

/-- The write runs code of the program. -/
def RunsCode (s : State) (scope : Ref .scope) (v : Value) (place : Place) : Prop :=
  ∃ f args binding, place.Calls s scope v f args binding ∧ f.accepts args.length = true ∧
    s.stack.depth (s.scopes.task scope) < Function.maxDepth

/-- Why a write of `v` is refused. -/
inductive Refuses (s : State) (scope : Ref .scope) (v : Value) : Place → Cause → Prop
  | constant {name : String} :
      s.scopes.isConstIn (s.scopes.holder scope name) name = true →
      Refuses s scope v (.name name) (.constant name)
  -- elements
  | notInteger {r : Ref .array} {index : Value} :
      index.asInt? = none →
      Refuses s scope v (.index (.array r) index) (.invalidArgument (s.inspect index))
  | outOfRange {r : Ref .array} {index : Value} {i : Int64} {items : Array Value} :
      (s.heap.arrays.get? r).getD #[] = items → index.asInt? = some i →
      i.toInt < -items.size ∨ items.size ≤ i.toInt →
      Refuses s scope v (.index (.array r) index) (.indexRange i.toInt)
  | unhashable {r : Ref .hash} {index : Value} :
      Key.ofValue? index = none →
      Refuses s scope v (.index (.hash r) index) (.notHashable (s.typeName index))
  | ofTuple {r : Ref .tuple} {index : Value} :
      Refuses s scope v (.index (.tuple r) index)
        (.general "cannot assign to an element of immutable TUPLE")
  | ofText {t : String} {index : Value} :
      Refuses s scope v (.index (.text t) index)
        (.general "cannot assign to an element of immutable STRING")
  | notIndexable {container index : Value} :
      ¬ container.IsIndexed →
      Refuses s scope v (.index container index) (.notIndexable (s.typeName container))
  | noIndexer {r : Ref .object} {index : Value} :
      s.classes.findIndexer (classOf s r) = none →
      Refuses s scope v (.index (.object r) index) (.indexerMissing (s.classes.name (classOf s r)))
  | indexType {r : Ref .object} {index : Value} {found : Ref .classDef × IndexerDef} :
      s.classes.findIndexer (classOf s r) = some found → (∀ n, index ≠ .int n) →
      Refuses s scope v (.index (.object r) index) (.indexerType (s.classes.name (classOf s r)))
  | indexerReadOnly {r : Ref .object} {n : Int64} {owner : Ref .classDef} {i : IndexerDef} :
      s.classes.findIndexer (classOf s r) = some (owner, i) → i.setter = none →
      Refuses s scope v (.index (.object r) (.int n)) (.indexerUse (s.classes.name (classOf s r)))
  -- members
  | undeclared {r : Ref .object} {name : String} :
      s.classes.findField (classOf s r) name = none →
      s.classes.findProperty (classOf s r) name = none →
      Refuses s scope v (.member (.object r) name) (.memberUse name (s.classes.name (classOf s r)))
  | hiddenField {r : Ref .object} {name : String} {owner : Ref .classDef}
      {visibility : Visibility} :
      s.classes.findField (classOf s r) name = some (owner, visibility) →
      mayUse s scope owner visibility = false →
      Refuses s scope v (.member (.object r) name) (.memberPrivate name (s.classes.name owner))
  | hiddenProperty {r : Ref .object} {name : String} {owner : Ref .classDef} {p : PropertyDef} :
      s.classes.findField (classOf s r) name = none →
      s.classes.findProperty (classOf s r) name = some (owner, p) →
      mayUse s scope owner p.visibility = false →
      Refuses s scope v (.member (.object r) name) (.memberPrivate name (s.classes.name owner))
  | readOnly {r : Ref .object} {name : String} {owner : Ref .classDef} {p : PropertyDef} :
      s.classes.findField (classOf s r) name = none →
      s.classes.findProperty (classOf s r) name = some (owner, p) →
      mayUse s scope owner p.visibility = true → p.setter = none →
      Refuses s scope v (.member (.object r) name) (.propertyUse name (s.classes.name owner))
  | noStatic {cls : Ref .classDef} {name : String} :
      s.classes.findStatic cls name = none →
      Refuses s scope v (.member (.classDef cls) name) (.memberUse name (s.classes.name cls))
  | hiddenStatic {cls holder : Ref .classDef} {name : String} {old : Value} :
      s.classes.findStatic cls name = some (holder, old) →
      mayUse s scope holder (s.classes.staticVisibility holder name) = false →
      Refuses s scope v (.member (.classDef cls) name) (.memberPrivate name (s.classes.name holder))
  | unassignable {receiver : Value} {name : String} :
      ¬ receiver.HasMembers →
      Refuses s scope v (.member receiver name)
        (.general ("cannot assign member '" ++ name ++ "' on " ++ s.typeName receiver))
  -- calls that are refused themselves
  | arity {place : Place} {f : Closure} {args : List Value} {binding : Binding} :
      place.Calls s scope v f args binding → f.accepts args.length = false →
      Refuses s scope v place (.argumentCount f.arityLabel args.length)
  | depth {place : Place} {f : Closure} {args : List Value} {binding : Binding} :
      place.Calls s scope v f args binding → f.accepts args.length = true →
      Function.maxDepth ≤ s.stack.depth (s.scopes.task scope) →
      Refuses s scope v place (.general ("maximum call depth of " ++ toString Function.maxDepth ++
        " exceeded in '" ++ f.name ++ "'"))

/-! ### What a write does -/

section

variable {E : Engine} {span : Span} {place : Place} {cause : Cause} {cell : Cell}

/-- Asking for a member goes on if the code may use it, and fails otherwise; the state stays. -/
theorem requireMember_apply (owner : Ref .classDef) (visibility : Visibility) (name : String) :
    Object.requireMember scope owner visibility name span s =
      if mayUse s scope owner visibility then .done () s
      else .stop (.fault ⟨.memberPrivate name (s.classes.name owner), span⟩) s := by
  unfold Object.requireMember
  rw [gets_bind_apply]
  cases mayUse s scope owner visibility <;> rfl

/-- A field is written to by whoever may use it. -/
theorem set_field {r : Ref .object} {name : String} {owner : Ref .classDef}
    {visibility : Visibility}
    (hfield : s.classes.findField (classOf s r) name = some (owner, visibility)) :
    Object.set E scope r name v span s =
      if mayUse s scope owner visibility then .done () (s.put v (.field r name))
      else .stop (.fault ⟨.memberPrivate name (s.classes.name owner), span⟩) s := by
  unfold Object.set
  simp only [Eval.classOf, gets_bind_apply, hfield]
  rw [bind_apply, requireMember_apply]
  -- the two outcomes of the check, each the branch of the `if` that it names
  cases mayUse s scope owner visibility <;> rfl

/-- A property that no field hides is written to by its setter, for whoever may use it. -/
theorem set_property {r : Ref .object} {name : String} {owner : Ref .classDef} {p : PropertyDef}
    (hfield : s.classes.findField (classOf s r) name = none)
    (hproperty : s.classes.findProperty (classOf s r) name = some (owner, p)) :
    Object.set E scope r name v span s =
      if mayUse s scope owner p.visibility then
        match p.setter with
        | some f => discard (Function.run E scope f [v] span ⟨some (.object r), some owner⟩) s
        | none => .stop (.fault ⟨.propertyUse name (s.classes.name owner), span⟩) s
      else .stop (.fault ⟨.memberPrivate name (s.classes.name owner), span⟩) s := by
  unfold Object.set
  simp only [Eval.classOf, gets_bind_apply, hfield, hproperty]
  rw [bind_apply, requireMember_apply]
  cases mayUse s scope owner p.visibility with
  | false => rfl
  -- a setter runs, or there is none and the property is read-only
  | true => cases p.setter <;> rfl

/-- A static field is written to in the class that holds it, by whoever may use it. -/
theorem setStatic_found {cls holder : Ref .classDef} {name : String} {old : Value}
    (hfound : s.classes.findStatic cls name = some (holder, old)) :
    Object.setStatic scope cls name v span s =
      if mayUse s scope holder (s.classes.staticVisibility holder name) then
        .done () (s.put v (.static holder name))
      else .stop (.fault ⟨.memberPrivate name (s.classes.name holder), span⟩) s := by
  unfold Object.setStatic
  simp only [gets_bind_apply, hfound]
  rw [bind_apply, requireMember_apply]
  cases mayUse s scope holder (s.classes.staticVisibility holder name) <;> rfl

/-- An index that is an integer is taken as it is. -/
theorem integerIndex_apply {index : Value} {i : Int64} (h : index.asInt? = some i) :
    Access.integerIndex index span s = .done i s := by
  unfold Access.integerIndex
  rw [h]
  rfl

/-- An object whose chain has an indexer takes an integer for an index. -/
theorem indexerOf_apply {r : Ref .object} {found : Ref .classDef × IndexerDef} (n : Int64)
    (h : s.classes.findIndexer (classOf s r) = some found) :
    Object.indexerOf r (.int n) span s = .done found s := by
  unfold Object.indexerOf
  simp only [Eval.classOf, gets_bind_apply, h]
  rfl

/-- A write that calls a function of the program does nothing else. -/
theorem Calls.write_eq {f : Closure} {args : List Value} {binding : Binding}
    (h : place.Calls s scope v f args binding) :
    place.write E scope span v s = discard (Function.run E scope f args span binding) s := by
  cases h with
  | property hfield hproperty hmay hsetter =>
    refine (set_property hfield hproperty).trans ?_
    rw [if_pos hmay, hsetter]
  | @indexer r n owner i f hindexer hsetter =>
    -- `setAt` on an object is the indexer's; the index is an integer, so the lookup comes through
    show Object.setAt E scope r (.int n) v span s = _
    unfold Object.setAt
    rw [bind_of_done (indexerOf_apply n hindexer)]
    simp only [hsetter]

/-- **What is refused fails, and nothing has changed.** -/
theorem Refuses.write_eq (h : place.Refuses s scope v cause) :
    place.write E scope span v s = .stop (.fault ⟨cause, span⟩) s := by
  -- by the reason: each unfolds the write as far as the check that fails
  cases h with
  | @constant name h =>
    show Eval.rebindName scope name v span s = _
    unfold Eval.rebindName
    rw [gets_bind_apply, Eval.bindName, Eval.writeName, if_pos h]
  | @notInteger r index h =>
    show Access.setAt E scope (.array r) index v span s = _
    unfold Access.setAt Access.integerIndex
    simp only [h]
    rfl
  | @outOfRange r index i items hitems hi h =>
    -- the position is out of range, and the host looks for it before it writes
    have hnone : Access.position? i ((s.heap.arrays.get? r).getD #[]).size = none := by
      rw [hitems]
      exact Access.position?_eq_none_iff.mpr h
    refine (bind_of_done (integerIndex_apply hi) _).trans ?_
    simp only [Eval.arrayItems, gets_bind_apply, hnone]
    rfl
  | @unhashable r index h =>
    show Access.setAt E scope (.hash r) index v span s = _
    unfold Access.setAt Access.hashKey
    simp only [h]
    rfl
  | ofTuple => rfl
  | ofText => rfl
  | @notIndexable container index h =>
    -- the five kinds that have elements are no case of this
    cases container with
    | array | tuple | text | hash | object => exact absurd trivial h
    | _ => rfl
  | @noIndexer r index h =>
    refine bind_of_stop ?_ _
    unfold Object.indexerOf
    simp only [Eval.classOf, gets_bind_apply, h]
    rfl
  | @indexType r index found h hindex =>
    refine bind_of_stop ?_ _
    unfold Object.indexerOf
    simp only [Eval.classOf, gets_bind_apply, h]
    cases index with
    | int n => exact absurd rfl (hindex n)
    | _ => rfl
  | @indexerReadOnly r n owner i h hsetter =>
    show Object.setAt E scope r (.int n) v span s = _
    unfold Object.setAt
    rw [bind_of_done (indexerOf_apply n h)]
    simp only [hsetter]
    rfl
  | @undeclared r name hfield hproperty =>
    show Object.set E scope r name v span s = _
    unfold Object.set
    -- a field comes before a property, so both have to be absent
    simp only [Eval.classOf, gets_bind_apply, hfield, hproperty]
    rfl
  | hiddenField hfield hmay => exact (set_field hfield).trans (if_neg (by simp [hmay]))
  | hiddenProperty hfield hproperty hmay =>
    exact (set_property hfield hproperty).trans (if_neg (by simp [hmay]))
  | readOnly hfield hproperty hmay hsetter =>
    refine (set_property hfield hproperty).trans ?_
    rw [if_pos hmay, hsetter]
  | @noStatic cls name h =>
    show Object.setStatic scope cls name v span s = _
    unfold Object.setStatic
    simp only [gets_bind_apply, h]
    rfl
  | hiddenStatic h hmay => exact (setStatic_found h).trans (if_neg (by simp [hmay]))
  | @unassignable receiver name h =>
    cases receiver with
    | object | classDef | hash => exact absurd trivial h
    | _ => rfl
  | arity h hargs =>
    -- the setter is there, but the call of it is refused before its body
    rw [h.write_eq]
    refine bind_of_stop ?_ _
    rw [Function.run_apply, Function.refusal?, hargs]
    rfl
  | depth h hargs hdepth =>
    -- the number of arguments is right, so the check of the depth is the one that fails
    rw [h.write_eq]
    refine bind_of_stop ?_ _
    rw [Function.run_apply, Function.refusal?, hargs, if_neg (by decide), if_pos hdepth]

/-- **What aims at a cell puts the value there.** -/
theorem Aims.write_eq (h : place.Aims s scope cell) :
    place.write E scope span v s = .done () (s.put v cell) := by
  -- by the cell: each check on the way to it comes through
  cases h with
  | @name name h =>
    show Eval.rebindName scope name v span s = _
    unfold Eval.rebindName
    rw [gets_bind_apply, Eval.bindName, Eval.writeName, if_neg (by simp [h])]
    rfl
  | @element r index i items p hitems hi hp h =>
    -- the position that the index means is the one of the cell
    have hsome : Access.position? i ((s.heap.arrays.get? r).getD #[]).size = some p := by
      rw [hitems]
      exact Access.position?_eq_some_iff.mpr ⟨hp, h⟩
    refine (bind_of_done (integerIndex_apply hi) _).trans ?_
    simp only [Eval.arrayItems, gets_bind_apply, hsome]
    rfl
  | entry h => exact write_index_hash h
  | member => exact write_member_hash
  | field hfield hmay => exact (set_field hfield).trans (if_pos hmay)
  | static h hmay => exact (setStatic_found h).trans (if_pos hmay)

/-- **What has been written is read again.** -/
theorem Aims.read_eq (h : place.Aims s scope cell) (hroom : s.HasRoom cell) :
    place.read E scope span (s.put v cell) = .done v (s.put v cell) := by
  -- by the cell again: the lookup that found it before the write finds it now
  cases h with
  | @name name h =>
    -- the holder of a name stays the holder, though its bindings have changed
    have hget : (s.put v (.binding (s.scopes.holder scope name) name)).scopes.get? scope name =
        some v := ScopeTree.get?_modify_holder v hroom
    show Access.lookup scope name span _ = _
    unfold Access.lookup
    simp only [gets_bind_apply, hget]
    rfl
  | @element r index i items p hitems hi hp h =>
    have hitems' : (s.put v (.element r p)).heap.arrays.get? r = some (items.setIfInBounds p v) :=
      Table.get?_modify_self hitems
    show (Eval.arrayItems r >>= fun items => Access.itemAt items index span) _ = _
    simp only [Eval.arrayItems, gets_bind_apply, hitems', Option.getD_some]
    unfold Access.itemAt
    rw [bind_of_done (integerIndex_apply hi), Array.size_setIfInBounds,
      Access.position?_eq_some_iff.mpr ⟨hp, h⟩, Option.bind_some,
      Array.getElem?_setIfInBounds_self_of_lt hp]
    rfl
  | @entry r index k h =>
    rw [read, Access.getAt_hash h, State.put, State.hash_editHash_self hroom,
      Assoc.get?_insert_self]
    rfl
  | @member r name =>
    rw [read, Access.getMember_hash, State.put, State.hash_editHash_self hroom,
      Assoc.get?_insert_self]
    rfl
  | @field r name owner visibility hfield hmay =>
    obtain ⟨o, ho⟩ := Option.isSome_iff_exists.mp hroom
    have ho' : (s.put v (.field r name)).heap.objects.get? r =
        some { o with fields := o.fields.insert name v } := Table.get?_modify_self ho
    -- classes have not changed, nor has the class of the object, so the field is still declared
    have hfield' : (s.put v (.field r name)).classes.findField
        (Use.classOf (s.put v (.field r name)) r) name = some (owner, visibility) := by
      rw [Use.classOf, ho', ← hfield, Use.classOf, ho]
      rfl
    have hmay' : mayUse (s.put v (.field r name)) scope owner visibility = true := hmay
    show Object.get E scope r name span _ = _
    unfold Object.get
    simp only [Eval.classOf, gets_bind_apply, hfield']
    rw [bind_apply, requireMember_apply, hmay']
    -- what is left is that the cell holds what was put there
    exact congrArg (fun o : Option Value => Run.done (o.getD .nil) (s.put v (.field r name)))
      (State.at?_put_self hroom)
  | @static cls holder name old h hmay =>
    -- the check is asked in the state after the write, where the subclass relation is the same
    have hmay' : mayUse (s.put v (.static holder name)) scope holder
        ((s.put v (.static holder name)).classes.staticVisibility holder name) = true := by
      simp only [State.put, ClassTable.staticVisibility_setStatic]
      rw [← hmay]
      unfold Object.mayUse
      simp only [ClassTable.isSubclass_setStatic]
    have hstatic : (s.put v (.static holder name)).classes.findStatic cls name = some (holder, v) :=
      ClassTable.findStatic_setStatic v h
    show Object.getStatic scope cls name span _ = _
    unfold Object.getStatic
    simp only [gets_bind_apply, hstatic]
    rw [bind_apply, requireMember_apply, hmay']
    rfl

/-! ### Every write -/

/-- A call of a setter is refused, for its arguments or its depth, or its body runs. -/
theorem Calls.refused_or_runsCode {f : Closure} {args : List Value} {binding : Binding}
    (h : place.Calls s scope v f args binding) :
    (∃ cause, place.Refuses s scope v cause) ∨ place.RunsCode s scope v := by
  cases hargs : f.accepts args.length with
  | false => exact .inl ⟨_, .arity h hargs⟩
  | true =>
    by_cases hdepth : Function.maxDepth ≤ s.stack.depth (s.scopes.task scope)
    · exact .inl ⟨_, .depth h hargs hdepth⟩
    · exact .inr ⟨f, args, binding, h, hargs, Nat.lt_of_not_le hdepth⟩

/-- An element of an array is written, or there is none. -/
theorem array_refused_or_aims (r : Ref .array) (index : Value) :
    (∃ cause, (Place.index (.array r) index).Refuses s scope v cause) ∨
      ∃ cell, (Place.index (.array r) index).Aims s scope cell := by
  cases hi : index.asInt? with
  | none => exact .inl ⟨_, .notInteger hi⟩
  | some i =>
    cases hp : Access.position? i ((s.heap.arrays.get? r).getD #[]).size with
    | none => exact .inl ⟨_, .outOfRange rfl hi (Access.position?_eq_none_iff.mp hp)⟩
    | some p =>
      obtain ⟨hlt, hplace⟩ := Access.position?_eq_some_iff.mp hp
      cases hitems : s.heap.arrays.get? r with
      -- where there is no array, there is no position in it
      | none => simp [hitems] at hlt
      | some items =>
        rw [hitems] at hlt hplace
        exact .inr ⟨_, .element hitems hi hlt hplace⟩

/-- An element of an object is written by its indexer. -/
theorem indexer_refused_or_runsCode (r : Ref .object) (index : Value) :
    (∃ cause, (Place.index (.object r) index).Refuses s scope v cause) ∨
      (Place.index (.object r) index).RunsCode s scope v := by
  cases hfound : s.classes.findIndexer (Use.classOf s r) with
  | none => exact .inl ⟨_, .noIndexer hfound⟩
  | some found =>
    obtain ⟨owner, i⟩ := found
    -- indexers take integers only
    cases index with
    | int n =>
      cases hsetter : i.setter with
      | none => exact .inl ⟨_, .indexerReadOnly hfound hsetter⟩
      | some f => exact (Calls.indexer hfound hsetter).refused_or_runsCode
    | _ => exact .inl ⟨_, .indexType hfound nofun⟩

/-- A property that no field hides is written by its setter. -/
theorem property_refused_or_runsCode {r : Ref .object} {name : String}
    (hfield : s.classes.findField (classOf s r) name = none) :
    (∃ cause, (Place.member (.object r) name).Refuses s scope v cause) ∨
      (Place.member (.object r) name).RunsCode s scope v := by
  cases hproperty : s.classes.findProperty (Use.classOf s r) name with
  | none => exact .inl ⟨_, .undeclared hfield hproperty⟩
  | some found =>
    obtain ⟨owner, p⟩ := found
    cases hmay : mayUse s scope owner p.visibility with
    | false => exact .inl ⟨_, .hiddenProperty hfield hproperty hmay⟩
    | true =>
      cases hsetter : p.setter with
      | none => exact .inl ⟨_, .readOnly hfield hproperty hmay hsetter⟩
      | some f => exact (Calls.property hfield hproperty hmay hsetter).refused_or_runsCode

/-- A static field is written, or there is none that may be. -/
theorem static_refused_or_aims (cls : Ref .classDef) (name : String) :
    (∃ cause, (Place.member (.classDef cls) name).Refuses s scope v cause) ∨
      ∃ cell, (Place.member (.classDef cls) name).Aims s scope cell := by
  cases hstatic : s.classes.findStatic cls name with
  | none => exact .inl ⟨_, .noStatic hstatic⟩
  | some found =>
    obtain ⟨holder, old⟩ := found
    cases hmay : mayUse s scope holder (s.classes.staticVisibility holder name) with
    | false => exact .inl ⟨_, .hiddenStatic hstatic hmay⟩
    | true => exact .inr ⟨_, .static hstatic hmay⟩

/-- **Every write is refused, aims at a cell, or runs code of the program.** -/
theorem refused_or_aims_or_runsCode (place : Place) (s : State) (scope : Ref .scope) (v : Value) :
    (∃ cause, place.Refuses s scope v cause) ∨ (∃ cell, place.Aims s scope cell) ∨
      place.RunsCode s scope v := by
  -- by the form of the place, and then by the value that it is a place of
  cases place with
  | name name =>
    cases h : s.scopes.isConstIn (s.scopes.holder scope name) name with
    | true => exact .inl ⟨_, .constant h⟩
    | false => exact .inr (.inl ⟨_, .name h⟩)
  | index container index =>
    cases container with
    | array r => exact (array_refused_or_aims r index).imp_right .inl
    | hash r =>
      cases hk : Key.ofValue? index with
      | none => exact .inl ⟨_, .unhashable hk⟩
      | some k => exact .inr (.inl ⟨_, .entry hk⟩)
    | tuple r => exact .inl ⟨_, .ofTuple⟩
    | text t => exact .inl ⟨_, .ofText⟩
    | object r => exact (indexer_refused_or_runsCode r index).imp_right .inr
    | _ => exact .inl ⟨_, .notIndexable id⟩
  | member receiver name =>
    cases receiver with
    | hash r => exact .inr (.inl ⟨_, .member⟩)
    | object r =>
      -- fields first, as in the write itself
      cases hfield : s.classes.findField (Use.classOf s r) name with
      | none => exact (property_refused_or_runsCode hfield).imp_right .inr
      | some found =>
        obtain ⟨owner, visibility⟩ := found
        cases hmay : mayUse s scope owner visibility with
        | false => exact .inl ⟨_, .hiddenField hfield hmay⟩
        | true => exact .inr (.inl ⟨_, .field hfield hmay⟩)
    | classDef cls => exact (static_refused_or_aims cls name).imp_right .inl
    | _ => exact .inl ⟨_, .unassignable id⟩

end

/-- **A refused write changes nothing, and any other changes one cell,** unless it runs code of the
program. Every write is refused, aims at a cell, or is a call of a setter that the program has
declared. A refused write fails for the reason it is refused for, in the state it began in. A write
that aims at a cell which is there succeeds: the cell holds the value, and so reads the place; every
other binding, element, entry, field and static field is as before, and all else in the state is. -/
theorem write_outcome (E : Engine) (scope : Ref .scope) (span : Span) (v : Value) (place : Place)
    (s : State) :
    (∀ cause, place.Refuses s scope v cause →
      place.write E scope span v s = .stop (.fault ⟨cause, span⟩) s) ∧
    (∀ cell, place.Aims s scope cell → s.HasRoom cell →
      place.write E scope span v s = .done () (s.put v cell) ∧
      place.read E scope span (s.put v cell) = .done v (s.put v cell) ∧
      (s.put v cell).at? cell = some v ∧
      (∀ other, other ≠ cell → (s.put v cell).at? other = s.at? other) ∧
      (s.put v cell).hollow = s.hollow) ∧
    (∀ f args binding, place.Calls s scope v f args binding →
      place.write E scope span v s = discard (Function.run E scope f args span binding) s) ∧
    ((∃ cause, place.Refuses s scope v cause) ∨ (∃ cell, place.Aims s scope cell) ∨
      place.RunsCode s scope v) :=
  ⟨fun _ h => h.write_eq,
    fun _ h hroom => ⟨h.write_eq, h.read_eq hroom, State.at?_put_self hroom,
      fun _ hother => State.at?_put_of_ne hother, State.hollow_put⟩,
    fun _ _ _ h => h.write_eq, refused_or_aims_or_runsCode place s scope v⟩

/-- A state with one array of two items. -/
def withPair : State :=
  { State.blank with
    heap := { State.blank.heap with arrays := ⟨#[#[.int 1, .int 2]]⟩ } }

/-- The last item can be written to, the one after it cannot. -/
theorem write_outcome_pair :
    (write .idle State.root .unknown (.int 7) (.index (.array ⟨0⟩) (.int (-1))) withPair =
        .done () (withPair.put (.int 7) (.element ⟨0⟩ 1)) ∧
      read .idle State.root .unknown (.index (.array ⟨0⟩) (.int (-1)))
        (withPair.put (.int 7) (.element ⟨0⟩ 1)) =
          .done (.int 7) (withPair.put (.int 7) (.element ⟨0⟩ 1)) ∧
      (withPair.put (.int 7) (.element ⟨0⟩ 1)).at? (.element ⟨0⟩ 0) = some (.int 1)) ∧
    write .idle State.root .unknown (.int 7) (.index (.array ⟨0⟩) (.int 2)) withPair =
      .stop (.fault ⟨.indexRange 2, .unknown⟩) withPair := by
  have hitems : withPair.heap.arrays.get? ⟨0⟩ = some #[.int 1, .int 2] := rfl
  have houtcome (index : Int64) := write_outcome .idle State.root .unknown (.int 7)
    (.index (.array ⟨0⟩) (.int index)) withPair
  constructor
  · obtain ⟨hwrite, hread, -, hother, -⟩ := (houtcome (-1)).2.1 (.element ⟨0⟩ 1)
      (.element hitems rfl (by decide) (.inr (by decide))) ⟨_, hitems, by decide⟩
    exact ⟨hwrite, hread, hother (.element ⟨0⟩ 0) (by simp)⟩
  · exact (houtcome 2).1 (.indexRange (2 : Int64).toInt)
      (.outOfRange (congrArg (·.getD #[]) hitems) rfl (.inr (by decide)))

end Place

end ScriptEngine
