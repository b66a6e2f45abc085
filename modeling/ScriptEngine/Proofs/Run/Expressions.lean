import ScriptEngine.Proofs.Classes.Lookups
import ScriptEngine.Proofs.Run.Library

/-!
# How expressions are built

Objects and classes, calls and methods of any value, names, places and declarations, and then
every form of expression. What runs in a scope of its own (the fields of a new object), what is
called later and what acts for another scope (a packaged method) has a constructor of
`Eval.Built`; everything else is put together from the lemmas below.
-/

namespace ScriptEngine

open Eval

variable {E : Engine} {K : Knowledge} {x : Site} {c : Ref .scope} {α : Type}

/-- A function that is called is one that has been made. -/
@[grind ←] theorem Function.runRef_built (caller : Ref .scope)
    (r : Ref .closure) (args : List Value) (span : Span) :
    Built E K x caller (Function.runRef E caller r args span) := by
  refine .knowing (.gets _) (.gets _) fun found => ?_
  cases found with
  | none => exact .fail _ _
  | some f =>
    -- the function was found when the state was `t`, and functions are never taken away
    refine run_built span fun s _ hK => ?_
    obtain ⟨-, t, -, -, hf, hts⟩ := Knowledge.after_gets hK
    exact .function (hts.closures hf)

/-! ### Objects -/

namespace Object

variable (scope : Ref .scope) (r : Ref .object) (owner cls : Ref .classDef) (name : String)
  (args : List Value) (v index : Value) (span : Span)

/-- Nothing is done but to look up the class of the value and to suggest one of the known names. -/
@[grind ←] theorem noMethod_built (known : List String) :
    Built E K x c (noMethod v name known span : Eval α) := by
  grind [noMethod]

@[grind ←] theorem className_built : Built E K x c (className cls) := .gets _

@[grind ←] theorem requireMember_built (visibility : Visibility) :
    Built E K x scope (requireMember scope owner visibility name span) := by
  grind [requireMember]

@[grind ←] theorem requireMethod_built (visibility : Visibility) :
    Built E K x scope (requireMethod scope owner visibility name span) := by
  grind [requireMethod]

/-- The refusal of a name that no class declares looks at classes only. -/
@[grind ←] theorem badMember_built : Built E K x c (badMember name cls span : Eval α) := by
  grind [badMember]

/-- The check of one marker runs its `validate`, a call like any other. -/
@[grind ←] theorem checkMarking_built (f : Closure) (marking : Ref .classDef) :
    Built E K x c (checkMarking owner f args span marking) := by
  unfold checkMarking
  -- the marker may have been found or not; only in the first case is anything called
  refine .bind (.gets _) fun marker => ?_
  grind

/-- The indexer is looked up along the chain of the class, which changes nothing. -/
@[grind ←] theorem indexerOf_built : Built E K x c (indexerOf r index span) := by
  unfold indexerOf
  refine .bind (classOf_built r) fun cls => .bind (.gets _) fun found => ?_
  grind

/-- A static field is only read, after the check of its visibility. -/
@[grind ←] theorem getStatic_built : Built E K x scope (getStatic scope cls name span) := by
  unfold getStatic
  refine .bind (.gets _) fun classes => ?_
  grind

/-- A static field is stored only in a class that is found to declare it. -/
@[grind ←] theorem setStatic_built : Built E K x scope (setStatic scope cls name v span) := by
  unfold setStatic
  refine .bind (.gets _) fun classes => ?_
  split
  · exact .bind (requireMember_built ..) fun _ => storeStatic_built ..
  · grind

/-- A method that is run is one that its class declares. -/
theorem runMethod_built {m : MethodDef} (receiver : Option Value)
    (hm : ∀ s, s.Lawful → K.holds s → s.classes.HasMethod owner m) :
    Built E K x scope (runMethod E scope receiver owner m args span) :=
  .method receiver hm (.forList (fun _ => checkMarking_built ..) _)
    fun inner f args => Function.runBody_built inner f args span

/-- A method that is found is declared by its owner, which is what running it takes; a field that is
called, a built-in method and the failures need nothing to be known. -/
@[grind ←] theorem invoke_built : Built E K x scope (invoke E scope r name args span) := by
  unfold invoke
  refine .bind (classOf_built r) fun cls => .knowing (.gets _) (.gets _) fun classes => ?_
  split
  · next owner m hm =>
    split
    · grind
    -- the class table may have grown since the lookup, and `owner` declares `m` in it still
    · refine .bind (requireMethod_built ..) fun _ => runMethod_built _ _ _ _ _ fun s _ hK => ?_
      obtain ⟨hsound, hext⟩ := Knowledge.after_classes hK
      exact (hsound.hasMethod_of_findMethod hm).of_extends hext
  · refine .bind (field?_built r name) fun callee => ?_
    grind

/-- The value a new field starts with is computed in a fresh scope inside the one of its class. -/
@[grind ←] theorem firstValue_built (slot : Slot) :
    Built E K x scope (firstValue E scope r span slot) := by
  unfold firstValue
  split
  · -- the value of a field is computed in a scope of its own
    refine .within (enclosedScope_opens _ _ _) fun inner => ?_
    exact .bind (bindReceiver_built rfl _ _) fun _ => .expr _ rfl
  · exact .pure _

/-- The fields of a new object are those that its chain declared when it was made. -/
theorem create_built (hcls : ∀ s, K.holds s → (s.classes.class? cls).isSome) :
    Built E K x scope (create E scope cls span) := by
  unfold create
  refine .knowing (.gets _) (.gets _) fun classes => ?_
  refine .knowing (.modifyGet _) (newObject_built fun s hK => hcls s hK.1) fun r => ?_
  refine .bind (.forList_of_mem fun slot hslot => .bind (firstValue_built ..) fun v => ?_)
    fun _ => .pure _
  refine setField_built v fun s cls' _ ⟨hK, _, u, _, _, hnew, _, hus⟩ hof => ?_
  -- the object is of the class still, and the class declares what it declared
  have hr : u.IsOf r cls := by
    cases hnew
    exact ⟨_, Table.get?_add_self _ _, rfl⟩
  obtain rfl := (hus.isOf hr).eq hof
  obtain ⟨-, t, ht, hKt, rfl, hts⟩ := Knowledge.after_gets hK
  rw [hts.classes.mem_fieldNames_iff ht.classes (hcls t hKt)]
  exact mem_fieldNames_iff.mpr ⟨slot, hslot, rfl⟩

/-- The initialiser is a method that was found in the chain of the class; without one there is
nothing to run but the check that no arguments are given. -/
@[grind ←] theorem initialise_built : Built E K x scope (initialise E scope r cls args span) := by
  unfold initialise
  refine .knowing (.gets _) (.gets _) fun found => ?_
  split
  · next owner m =>
    refine .discard (runMethod_built _ _ _ _ _ fun s _ hK => ?_)
    obtain ⟨-, t, ht, -, hm, hts⟩ := Knowledge.after_gets hK
    exact (ht.classes.hasMethod_of_findMethod hm).of_extends hts.classes
  · grind

/-- The object is made once its class has been found, so `create` is given a class that is there. -/
@[grind ←] theorem instantiate_built : Built E K x scope (instantiate E scope cls args span) := by
  unfold instantiate
  refine .knowing (.gets _) (.gets _) fun classes => ?_
  refine .knowing (.ofOption _ _ _) (.ofOption _ _ _) fun c => ?_
  split
  · exact .fail _ _
  · refine .bind (create_built _ _ _ fun s ⟨hK, _, _, _, _, hc, _, _⟩ => ?_) fun r => ?_
    · -- the class has been looked up, so it is there
      cases h : classes.class? cls with
      | none =>
        rw [h] at hc
        exact nomatch hc
      | some d => exact (Knowledge.after_classes hK).2.isSome (by rw [h]; rfl)
    · grind

/-- A member is a field, the getter of a property or a method taken as a value. Only the getter runs
anything, and the lookup says that the class declares it. -/
@[grind ←] theorem get_built : Built E K x scope (get E scope r name span) := by
  unfold get
  refine .bind (classOf_built r) fun cls => .knowing (.gets _) (.gets _) fun classes => ?_
  split
  · grind
  · split
    · next owner p hp =>
      refine .bind (requireMember_built ..) fun _ => ?_
      split
      · next getter hgetter =>
        refine Function.run_built span fun s _ hK => .accessor ?_
        have haccessor := (ClassTable.hasAccessor_of_findProperty hp).1 hgetter
        exact haccessor.of_extends (Knowledge.after_classes hK).2
      · exact .fail _ _
    · grind

/-- A field is stored where the chain of the class declares one, and a setter is run where the class
declares it. -/
@[grind ←] theorem set_built : Built E K x scope (set E scope r name v span) := by
  unfold set
  refine .knowing (.gets _) (classOf_built r) fun cls => ?_
  refine .knowing (.gets _) (.gets _) fun classes => ?_
  split
  · next owner visibility hfound =>
    refine .bind (requireMember_built ..) fun _ => ?_
    -- the class was looked up before the check of visibility, and the object is of it still
    exact setField_built v fun s cls' _ hK hof => declared_of_after hK hfound hof
  · split
    · next owner p hp =>
      refine .bind (requireMember_built ..) fun _ => ?_
      split
      · next setter hsetter =>
        refine .discard (Function.run_built span fun s _ hK => .accessor ?_)
        have haccessor := (ClassTable.hasAccessor_of_findProperty hp).2 hsetter
        exact haccessor.of_extends (Knowledge.after_classes hK).2
      · exact .fail _ _
    · grind

/-- Reading at an index runs a getter that some class declared at an earlier state, and declares
now. -/
@[grind ←] theorem getAt_built : Built E K x scope (getAt E scope r index span) := by
  unfold getAt
  -- `indexerOf` may fail but does not wait, so that what it finds is known to what follows
  refine .knowing (indexerOf_immediate r index span) (indexerOf_built r index span)
    fun ⟨owner, indexer⟩ => ?_
  dsimp only
  split
  · next getter hgetter =>
    refine Function.run_built span fun s _ hK => .accessor ?_
    obtain ⟨t, cls, hi, hext⟩ := indexer_of_after hK
    exact ((ClassTable.hasAccessor_of_findIndexer hi).1 hgetter).of_extends hext
  · grind

/-- Writing at an index is the same with the setter. -/
@[grind ←] theorem setAt_built : Built E K x scope (setAt E scope r index v span) := by
  unfold setAt
  refine .knowing (indexerOf_immediate r index span) (indexerOf_built r index span)
    fun ⟨owner, indexer⟩ => ?_
  dsimp only
  split
  · next setter hsetter =>
    refine .discard (Function.run_built span fun s _ hK => .accessor ?_)
    obtain ⟨t, cls, hi, hext⟩ := indexer_of_after hK
    exact ((ClassTable.hasAccessor_of_findIndexer hi).2 hsetter).of_extends hext
  · grind

/-- A method that is declared static is run by its owner. The answers that every class gives run
nothing but the making of an object. -/
@[grind ←] theorem invokeStatic_built :
    Built E K x scope (invokeStatic E scope cls name args span) := by
  unfold invokeStatic
  refine .knowing (.gets _) (.gets _) fun classes => ?_
  split
  · next owner m hm =>
    split
    · refine .bind (requireMethod_built ..) fun _ => runMethod_built _ _ _ _ _ fun s _ hK => ?_
      obtain ⟨hsound, hext⟩ := Knowledge.after_classes hK
      exact (hsound.hasMethod_of_findMethod hm).of_extends hext
    · grind
  · split <;> grind

/-- The method that is run is found at a strict ancestor of the current class, and declared there. -/
@[grind ←] theorem invokeInherited_built (current : Ref .classDef) (receiver : Option Value) :
    Built E K x scope (invokeInherited E scope current receiver name args span) := by
  unfold invokeInherited
  refine .knowing (.gets _) (.gets _) fun classes => ?_
  split
  · next owner m hm =>
    refine .bind (requireMethod_built ..) fun _ => runMethod_built _ _ _ _ _ fun s _ hK => ?_
    obtain ⟨hsound, hext⟩ := Knowledge.after_classes hK
    exact (hsound.hasMethod_of_findInherited hm).of_extends hext
  · grind

/-- The arguments of a call through `super` are evaluated after the class has been looked up, and
before the method is. -/
@[grind ←] theorem invokeSuper_built (hx : x.home? = some scope) (args : List Expr) :
    Built E K x scope (invokeSuper E scope name args span) := by
  unfold invokeSuper
  refine .bind (.gets _) fun current => ?_
  split
  · grind
  · refine .bind (.gets _) fun receiver => .bind (Engine.exprs_built hx args) fun args => ?_
    exact invokeInherited_built ..

end Object

/-! ### Calls and methods of any value -/

namespace Dispatch

variable (scope : Ref .scope) (name : String) (args : List Value) (v : Value) (span : Span)

@[grind ←] theorem unanswered_built : Built E K x c (unanswered v name span : Eval α) := by
  grind [unanswered]

/-- A callee is a function, a built-in, a packaged method, or nothing that can be called. -/
theorem call_built : Built E .nothing x scope (call E scope v args span) := by
  unfold call
  split
  · grind
  · next f => exact Builtin.run_built ⟨scope, span, f.name⟩ args f.op
  · -- the one who packaged the method acts from here on
    exact .packaged (.pure _) fun b => .invoke ..
  · grind
  · grind

/-- A method is answered by an object, a class, an export of a package, or the method table of the
receiver's type. -/
theorem invoke_built : Built E .nothing x scope (invoke E scope v name args span) := by
  unfold invoke
  split
  · grind
  · grind
  · grind
  · split
    · grind
    · split
      -- built-in methods are found in a table, all of whose entries are quiet
      · next method hm => exact (Answering.find?_quiet hm ⟨scope, span, name⟩ args).built
      · grind

end Dispatch

/-! ### Names, indices, slices and members -/

namespace Access

variable (scope : Ref .scope) (name : String) (v index : Value) (span : Span)

@[grind ←] theorem unknownName_built :
    Built E K x scope (unknownName scope name span : Eval α) := by
  grind [unknownName]

@[grind ←] theorem lookup_built : Built E K x scope (lookup scope name span) := by
  grind [lookup]

@[grind ←] theorem namespace?_built (e : Expr) : Built E K x scope (namespace? scope e) := by
  grind [namespace?]

@[grind ←] theorem integerIndex_built : Built E K x c (integerIndex v span) := by
  grind [integerIndex]

@[grind ←] theorem hashKey_built : Built E K x c (hashKey v span) := by
  grind [hashKey]

@[grind ←] theorem itemAt_built (items : Array Value) :
    Built E K x c (itemAt items index span) := by
  grind [itemAt]

@[grind ←] theorem notIndexable_built : Built E K x c (notIndexable v span : Eval α) := by
  grind [notIndexable]

@[grind ←] theorem immutable_built : Built E K x c (immutable v span : Eval α) := .fail _ _

@[grind ←] theorem sliceOf_built (items : Array Value) (start stop : Option Int64) :
    Built E K x c (sliceOf items start stop span) := by
  grind [sliceOf]

/-- Collections and texts are read in place; an object is asked for its indexer. -/
@[grind ←] theorem getAt_built : Built E K x scope (getAt E scope v index span) := by
  unfold getAt
  split <;> grind

/-- A write goes to a list, a hash or the indexer of an object, and is refused by all else. -/
@[grind ←] theorem setAt_built (w : Value) : Built E K x scope (setAt E scope v index w span) := by
  unfold setAt
  split <;> grind

/-- Objects, classes, hashes and packages have members to read. -/
@[grind ←] theorem getMember_built : Built E K x scope (getMember E scope v name span) := by
  unfold getMember
  split <;> grind

/-- Objects, classes and hashes have members to write. -/
@[grind ←] theorem setMember_built (w : Value) :
    Built E K x scope (setMember E scope v name w span) := by
  unfold setMember
  split <;> grind

variable {scope} (hx : x.home? = some scope)

include hx

@[grind ←] theorem sliceBound_built (e : Option Expr) :
    Built E K x scope (sliceBound E scope e) := by
  cases e <;> grind [sliceBound]

/-- The object comes before the two bounds, and all three before the slice is taken. -/
@[grind ←] theorem slice_built (object : Expr) (start stop : Option Expr) :
    Built E K x scope (slice E scope object start stop span) := by
  unfold slice
  refine .bind (Engine.operand_built hx object) fun container => ?_
  refine .bind (sliceBound_built hx start) fun start => ?_
  refine .bind (sliceBound_built hx stop) fun stop => ?_
  split <;> grind

@[grind ←] theorem member_built (object : Expr) :
    Built E K x scope (member E scope object name span) := by
  grind [member]

end Access

/-! ### Places -/

namespace Place

variable {scope : Ref .scope} (hx : x.home? = some scope) (span : Span)

include hx

/-- What the place is made of is evaluated, and nothing is read or written yet. -/
@[grind ←] theorem ofExpr_built (target : Expr) : Built E K x scope (ofExpr E scope target) := by
  unfold ofExpr
  split <;> grind

omit hx in
@[grind ←] theorem read_built (place : Place) : Built E K x scope (place.read E scope span) := by
  cases place <;> grind [read]

/-- Every kind of place is written by the function for its kind. -/
@[grind ←] theorem write_built (v : Value) (place : Place) :
    Built E K x scope (place.write E scope span v) := by
  cases place <;> grind [write]

/-- The target is evaluated once, also by a compound assignment, which reads it after. -/
@[grind ←] theorem assign_built (op : AssignOp) (target value : Expr) :
    Built E K x scope (assign E scope op target value span) := by
  unfold assign
  refine .bind (ofExpr_built hx target) fun place => ?_
  split
  · grind
  · grind

/-- The same for `++` and `--`, where no value is evaluated. -/
@[grind ←] theorem step_built (op : PostfixOp) (target : Expr) :
    Built E K x scope (step E scope op target span) := by
  grind [step]

end Place

/-! ### Declarations -/

namespace Declaration

variable (scope : Ref .scope) (name : String) (span : Span)

@[grind ←] theorem resolve_built : Built E K x scope (resolve scope name span) := by
  grind [resolve]

@[grind ←] theorem markingClass_built : Built E K x scope (markingClass scope span name) := by
  grind [markingClass]

/-- The parent is looked up by its name, and has to be of the category that is declared. -/
@[grind ←] theorem parentOf_built (parent : Option String) (category : Category) :
    Built E K x scope (parentOf scope name parent category span) := by
  unfold parentOf
  split
  · grind
  · refine .bind (resolve_built ..) fun found => ?_
    split
    · grind
    · split <;> grind

/-- A declaration is entered or refused, and the class is not in the table yet. -/
@[grind ←] theorem addMember_built (d : ClassDef) (m : MemberDecl) :
    Built E K x scope (addMember scope d m) := by
  unfold addMember
  split
  split <;> grind

/-- By induction on the declarations that are left, for every class so far. -/
@[grind ←] theorem addMembers_built (d : ClassDef) (members : List MemberDecl) :
    Built E K x scope (addMembers scope d members) := by
  induction members generalizing d with
  | nil => exact .pure d
  | cons m rest ih => grind [addMembers]

variable {scope} (hx : x.home? = some scope)

include hx

/-- A static field is set once its class is in the table. -/
@[grind ←] theorem initStatic_built (r : Ref .classDef) (m : MemberDecl) :
    Built E K x scope (initStatic E scope r m) := by
  unfold initStatic
  split <;> grind

/-- A class is declared with a parent that is there. -/
@[grind ←] theorem run_built (decl : ClassDecl) : Built E K x scope (run E scope decl) := by
  cases decl with
  | mk name parent category members span =>
    simp only [run]
    refine .knowing (parentOf_immediate _ _ _ _ _) (parentOf_built ..) fun parent => ?_
    refine .knowing (addMembers_immediate _ _ _) (addMembers_built ..) fun d => ?_
    refine .bind (newClass_built fun s _ hK => admits_of_after hK) fun r => ?_
    grind

/-- The class is a name that is resolved, or an expression that has to come to a class. -/
@[grind ←] theorem instantiate_built (cls : Expr) (args : List Expr) :
    Built E K x scope (instantiate E scope cls args span) := by
  unfold instantiate
  split
  · refine .bind (resolve_built ..) fun r => ?_
    grind
  · refine .bind (Engine.operand_built hx cls) fun v => ?_
    grind

end Declaration

/-! ### Calls that happen later -/

namespace Capture

variable {scope : Ref .scope} (e : Expr) (span : Span)

/-- The callee and the arguments are evaluated on the spot, and a method is packaged with its
receiver. -/
@[grind ←] theorem call?_built (hx : x.home? = some scope) :
    Built E K x scope (call? E scope e) := by
  unfold call?
  split
  · grind
  · refine .bind (Access.namespace?_built ..) fun space => ?_
    grind
  · grind
  · grind

@[grind ←] theorem callable_built (hx : x.home? = some scope) (otherwise : Cause) :
    Built E K x scope (callable E scope e otherwise span) := by
  grind [callable]

/-- A deferred call stays with the scope whose statement registers it. -/
@[grind ←] theorem defer_built : Built E K (.stmt scope) scope (defer E scope e span) :=
  .defer (callable_built e span rfl .badDefer)

@[grind ←] theorem spawn_built (hx : x.home? = some scope) :
    Built E K x scope (spawn E scope e span) :=
  .spawn (callable_built e span hx .badSpawn)

end Capture

/-! ### Forms of expressions -/

namespace Expr

variable {scope : Ref .scope} (hx : x.home? = some scope)

include hx

/-- By induction on the pairs that are left, for every hash built so far. -/
@[grind ←] theorem entries_built (acc : Assoc Key Value) (pairs : List (Expr × Expr)) :
    Built E K x scope (entries E scope acc pairs) := by
  induction pairs generalizing acc with
  | nil => exact .pure acc
  | cons pair rest ih => grind [entries]

/-- An end of a range is an operand that has to be an integer. -/
@[grind ←] theorem rangeBound_built (e : Expr) : Built E K x scope (rangeBound E scope e) := by
  unfold rangeBound
  refine .bind (Engine.operand_built hx e) fun v => ?_
  split <;> grind

/-- The receiver is a namespace when its name is one, and a value otherwise. -/
@[grind ←] theorem methodCall_built (object : Expr) (method : String) (args : List Expr)
    (span : Span) : Built E K x scope (methodCall E scope object method args span) := by
  unfold methodCall
  refine .bind (Access.namespace?_built ..) fun space => ?_
  grind

/-- An expression acts for the scope it stands in. -/
theorem eval_built (e : Expr) : Built E .nothing x scope (eval E scope e) := by
  unfold eval
  extract_lets span
  -- one goal for each form, and each is a lemma above or the recursion of the engine
  split <;> grind

end Expr

end ScriptEngine
