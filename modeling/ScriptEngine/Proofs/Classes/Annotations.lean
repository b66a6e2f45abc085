import ScriptEngine.Eval.Object
import ScriptEngine.Proofs.Classes.Lawful
import ScriptEngine.Proofs.Run.Ends

/-!
# What annotations refuse

Before a method runs, its annotations are checked one after the other. A check either lets the call
in, and then the call does what the annotation asks for (`Upheld`); or it refuses the call, and then
`Violation` says what is wrong with the call and with which cause it fails. In both cases the state
stays as it is (`Object.checkMarking_cases`). So a method runs if all its annotations are upheld,
and otherwise its call is over before anything has happened (`Object.runMethod_cases`).
-/

namespace ScriptEngine

/-- The code of the faults that calls end with which do not do what a marker asks for. -/
def Marker.code : Marker → String
  | .overrides => "OVERRIDE_ERROR"
  | .notNull => "NULLABLE_ERROR"
  | .notEmpty => "GENERIC"

/-- Why an annotation refuses a call of the method `f` of the class `owner`. -/
inductive Violation (s : State) (owner : Ref .classDef) (f : Closure) (args : List Value)
    (marking : Ref .classDef) : Cause → Prop
  /-- No strict ancestor of the class defines the method. -/
  | overrides : s.classes.Descends marking (ClassTable.marking .overrides) →
      ¬ s.classes.Overrides owner f.name →
      Violation s owner f args marking (.noOverride f.name (s.classes.name owner))
  /-- The argument for the parameter is nil. -/
  | notNull {param : String} : s.classes.Descends marking (ClassTable.marking .notNull) →
      Object.firstParam? f args (·.isNil) = some param →
      Violation s owner f args marking (.isNull param)
  /-- The argument for the parameter is an empty text or collection. -/
  | notEmpty {param : String} : s.classes.Descends marking (ClassTable.marking .notEmpty) →
      Object.firstParam? f args (fun v => !v.isNil && s.isEmpty v) = some param →
      Violation s owner f args marking
        (.general ("argument '" ++ param ++ "' of method '" ++ f.name ++ "' must not be empty"))

open Eval

variable {s : State} {owner marking : Ref .classDef} {f : Closure} {args : List Value}

/-! ### What is looked at -/

/-- A method is found among the inherited ones if a strict ancestor defines it. -/
theorem ClassTable.Sound.isSome_findInherited_iff {t : ClassTable} (h : t.Sound) {name : String} :
    (t.findInherited owner name).isSome ↔ t.Overrides owner name := by
  -- above the class that is its parent the search goes along a chain
  have along : ∀ up, (t.findMethod up name).isSome ↔
      ∃ q d, t.Descends up q ∧ t.class? q = some d ∧ (d.methods.get? name).isSome := by
    intro up
    rw [findMethod, isSome_findAlong_iff]
    constructor
    · rintro ⟨⟨q, d⟩, hmem, hname⟩
      obtain ⟨hdesc, hd⟩ := h.mem_chain_iff.mp hmem
      exact ⟨q, d, hdesc, hd, hname⟩
    · rintro ⟨q, d, hdesc, hd, hname⟩
      exact ⟨(q, d), h.mem_chain_iff.mpr ⟨hdesc, hd⟩, hname⟩
  unfold findInherited Overrides
  cases hc : t.class? owner with
  | none => simp
  | some c =>
    cases hp : c.parent with
    | none => simp [hp]
    | some up => simp [hp, along up]

/-- No argument that satisfies `p` is found if there is none. -/
theorem Object.firstParam?_eq_none_iff {p : Value → Bool} :
    firstParam? f args p = none ↔ ∀ v ∈ args, p v = false := by
  simp [firstParam?, List.findIdx?_eq_none_iff]

theorem State.isEmpty_iff (v : Value) :
    (!v.isNil && s.isEmpty v) = true ↔ s.itemCount? v = some 0 := by
  cases v <;> simp [Value.isNil, isEmpty, itemCount?]

/-! ### The fault that a violation ends with -/

theorem Violation.exists_code {cause : Cause} (h : Violation s owner f args marking cause) :
    ∃ m, s.classes.Descends marking (ClassTable.marking m) ∧ cause.code = m.code := by
  cases h with
  | overrides hdesc _ => exact ⟨.overrides, hdesc, rfl⟩
  | notNull hdesc _ => exact ⟨.notNull, hdesc, rfl⟩
  | notEmpty hdesc _ => exact ⟨.notEmpty, hdesc, rfl⟩

/-- A call that an annotation refuses does not do what the annotation asks for. -/
theorem Violation.not_upheld {cause : Cause} (h : Violation s owner f args marking cause) :
    ¬ Upheld s owner f args marking := by
  intro hup
  cases h with
  | overrides hdesc hnot => exact hnot (hup.overrides hdesc)
  | notNull hdesc hfound =>
    -- what is asked for leaves no argument to be found
    have hnone : Object.firstParam? f args (·.isNil) = none :=
      Object.firstParam?_eq_none_iff.mpr (hup.notNull hdesc)
    exact nomatch hnone.symm.trans hfound
  | notEmpty hdesc hfound =>
    have hnone : Object.firstParam? f args (fun v => !v.isNil && s.isEmpty v) = none := by
      refine Object.firstParam?_eq_none_iff.mpr fun v hv => ?_
      rw [← Bool.not_eq_true, State.isEmpty_iff]
      exact hup.notEmpty hdesc v hv
    exact nomatch hnone.symm.trans hfound

/-- An annotation asks for one thing at most. -/
theorem Upheld.of_markerOf (hs : s.classes.Sound) {asked : Option Marker}
    (hasked : s.classes.markerOf marking = asked)
    (overrides : asked = some .overrides → s.classes.Overrides owner f.name)
    (notNull : asked = some .notNull → ∀ v ∈ args, v.isNil = false)
    (notEmpty : asked = some .notEmpty → ∀ v ∈ args, s.itemCount? v ≠ some 0) :
    Upheld s owner f args marking := by
  -- a class of annotations descends from one marker at most
  have hmarker : ∀ {m}, s.classes.Descends marking (ClassTable.marking m) → asked = some m :=
    fun hdesc => hasked.symm.trans (hs.markerOf_eq_some_iff.mpr hdesc)
  exact ⟨fun h => overrides (hmarker h), fun h => notNull (hmarker h),
    fun h => notEmpty (hmarker h)⟩

/-! ### Checks -/

namespace Object

variable (span : Span)

/-- **What a check does.** It lets the call in, which does what the annotation asks for, or refuses
it for what is wrong with it. -/
theorem checkMarking_cases (hs : s.classes.Sound) (owner : Ref .classDef) (f : Closure)
    (args : List Value) (marking : Ref .classDef) :
    checkMarking owner f args span marking s = .done () s ∧ Upheld s owner f args marking ∨
    ∃ cause, Violation s owner f args marking cause ∧
      checkMarking owner f args span marking s = .stop (.fault ⟨cause, span⟩) s := by
  unfold checkMarking
  rw [gets_bind_apply]
  -- an annotation that descends from no marker asks for nothing
  cases hm : s.classes.markerOf marking with
  | none => exact .inl ⟨rfl, .of_markerOf hs hm nofun nofun nofun⟩
  | some m =>
    have hasked : s.classes.Descends marking (ClassTable.marking m) :=
      hs.markerOf_eq_some_iff.mp hm
    -- each marker has its own check, and the check looks at what the marker asks for
    cases m with
    | overrides =>
      dsimp only
      rw [gets_bind_apply]
      cases hfound : s.classes.findInherited owner f.name with
      | none =>
        have hnot : ¬ s.classes.Overrides owner f.name := by
          rw [← hs.isSome_findInherited_iff, hfound]
          exact nofun
        exact .inr ⟨_, .overrides hasked hnot, rfl⟩
      | some found =>
        have hover : s.classes.Overrides owner f.name := by
          rw [← hs.isSome_findInherited_iff, hfound]
          rfl
        exact .inl ⟨rfl, .of_markerOf hs hm (fun _ => hover) nofun nofun⟩
    | notNull =>
      dsimp only
      cases hfound : firstParam? f args (·.isNil) with
      | none =>
        have hall := firstParam?_eq_none_iff.mp hfound
        exact .inl ⟨rfl, .of_markerOf hs hm nofun (fun _ => hall) nofun⟩
      | some param => exact .inr ⟨_, .notNull hasked hfound, rfl⟩
    | notEmpty =>
      dsimp only
      rw [gets_bind_apply]
      cases hfound : firstParam? f args (fun v => !v.isNil && s.isEmpty v) with
      | none =>
        have hall : ∀ v ∈ args, s.itemCount? v ≠ some 0 := by
          intro v hv
          rw [Ne, ← State.isEmpty_iff, Bool.not_eq_true]
          exact firstParam?_eq_none_iff.mp hfound v hv
        exact .inl ⟨rfl, .of_markerOf hs hm nofun nofun fun _ => hall⟩
      | some param => exact .inr ⟨_, .notEmpty hasked hfound, rfl⟩

/-- Several annotations are all upheld, or the first one that is not refuses the call. -/
theorem checkMarkings_cases (hs : s.classes.Sound) (owner : Ref .classDef) (f : Closure)
    (args : List Value) (markings : List (Ref .classDef)) :
    forList (checkMarking owner f args span) markings s = .done () s ∧
      (∀ a ∈ markings, Upheld s owner f args a) ∨
    ∃ before a after cause, markings = before ++ a :: after ∧
      (∀ b ∈ before, Upheld s owner f args b) ∧ Violation s owner f args a cause ∧
      forList (checkMarking owner f args span) markings s = .stop (.fault ⟨cause, span⟩) s := by
  -- by induction on the annotations, as the first one that refuses ends it
  induction markings with
  | nil => exact .inl ⟨rfl, nofun⟩
  | cons a rest ih =>
    obtain ⟨hdone, hup⟩ | ⟨cause, hviolated, hstop⟩ := checkMarking_cases span hs owner f args a
    · rw [forList, bind_of_done hdone]
      obtain ⟨hrest, hall⟩ | ⟨before, b, after, cause, rfl, hbefore, hviolated, hstop⟩ := ih
      · exact .inl ⟨hrest, List.forall_mem_cons.mpr ⟨hup, hall⟩⟩
      · exact .inr ⟨a :: before, b, after, cause, rfl, List.forall_mem_cons.mpr ⟨hup, hbefore⟩,
          hviolated, hstop⟩
    · rw [forList, bind_of_stop hstop]
      exact .inr ⟨[], a, rest, cause, rfl, nofun, hviolated, rfl⟩

variable {E : Engine} {scope : Ref .scope} {receiver : Option Value} {m : MethodDef}

/-- **What the call of a method does.** If its annotations are upheld, the method's function runs;
otherwise the call fails for the first annotation that is not, and the state is as before. -/
theorem runMethod_cases (hs : s.classes.Sound) (E : Engine) (scope : Ref .scope)
    (receiver : Option Value) (owner : Ref .classDef) (m : MethodDef) (args : List Value) :
    (∀ a ∈ m.annotations, Upheld s owner m.closure args a) ∧
      runMethod E scope receiver owner m args span s =
        Function.run E scope m.closure args span ⟨receiver, some owner⟩ s ∨
    ∃ before a after cause, m.annotations = before ++ a :: after ∧
      (∀ b ∈ before, Upheld s owner m.closure args b) ∧
      Violation s owner m.closure args a cause ∧
      runMethod E scope receiver owner m args span s = .stop (.fault ⟨cause, span⟩) s := by
  unfold runMethod
  obtain ⟨hdone, hall⟩ | ⟨before, a, after, cause, hsplit, hbefore, hviolated, hstop⟩ :=
    -- the checks come before the function, so a refusal is all that happens
    checkMarkings_cases span hs owner m.closure args m.annotations
  · exact .inl ⟨hall, bind_of_done hdone _⟩
  · exact .inr ⟨before, a, after, cause, hsplit, hbefore, hviolated, bind_of_stop hstop _⟩

end Object

end ScriptEngine
