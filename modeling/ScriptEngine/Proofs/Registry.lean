import Mathlib.Data.List.Induction
import ScriptEngine.Builtin.Library

/-!
# What the registry gives for a name

A history of the registry is a list of registrations, each of a function or a constant under a name
as it was given (`Registry.Registration`). The standard registry has a history (`defaults`), and a
batch of functions or constants adds its own to it (`Batch.registrations`).

A registration answers what is asked for under its folded name and leaves every other answer as it
was (`lookup_register`, `functionIn?_register`, `constantIn?_register`). From such a step
the answer after a history follows once and for all (`answer_after`): it is the last registration
of the history that has the name.

Functions and constants of a namespace are asked for one after the other, and not by age. So a
constant does not replace a function of the same name, however late it comes
(`lookups_not_latest`).
-/

namespace ScriptEngine

namespace Registry

/-! ### Histories -/

/-- A registration, with the names as they were given. -/
inductive Registration where
  /-- A global function. -/
  | function (name : String) (f : Native)
  /-- A function in a namespace. -/
  | functionIn (space name : String) (f : Native)
  /-- A constant in a namespace. -/
  | constantIn (space name : String) (v : Value)

namespace Registration

/-- What is registered. -/
def value : Registration → Value
  | function _ f => .native f
  | functionIn _ _ f => .native f
  | constantIn _ _ v => v

/-- The registration is of a global function of the name. -/
def isGlobal (name : String) : Registration → Bool
  | function n _ => fold n == fold name
  | _ => false

/-- The registration is of a function of the name in the namespace. -/
def isFunctionIn (space name : String) : Registration → Bool
  | functionIn s n _ => fold s == fold space && fold n == fold name
  | _ => false

/-- The registration is of a constant of the name in the namespace. -/
def isConstantIn (space name : String) : Registration → Bool
  | constantIn s n _ => fold s == fold space && fold n == fold name
  | _ => false

/-- The registration is of a member of the namespace that has the name. -/
def isMemberIn (space name : String) (e : Registration) : Bool :=
  e.isFunctionIn space name || e.isConstantIn space name

end Registration

/-- The registry with a registration added to it. -/
def register (r : Registry) : Registration → Registry
  | .function name f => { r with functions := r.functions.insert (fold name) f }
  | .functionIn space name f => r.addIn space name f
  | .constantIn space name v => r.defineVar space name v

/-- The registry after a history. -/
def after (r : Registry) (history : List Registration) : Registry := history.foldl register r

/-- The last registration of a history that `p` holds of. -/
def latest (p : Registration → Bool) (history : List Registration) : Option Registration :=
  history.reverse.find? p

/-- Functions or constants that are added at once. -/
inductive Batch where
  /-- Functions under their own names; an empty namespace stands for the global one. -/
  | functions (space : String) (batch : List Native)
  | vars (space : String) (batch : List (String × Value))

namespace Batch

/-- The registrations of a batch. -/
def registrations : Batch → List Registration
  | functions space batch =>
    batch.map fun f => if space = "" then .function f.name f else .functionIn space f.name f
  | vars space batch => batch.map fun (name, v) => .constantIn space name v

end Batch

/-- The registry with a batch added to it. -/
def add (r : Registry) : Batch → Registry
  | .functions space batch => r.addFunctions space batch
  | .vars space batch => r.addVars space batch

/-- The history of the standard registry. -/
def defaults : List Registration :=
  globals.map (fun (name, op) => .function name ⟨name, op⟩) ++
  qualified.map (fun (space, name, op) => .functionIn space name ⟨space ++ "." ++ name, op⟩) ++
  constants.flatMap fun (space, batch) => (Batch.vars space batch).registrations

/-- The history of the standard registry and of batches added to it. -/
def historyOf (batches : List Batch) : List Registration :=
  defaults ++ batches.flatMap Batch.registrations

variable {r : Registry} {space name : String}

/-- One history after the other. -/
theorem after_append (r : Registry) (h h' : List Registration) :
    r.after (h ++ h') = (r.after h).after h' :=
  List.foldl_append

/-- A history of registrations made from a list. -/
theorem after_map {β : Type} (r : Registry) (f : β → Registration) (l : List β) :
    r.after (l.map f) = l.foldl (fun r b => r.register (f b)) r :=
  List.foldl_map

/-- A batch is its registrations one by one. -/
theorem add_eq_after (r : Registry) (b : Batch) : r.add b = r.after b.registrations := by
  cases b with
  | functions space batch =>
    rw [Batch.registrations, after_map]
    refine congrArg (batch.foldl · r) (funext fun r => funext fun f => ?_)
    -- an empty namespace stands for none
    by_cases h : space = "" <;> simp [h, register]
  | vars space batch => rw [Batch.registrations, after_map]; rfl

/-- So are several batches. -/
theorem foldl_add (r : Registry) (batches : List Batch) :
    batches.foldl add r = r.after (batches.flatMap Batch.registrations) := by
  induction batches generalizing r with
  | nil => rfl
  | cons b rest ih =>
    rw [List.foldl_cons, ih, add_eq_after, List.flatMap_cons, after_append]

/-- And so are the constants of the standard registry. -/
theorem foldl_addVars (r : Registry) (vars : List (String × List (String × Value))) :
    vars.foldl (fun r (space, batch) => r.addVars space batch) r =
      r.after (vars.flatMap fun (space, batch) => (Batch.vars space batch).registrations) := by
  have h := foldl_add r (vars.map fun (space, batch) => .vars space batch)
  -- batches of constants are batches
  rwa [List.foldl_map, List.flatMap_map] at h

/-- **The standard registry has a history.** -/
theorem standard_eq_after : standard = empty.after defaults := by
  rw [defaults, after_append, after_append, ← foldl_addVars, after_map, after_map]
  rfl

/-- So has the standard registry with batches added to it. -/
theorem foldl_add_standard (batches : List Batch) :
    batches.foldl add standard = empty.after (historyOf batches) := by
  rw [foldl_add, standard_eq_after, historyOf, after_append]

/-! ### One registration -/

/-- The members of a namespace; there are none if it does not exist. -/
def namespaceOf (r : Registry) (space : String) : Namespace :=
  (r.namespaces.get? (fold space)).getD ⟨.empty, .empty⟩

/-- The function of a name in a namespace. -/
def functionIn? (r : Registry) (space name : String) : Option Value :=
  ((r.namespaceOf space).functions.get? (fold name)).map .native

/-- The constant of a name in a namespace. -/
def constantIn? (r : Registry) (space name : String) : Option Value :=
  (r.namespaceOf space).vars.get? (fold name)

/-- Functions come before constants. -/
theorem lookupIn_eq (r : Registry) (space name : String) :
    r.lookupIn space name = (r.functionIn? space name).or (r.constantIn? space name) := by
  rw [lookupIn, functionIn?, constantIn?, namespaceOf]
  -- a namespace that is not there has no members
  cases r.namespaces.get? (fold space) with
  | none => rfl
  | some n => cases hf : n.functions.get? (fold name) <;> simp [hf]

/-- A change to a namespace is one to all its spellings, and to no other namespace. -/
theorem namespaceOf_within (r : Registry) (s space : String) (f : Namespace → Namespace) :
    (r.within s f).namespaceOf space =
      if fold s == fold space then f (r.namespaceOf space) else r.namespaceOf space := by
  rw [within, namespaceOf, Assoc.get?_insert, namespaceOf]
  by_cases h : fold s = fold space <;> simp [h]

/-- A registration answers for its name among the global functions, and for no other. -/
theorem lookup_register (r : Registry) (e : Registration) (name : String) :
    (r.register e).lookup name = if e.isGlobal name then some e.value else r.lookup name := by
  cases e with
  | function n f =>
    rw [register, lookup, Assoc.get?_insert]
    -- a global function answers for the names with the same folded form
    by_cases hn : fold n = fold name <;> simp [hn, lookup, Registration.isGlobal, Registration.value]
  | functionIn s n f => rfl
  | constantIn s n v => rfl

/-- The same of functions in a namespace. -/
theorem functionIn?_register (r : Registry) (e : Registration) (space name : String) :
    (r.register e).functionIn? space name =
      if e.isFunctionIn space name then some e.value else r.functionIn? space name := by
  cases e with
  | function n f => rfl
  | functionIn s n f =>
    rw [register, addIn, functionIn?, namespaceOf_within, functionIn?]
    -- the namespace has to be the same, and then the name
    by_cases hs : fold s = fold space <;> by_cases hn : fold n = fold name <;>
      simp [hs, hn, Assoc.get?_insert, Registration.isFunctionIn, Registration.value]
  | constantIn s n v =>
    rw [register, defineVar, functionIn?, namespaceOf_within, functionIn?]
    by_cases hs : fold s = fold space <;> simp [hs, Registration.isFunctionIn]

/-- The same of constants in a namespace. -/
theorem constantIn?_register (r : Registry) (e : Registration) (space name : String) :
    (r.register e).constantIn? space name =
      if e.isConstantIn space name then some e.value else r.constantIn? space name := by
  cases e with
  | function n f => rfl
  | functionIn s n f =>
    rw [register, addIn, constantIn?, namespaceOf_within, constantIn?]
    by_cases hs : fold s = fold space <;> simp [hs, Registration.isConstantIn]
  | constantIn s n v =>
    rw [register, defineVar, constantIn?, namespaceOf_within, constantIn?]
    by_cases hs : fold s = fold space <;> by_cases hn : fold n = fold name <;>
      simp [hs, hn, Assoc.get?_insert, Registration.isConstantIn, Registration.value]

/-! ### Histories of registrations -/

/-- The last registration of a kind is the newest one, or one before it. -/
theorem latest_concat (p : Registration → Bool) (h : List Registration) (e : Registration) :
    latest p (h ++ [e]) = if p e then some e else latest p h := by
  rw [latest, List.reverse_append, List.reverse_singleton, List.singleton_append, List.find?_cons]
  cases p e <;> rfl

/-- There is none just if none is of the kind. -/
theorem latest_eq_none_iff {p : Registration → Bool} {h : List Registration} :
    latest p h = none ↔ ∀ e ∈ h, ¬ p e := by
  simp [latest]

/-- **An answer that registrations of a name change, and no others, is the last registration of
the name.** -/
theorem answer_after (answer : Registry → Option Value) {p : Registration → Bool}
    (hempty : answer empty = none)
    (hstep : ∀ r e, answer (register r e) = if p e then some e.value else answer r)
    (h : List Registration) : answer (empty.after h) = (latest p h).map (·.value) := by
  -- by induction on the history from its end, as the last registration decides
  induction h using List.reverseRecOn with
  | nil => exact hempty
  | append_singleton h e ih =>
    rw [after, List.foldl_append, List.foldl_cons, List.foldl_nil, hstep, latest_concat]
    split
    · rfl
    · exact ih

/-- The last member of a name is its last function, if it is one or if there is none. -/
theorem latest_member {h : List Registration} {e : Registration}
    (he : latest (·.isMemberIn space name) h = some e)
    (hfunction : e.isFunctionIn space name ∨ ∀ e' ∈ h, ¬ e'.isFunctionIn space name) :
    (latest (·.isFunctionIn space name) h).or (latest (·.isConstantIn space name) h) = some e := by
  induction h using List.reverseRecOn with
  | nil => cases he
  | append_singleton h e' ih =>
    rw [latest_concat] at he
    rw [latest_concat, latest_concat]
    by_cases hf : e'.isFunctionIn space name
    -- the last registration is a function of the name, so it answers
    · simpa [hf, Registration.isMemberIn] using he
    by_cases hc : e'.isConstantIn space name
    · obtain rfl : e' = e := by simpa [hc, Registration.isMemberIn] using he
      -- it is a constant, and then there is no function at all by the hypothesis
      have hnone := latest_eq_none_iff.mpr fun e₀ hmem =>
        (hfunction.resolve_left hf) e₀ (List.mem_append_left _ hmem)
      simp [hf, hc, hnone]
    -- it is neither, so the answer is the one from before
    · have he' : latest (·.isMemberIn space name) h = some e := by
        simpa [hf, hc, Registration.isMemberIn] using he
      simpa [hf, hc] using ih he' (hfunction.imp_right fun hall e₀ hmem =>
        hall e₀ (List.mem_append_left _ hmem))

/-- **A name stands for what was registered last, functions before constants.** After batches of any
kind on top of the standard registry, a global name gives the last global function whose name has
the same folded form. A name in a namespace gives the last function that was registered under it,
and only if there is none the last constant; so it gives the last member of the name unless a
constant came after a function. Names that have never been registered give nothing. -/
theorem lookups_latest (batches : List Batch) (space name : String) :
    let r := batches.foldl add standard
    let h := historyOf batches
    r.lookup name = (latest (·.isGlobal name) h).map (·.value) ∧
    r.lookupIn space name =
      ((latest (·.isFunctionIn space name) h).or (latest (·.isConstantIn space name) h)).map
        (·.value) ∧
    (∀ e, latest (·.isMemberIn space name) h = some e →
      (e.isFunctionIn space name ∨ ∀ e' ∈ h, ¬ e'.isFunctionIn space name) →
      r.lookupIn space name = some e.value) ∧
    (r.lookup name = none ↔ ∀ e ∈ h, ¬ e.isGlobal name) ∧
    (r.lookupIn space name = none ↔ ∀ e ∈ h, ¬ e.isMemberIn space name) := by
  intro r h
  have hr : r = empty.after h := foldl_add_standard batches
  have hglobal : r.lookup name = (latest (·.isGlobal name) h).map (·.value) :=
    hr ▸ answer_after (·.lookup name) rfl (fun r e => lookup_register r e name) h
  have hfunction : r.functionIn? space name = (latest (·.isFunctionIn space name) h).map (·.value) :=
    hr ▸ answer_after (·.functionIn? space name) rfl
      (fun r e => functionIn?_register r e space name) h
  have hconstant : r.constantIn? space name = (latest (·.isConstantIn space name) h).map (·.value) :=
    hr ▸ answer_after (·.constantIn? space name) rfl
      (fun r e => constantIn?_register r e space name) h
  have hmember : r.lookupIn space name =
      ((latest (·.isFunctionIn space name) h).or (latest (·.isConstantIn space name) h)).map
        (·.value) := by
    rw [lookupIn_eq, hfunction, hconstant]
    -- the registry asks for functions first, and so does the history
    cases latest (·.isFunctionIn space name) h <;> rfl
  refine ⟨hglobal, hmember, fun e he hf => ?_, ?_, ?_⟩
  · rw [hmember, latest_member he hf, Option.map_some]
  · rw [hglobal, Option.map_eq_none_iff, latest_eq_none_iff]
  · rw [hmember, Option.map_eq_none_iff, Option.or_eq_none_iff, latest_eq_none_iff, latest_eq_none_iff]
    -- a member is a function or a constant
    simp only [Registration.isMemberIn, Bool.or_eq_true, not_or, ← forall_and]

/-- The batches that the host adds to the standard registry. -/
def hostBatches : List Batch := [
  .functions "host" [⟨"echo", .host .echo⟩, ⟨"fail", .host .fail⟩, ⟨"apply", .host .apply⟩],
  .vars "host" [("VERSION", .text "1.0"), ("LIMIT", .int 7)],
  .functions "" [⟨"hostSum", .host .sum⟩]]

/-- The host adds its batches. -/
theorem withHost_eq (r : Registry) : r.withHost = hostBatches.foldl add r := rfl

/-- **The last registration is not always what a name gives.** A constant does not replace a
function of its name in the namespace. And two names that differ in letter case only need not have
the same lower-case form, which is all that is compared. -/
theorem lookups_not_latest :
    (let batches :=
      [Batch.functions "shapes" [⟨"side", .host .sum⟩], .vars "Shapes" [("SIDE", .int 4)]]
     (latest (·.isMemberIn "shapes" "side") (historyOf batches)).map (·.value) = some (.int 4) ∧
     (batches.foldl add standard).lookupIn "shapes" "side" = some (.native ⟨"side", .host .sum⟩)) ∧
    Text.upperText "VERſION" = Text.upperText "VERSION" ∧
    (hostBatches.foldl add standard).lookupIn "host" "VERSION" = some (.text "1.0") ∧
    (hostBatches.foldl add standard).lookupIn "host" "VERſION" = none := by
  simp only [← withHost_eq]
  -- what differs is folded, and compared, by the kernel
  refine ⟨⟨rfl, rfl⟩, ?_, rfl, ?_⟩ <;> decide +kernel

end Registry

end ScriptEngine
