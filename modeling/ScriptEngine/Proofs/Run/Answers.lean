import ScriptEngine.Eval.Dispatch
import ScriptEngine.Proofs.Equality.Operator
import ScriptEngine.Proofs.Run.Methods

/-!
# The names and the methods of built-in values

What a value that is neither an object nor a class nor a package says about its methods is written
down apart from the methods: a list of names for each kind of value, and a table of what answers
them. The lists and the tables agree (`Answering.names_ofValue`), so calls go one of two ways
(`Dispatch.invoke_builtin`). A name outside the list is refused, before anything happens. A name of
the list is answered by a method, and then no fault says that there is no such method, unless a call
that the method makes says so: methods are quiet, and quiet computations do not deny methods
(`Eval.Quiet.callMayFail`).
-/

namespace ScriptEngine

variable {α β : Type} {E : Engine} {c : Ref .scope}

/-! ### Faults that deny methods -/

namespace Run

/-- The run may fail with that fault, whatever happens while it waits. -/
def MayFail (r : Run α) (f : Fault) : Prop := ∃ t, r.EndsAmid (fun _ _ => True) (.error f) t

/-- A sequence fails in its first part or in what comes behind. -/
theorem MayFail.of_andThen {r : Run α} {g : α → State → Run β} {f : Fault}
    (h : (r.andThen g).MayFail f) : r.MayFail f ∨ ∃ a s, (g a s).MayFail f := by
  obtain ⟨t, h⟩ := h
  -- what comes later fails, or it is not reached
  rcases endsAmid_andThen_iff.mp h with ⟨a, s, -, ha⟩ | ⟨e, he, hr⟩
  · exact .inr ⟨a, s, t, ha⟩
  · cases he
    exact .inl ⟨t, hr⟩

/-- What is done in the end does not fail itself. -/
theorem MayFail.of_ensuring {r : Run α} {g : State → State} {f : Fault}
    (h : (r.ensuring g).MayFail f) : r.MayFail f := by
  obtain ⟨t, h⟩ := h
  -- by induction on the run: a fault comes with its last stretch
  induction r with
  | done a s => exact nomatch h
  | stop why s =>
    cases why with
    | fault e =>
      cases h
      exact ⟨s, .fault f s⟩
    | abort m => exact nomatch h
    | exhausted => exact nomatch h
  | wait w s resume ih =>
    obtain ⟨a, s', -, ha⟩ := endsAmid_wait_iff.mp h
    obtain ⟨t', ht⟩ := ih a s' ha
    exact ⟨t', .wait trivial ht⟩

end Run

/-- A call that the engine makes from the scope may fail with that fault. -/
def Engine.CallMayFail (E : Engine) (c : Ref .scope) (f : Fault) : Prop :=
  ∃ callee args span s, (E.call c callee args span s).MayFail f

/-- A quiet computation denies a method only if a call that it makes does. -/
theorem Eval.Quiet.callMayFail {m : Eval α} (hm : Quiet E c m) {s : State} {f : Fault}
    (hf : (m s).MayFail f) (hd : f.cause.DeniesMethod) : E.CallMayFail c f := by
  induction hm generalizing s with
  | pure a => exact nomatch hf.choose_spec
  | fail span hcause =>
    obtain ⟨t, h⟩ := hf
    cases h
    exact absurd hd hcause
  | abort message => exact nomatch hf.choose_spec
  | gets g => exact nomatch hf.choose_spec
  | await w =>
    -- a wait ends in an answer, which is no fault
    obtain ⟨t, h⟩ := hf
    obtain ⟨a, s', -, ha⟩ := Run.endsAmid_wait_iff.mp h
    exact nomatch ha
  | yieldTurn =>
    obtain ⟨t, h⟩ := hf
    unfold Eval.yieldTurn at h
    split at h
    · obtain ⟨a, s', -, ha⟩ := Run.endsAmid_wait_iff.mp h
      exact nomatch ha
    · exact nomatch h
  | bind _ _ ihm ihg =>
    rw [Eval.bind_apply] at hf
    -- the first computation fails, or the one behind it
    rcases hf.of_andThen with h | ⟨a, s', h⟩
    · exact ihm h
    · exact ihg a h
  | ensuring _ _ ihm => exact ihm hf.of_ensuring
  | modifyGet _ => exact nomatch hf.choose_spec
  | call callee args span => exact ⟨callee, args, span, s, hf⟩

/-! ### Names and methods -/

/-- The value is neither an object nor a class nor a package. -/
def Value.IsBuiltin : Value → Prop
  | .object _ => False
  | .classDef _ => False
  | .package _ => False
  | _ => True

/-- The tables of methods have the names that are listed, and no others. -/
theorem Answering.names_ofValue (v : Value) :
    (Answering.ofValue v).table.names = MethodNames.ofValue v := by
  -- both are given by the kind of the value
  cases v <;> rfl

/-- A name is answered if it is listed. -/
theorem Answering.find?_isSome_iff {v : Value} {name : String} :
    ((Answering.ofValue v).find? name).isSome ↔ name ∈ MethodNames.ofValue v := by
  rw [find?, Option.isSome_map, MethodTable.isSome_find?_iff, names_ofValue]

private theorem mem_eraseReps_loop {x a : String} {l acc : List String} :
    x ∈ List.eraseRepsBy.loop (· == ·) a l acc ↔ x = a ∨ x ∈ l ∨ x ∈ acc := by
  induction l generalizing a acc with
  | nil => simp [List.eraseRepsBy.loop, or_comm]
  | cons b l ih =>
    unfold List.eraseRepsBy.loop
    split <;> grind

/-- Taking repetitions out loses nothing. -/
theorem mem_eraseReps {x : String} {l : List String} : x ∈ l.eraseReps ↔ x ∈ l := by
  cases l with
  | nil => exact .rfl
  | cons a l =>
    unfold List.eraseReps List.eraseRepsBy
    simp [mem_eraseReps_loop]

/-- The names that are reported are those that are listed. -/
theorem State.mem_methodNames_iff {s : State} {v : Value} (hv : v.IsBuiltin) {name : String} :
    name ∈ s.methodNames v ↔ name ∈ MethodNames.ofValue v := by
  -- the names are sorted, and each of them is kept once
  cases v with
  | object | classDef | package => exact hv.elim
  | _ => exact mem_eraseReps.trans List.mem_mergeSort

/-- `methods` answers with an array in which the name is, for the value. -/
def State.Lists (s : State) (v : Value) (name : String) : Prop :=
  ∀ (E : Engine) (site : CallSite), ∃ r t items,
    Builtin.run E site [v] .methods s = .done (.array r) t ∧
      t.heap.arrays.get? r = some items ∧ .text name ∈ items

/-- So `methods` lists a name just if it is one of the names. -/
theorem State.lists_iff {s : State} {v : Value} {name : String} :
    s.Lists v name ↔ name ∈ s.methodNames v := by
  -- the array that is made has the names for items
  have hrun (E : Engine) (site : CallSite) : Builtin.run E site [v] .methods s =
      Eval.newArray ((s.methodNames v).map Value.text).toArray s := rfl
  constructor
  · intro h
    obtain ⟨r, t, items, hdone, hitems, hname⟩ := h .idle ⟨State.root, .unknown, ""⟩
    -- the array read back is the one just made
    rw [hrun] at hdone
    cases hdone
    cases (Table.get?_add_self s.heap.arrays _).symm.trans hitems
    simpa using hname
  · intro h E site
    exact ⟨_, _, _, hrun E site, Table.get?_add_self .., by simpa using h⟩

/-! ### Methods that call back -/

/-- The methods of a value that call what they are given, or the value itself. -/
def Value.callbacks : Value → List String
  | .array _ => ["map", "filter", "each", "reduce"]
  | .hash _ => ["each"]
  | .function _ => ["call"]
  | .native _ => ["call"]
  | .bound _ => ["call"]
  | .once _ => ["do"]
  | _ => []

/-- Only the methods of those names look at the engine. -/
def MethodTable.CallsOnlyIn (names : List String) (t : MethodTable α) : Prop :=
  ∀ e ∈ t, e.1 ∈ names ∨ ∀ E E', e.2 E = e.2 E'

namespace MethodTable

variable {names : List String} {t : MethodTable α}

/-- A table without entries. -/
@[simp] theorem callsOnlyIn_nil : CallsOnlyIn names ([] : MethodTable α) := nofun

/-- A table with one more entry. -/
@[simp] theorem callsOnlyIn_cons {name : String} {m : Method α} :
    CallsOnlyIn names ((name, m) :: t) ↔
      (name ∈ names ∨ ∀ E E', m E = m E') ∧ CallsOnlyIn names t :=
  List.forall_mem_cons

/-- Two tables, one behind the other. -/
theorem CallsOnlyIn.append {u : MethodTable α} (ht : CallsOnlyIn names t)
    (hu : CallsOnlyIn names u) : CallsOnlyIn names (t ++ u) :=
  List.forall_mem_append.mpr ⟨ht, hu⟩

/-- What is found in such a table. -/
theorem CallsOnlyIn.of_find? (ht : CallsOnlyIn names t) {name : String} {m : Method α}
    (h : t.find? name = some m) : name ∈ names ∨ ∀ E E', m E = m E' :=
  ht (name, m) (mem_of_find? h)

end MethodTable

/-- The methods of decimals call nothing back. -/
theorem Method.ofDecimal_callsOnlyIn (names : List String) :
    MethodTable.CallsOnlyIn names ofDecimal := by
  -- the methods of a decimal by hand, and those of its operators
  refine .append ?_ fun e he => ?_
  · simp only [MethodTable.callsOnlyIn_cons, MethodTable.callsOnlyIn_nil, implies_true, or_true,
      true_and]
    and_intros
    all_goals first | exact trivial | exact .inr fun _ _ => rfl
  · obtain ⟨op, -, rfl⟩ := List.mem_map.mp he
    exact .inr fun _ _ => rfl

namespace Answering

/-- **Methods call back only where it is written down.** -/
theorem ofValue_callsOnlyIn (v : Value) :
    MethodTable.CallsOnlyIn v.callbacks (ofValue v).table := by
  -- each table is gone through by its entries
  cases v
  case decimal => exact Method.ofDecimal_callsOnlyIn _
  all_goals
    simp only [ofValue, Method.ofInt, Method.ofUInt, Method.ofFloat, Method.ofText, Method.ofArray,
      Method.ofTuple, Method.ofHash, Method.ofList, Method.ofCallable, Method.ofFault,
      Method.ofMutex, Method.ofRwLock, Method.ofCond, Method.ofOnce, Method.ofWaitGroup,
      Method.ofChannel, Method.ofFile, Method.ofSocket, Method.ofLogger, Method.ofCsvReader,
      Method.ofCsvWriter, Method.ofPipe, Method.ofDatabase, Method.ofTime,
      MethodTable.callsOnlyIn_cons, MethodTable.callsOnlyIn_nil, implies_true, or_true, true_and]
    and_intros
    all_goals first | exact trivial | exact .inr fun _ _ => rfl | simp [Value.callbacks]

/-- What a value answers to a name fails for want of a method only if it calls back, and a call that
it makes fails so. -/
theorem callMayFail_of_find? {v : Value} {name : String}
    {m : Engine → CallSite → List Value → Eval Value} (h : (ofValue v).find? name = some m)
    {site : CallSite} {args : List Value} {s : State} {f : Fault}
    (hf : (m E site args s).MayFail f) (hd : f.cause.DeniesMethod) :
    name ∈ v.callbacks ∧ E.CallMayFail site.scope f := by
  obtain ⟨method, hm, rfl⟩ := Option.map_eq_some_iff.mp h
  -- the method is quiet, so a denial comes from a call
  refine ⟨?_, (find?_quiet h site args).callMayFail hf hd⟩
  refine ((ofValue_callsOnlyIn v).of_find? hm).resolve_right fun hfree => ?_
  -- a method that does not look at the engine does the same with one whose calls have no result
  simp only [hfree E .idle] at hf
  obtain ⟨_, _, _, _, _, h⟩ := (find?_quiet (E := .idle) h site args).callMayFail hf hd
  exact nomatch h

end Answering

/-! ### Checks of arguments

A check has no effect if the arguments are what they should be. -/

namespace CallSite

variable {site : CallSite} {args : List Value} {position n : ℕ}

/-- The number of arguments is right. -/
theorem exactly_eq_pure (h : args.length = n) : site.exactly n args = pure () :=
  if_pos (beq_iff_eq.mpr h)

/-- The argument is there, and converts to an integer. -/
theorem intArg_eq_pure {v : Value} {i : Int64} (h : args[position]? = some v)
    (hv : v.asInt? = some i) : site.intArg args position = pure i := by
  rw [intArg, h]
  unfold Value.asInt? at hv
  -- an integer is its own conversion
  split at hv
  · cases hv
    rfl
  -- so is an unsigned one that fits
  · next m =>
    have huint : (Value.uint m).asInt? = some i := hv
    dsimp only
    rw [huint]
  · cases hv

/-- The two kinds of integer arguments differ in their reports only. -/
theorem eitherIntArg_eq_pure {v : Value} {i : Int64} (h : args[position]? = some v)
    (hv : v.asInt? = some i) : site.eitherIntArg args position = pure i := by
  have hint : site.intArg args position = pure i := intArg_eq_pure h hv
  rw [intArg, h] at hint
  rw [eitherIntArg, h]
  -- other kinds are refused, so they convert to nothing
  cases v with
  | int n | uint n => exact hint
  | _ => cases hv

end CallSite

namespace Dispatch

/-- The report that a method is not answered is a fault at once. -/
theorem unanswered_apply (v : Value) (name : String) (span : Span) (s : State) :
    ∃ cause : Cause, cause.DeniesMethod ∧
      (unanswered v name span : Eval α) s = .stop (.fault ⟨cause, span⟩) s := by
  unfold unanswered Object.noMethod
  simp only [Eval.gets_bind_apply]
  -- what is near decides only which of the two reports is made
  cases Suggestion.similar name (s.methodNames v) with
  | nil => exact ⟨_, .inl rfl, rfl⟩
  | cons near rest => exact ⟨_, .inr rfl, rfl⟩

/-- Calls of built-in values, by whether the kind of the value lists the name. -/
theorem invoke_of_isBuiltin {v : Value} (hv : v.IsBuiltin) (scope : Ref .scope) (name : String)
    (args : List Value) (span : Span) :
    invoke E scope v name args span =
      if !(MethodNames.ofValue v).contains name then unanswered v name span
      else match (Answering.ofValue v).find? name with
        | some method => method E ⟨scope, span, name⟩ args
        | none => Eval.fail (.noMethod name v.tag) span := by
  cases v with
  | object | classDef | package => exact hv.elim
  | _ => rfl

/-- A call runs the method that the table has under the name. -/
theorem invoke_method (v : Value) (hv : v.IsBuiltin) {receiver : α} {t : MethodTable α}
    (hanswer : Answering.ofValue v = ⟨receiver, t⟩) {name : String} {m : Method α}
    (h : t.find? name = some m) (E : Engine) (scope : Ref .scope) (args : List Value)
    (span : Span) :
    invoke E scope v name args span = m E ⟨scope, span, name⟩ receiver args := by
  have hfind : (Answering.ofValue v).find? name = some fun E site args => m E site receiver args := by
    rw [hanswer, Answering.find?, h]
    rfl
  have hname : name ∈ MethodNames.ofValue v :=
    Answering.find?_isSome_iff.mp (Option.isSome_of_eq_some hfind)
  rw [invoke_of_isBuiltin hv, if_neg (by simpa using hname), hfind]

/-- **Names and methods agree.** Take a value that is neither an object nor a class nor a package, a
name and any arguments. If `methods` does not list the name for the value, then calling it fails at
once, with `NO_METHOD` or `NO_METHOD_EX`, and the state is what it was. If it does, then the call is
what the method of that name does, and only one that calls back may fail with `NO_METHOD` or
`NO_METHOD_EX`: one of `callbacks`, when a call that it makes fails so. -/
theorem invoke_builtin (E : Engine) {v : Value} (hv : v.IsBuiltin) (scope : Ref .scope)
    (name : String) (args : List Value) (span : Span) (s : State) :
    (¬ s.Lists v name → ∃ cause : Cause, cause.DeniesMethod ∧
      invoke E scope v name args span s = .stop (.fault ⟨cause, span⟩) s) ∧
    (s.Lists v name → ∃ method, (Answering.ofValue v).find? name = some method ∧
      invoke E scope v name args span s = method E ⟨scope, span, name⟩ args s ∧
      ∀ f : Fault, (invoke E scope v name args span s).MayFail f → f.cause.DeniesMethod →
        name ∈ v.callbacks ∧ E.CallMayFail scope f) := by
  rw [State.lists_iff, State.mem_methodNames_iff hv, invoke_of_isBuiltin hv]
  constructor
  · intro hname
    rw [if_pos (by simpa using hname)]
    exact unanswered_apply v name span s
  · intro hname
    obtain ⟨method, hm⟩ := Option.isSome_iff_exists.mp (Answering.find?_isSome_iff.mpr hname)
    rw [if_neg (by simpa using hname), hm]
    exact ⟨method, rfl, rfl, fun f hf hd => Answering.callMayFail_of_find? hm hf hd⟩

/-- An integer has an absolute value and no size. -/
theorem invoke_builtin_abs : (Value.int 5).IsBuiltin ∧
    (∃ cause : Cause, cause.DeniesMethod ∧
      invoke .idle State.root (.int 5) "size" [] .unknown .blank =
        .stop (.fault ⟨cause, .unknown⟩) .blank) ∧
    ∀ f : Fault, (invoke .idle State.root (.int 5) "abs" [.nil] .unknown .blank).MayFail f →
      ¬ f.cause.DeniesMethod := by
  have hv : (Value.int 5).IsBuiltin := trivial
  have hlists (name : String) : State.blank.Lists (.int 5) name ↔ name ∈ MethodNames.int :=
    State.lists_iff.trans (State.mem_methodNames_iff hv)
  refine ⟨hv, ?_, fun f hf hd => ?_⟩
  · exact (invoke_builtin .idle hv State.root "size" [] .unknown .blank).1
      (mt (hlists _).mp (by decide))
  · obtain ⟨_, -, -, h⟩ := (invoke_builtin .idle hv State.root "abs" [.nil] .unknown .blank).2
      ((hlists _).mpr (by decide))
    exact List.not_mem_nil (h f hf hd).1

end Dispatch

end ScriptEngine
