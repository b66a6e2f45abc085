import ScriptEngine.Proofs.Imports.Once
import ScriptEngine.Proofs.Sync.Runs

/-!
# Circles of imports

Tasks share one registry. An import looks whether its path is loaded, enters the path, evaluates
the module, in which there may be other imports, has the package stored, and leaves the path. These
are separate steps, and the steps of different tasks come in any order (`ImportChains.Step`). Each
task has a chain: the paths that it is in the middle of importing.

The registry has one list for the chains of all tasks. It is a shuffle of the chains, and no path is
on two of them (`ImportChains.Tracks`); but whose chain a path is on cannot be told from the list.
So an import is refused as circular exactly if its path is on the chain of some task, be it another
one (`ImportChains.refused_iff_in_progress`). For an import whose path no other task is in the
middle of, that is its own chain. In general it is not: two tasks that import the same module at the
same time are enough for a circle where there is none (`ImportChains.refused_without_circle`).
-/

namespace ScriptEngine

/-- As no import is in progress twice, leaving a path takes this path off the list. -/
theorem Packages.resolving_leave {p : Packages} (h : p.resolving.Nodup) (path : String) :
    (p.leave path).resolving = p.resolving.erase path := by
  have hreverse : p.resolving.reverse.Nodup := List.nodup_reverse.mpr h
  rw [leave, hreverse.erase_eq_filter, h.erase_eq_filter, List.filter_reverse, List.reverse_reverse]

/-- What is reported are the imports in progress, from the path on. -/
theorem Packages.cycle?_eq_some {p : Packages} {path : String} {cycle : List String}
    (h : p.cycle? path = some cycle) : cycle = p.resolving.dropWhile (· != path) ++ [path] := by
  unfold cycle? at h
  split at h
  · cases h
  · exact (Option.some.inj h).symm

/-- The state in which an import of a path is over. -/
def Import.unmarked (s : State) (path : String) : State :=
  { s with packages := s.packages.leave path }

namespace ImportChains

open Import

/-- A task that imports: the paths that it is in the middle of, the innermost one in front, and the
path that it has found not loaded and will enter next. -/
structure Importer where
  chain : List String
  checked : Option String

/-- The state that all tasks share, and the tasks. -/
structure Config (ι : Type) where
  state : State
  task : ι → Importer

inductive Event where
  /-- The path is loaded, so that its import is over. -/
  | found (path : String)
  | checked (path : String)
  | entered (path : String)
  /-- The path closes a circle, or is said to. -/
  | refused (path : String) (cycle : List String)
  | stored (path : String)
  | left (path : String)
  /-- Something that is no matter of the registry. -/
  | elsewhere

variable {ι : Type}

/-- One step of a task. A module that fails leaves its path without being stored. -/
inductive Step [DecidableEq ι] : Config ι → ι × Event → Config ι → Prop
  | find {s : State} {task : ι → Importer} {i : ι} {path : String} {r : Ref .package} :
      (task i).checked = none → s.packages.loaded.get? path = some r →
      Step ⟨s, task⟩ (i, .found path) ⟨s, task⟩
  | check {s : State} {task : ι → Importer} {i : ι} {path : String} :
      (task i).checked = none → s.packages.loaded.get? path = none →
      Step ⟨s, task⟩ (i, .checked path)
        ⟨s, Function.update task i ⟨(task i).chain, some path⟩⟩
  | enter {s : State} {task : ι → Importer} {i : ι} {path : String} :
      (task i).checked = some path → s.packages.cycle? path = none →
      Step ⟨s, task⟩ (i, .entered path)
        ⟨marked s path, Function.update task i ⟨path :: (task i).chain, none⟩⟩
  | refuse {s : State} {task : ι → Importer} {i : ι} {path : String} {cycle : List String} :
      (task i).checked = some path → s.packages.cycle? path = some cycle →
      Step ⟨s, task⟩ (i, .refused path cycle)
        ⟨s, Function.update task i ⟨(task i).chain, none⟩⟩
  | store {s t : State} {task : ι → Importer} {i : ι} {path : String} {outer : List String}
      {scope : Ref .scope} {r : Ref .package} :
      task i = ⟨path :: outer, none⟩ → Eval.newPackage path scope s = .done r t →
      Step ⟨s, task⟩ (i, .stored path) ⟨t, task⟩
  | leave {s : State} {task : ι → Importer} {i : ι} {path : String} {outer : List String} :
      task i = ⟨path :: outer, none⟩ →
      Step ⟨s, task⟩ (i, .left path) ⟨unmarked s path, Function.update task i ⟨outer, none⟩⟩
  | elsewhere {s t : State} {task : ι → Importer} {i : ι} :
      t.packages = s.packages → Step ⟨s, task⟩ (i, .elsewhere) ⟨t, task⟩

/-- Nothing is being imported. -/
structure Config.Fresh (c : Config ι) : Prop where
  resolving : c.state.packages.resolving = []
  task : ∀ i, c.task i = ⟨[], none⟩

/-! ### The shared list -/

/-- **The shared list is a shuffle of the chains.** It is stated of a list and of chains, as most
steps change only one of them, or none. -/
structure Tracks (resolving : List String) (chain : ι → List String) : Prop where
  nodup : resolving.Nodup
  mem_iff : ∀ path, path ∈ resolving ↔ ∃ i, path ∈ chain i
  /-- No two tasks are in the middle of one path. -/
  apart : ∀ {i j path}, path ∈ chain i → path ∈ chain j → i = j
  /-- Each chain is on the list in its own order. -/
  sublist : ∀ i, (chain i).reverse.Sublist resolving

variable {resolving : List String} {chain : ι → List String} {path : String} {i : ι}

namespace Tracks

/-- Before anything is imported. -/
theorem nil : Tracks [] fun _ : ι => [] where
  nodup := .nil
  mem_iff _ := by simp
  apart h := nomatch h
  sublist _ := .slnil

/-- A path that nobody is in the middle of can be entered. -/
theorem enter [DecidableEq ι] (h : Tracks resolving chain) (hpath : path ∉ resolving) (i : ι) :
    Tracks (resolving ++ [path]) (Function.update chain i (path :: chain i)) := by
  have hfree : ∀ j, path ∉ chain j := fun j hj => hpath ((h.mem_iff path).mpr ⟨j, hj⟩)
  -- what is on a chain now was there before, or is the new path and on the chain of the task
  have hnew : ∀ j x, x ∈ Function.update chain i (path :: chain i) j ↔
      x ∈ chain j ∨ x = path ∧ j = i := by
    intro j x
    obtain rfl | hj := eq_or_ne j i
    · simp [or_comm]
    · simp [hj]
  refine ⟨?_, fun x => ?_, fun {j k x} hj hk => ?_, fun j => ?_⟩
  -- the list has no path twice, as the new one was not on it
  · rw [← List.concat_eq_append]
    exact h.nodup.concat hpath
  · simp [h.mem_iff, hnew, exists_or]
  -- two tasks on one path: both were there before, or both are the one that enters
  · rw [hnew] at hj hk
    obtain hj | ⟨rfl, rfl⟩ := hj
    · obtain hk | ⟨rfl, rfl⟩ := hk
      · exact h.apart hj hk
      · exact absurd hj (hfree j)
    · obtain hk | ⟨-, rfl⟩ := hk
      · exact absurd hk (hfree k)
      · rfl
  -- the order of the chain that has grown, and of the others
  · obtain rfl | hj := eq_or_ne j i
    · simpa using (h.sublist j).append_right [path]
    · rw [Function.update_of_ne hj]
      exact (h.sublist j).trans (List.sublist_append_left _ _)

/-- The innermost path of a chain can be left. -/
theorem leave [DecidableEq ι] {outer : List String} (h : Tracks resolving chain)
    (hi : chain i = path :: outer) :
    Tracks (resolving.erase path) (Function.update chain i outer) := by
  have hmem : path ∈ chain i := hi ▸ List.mem_cons_self
  -- a chain has no path twice, so this path is on none any more
  have houter : path ∉ outer := by
    have hnodup : (chain i).Nodup := List.nodup_reverse.mp (h.nodup.sublist (h.sublist i))
    rw [hi] at hnodup
    exact (List.nodup_cons.mp hnodup).1
  have hnew : ∀ j x, x ∈ Function.update chain i outer j ↔ x ∈ chain j ∧ x ≠ path := by
    intro j x
    obtain rfl | hj := eq_or_ne j i
    · rw [Function.update_self, hi, List.mem_cons]
      constructor
      · intro hx
        exact ⟨.inr hx, fun heq => houter (heq ▸ hx)⟩
      · rintro ⟨hx | hx, hne⟩
        · exact absurd hx hne
        · exact hx
    · rw [Function.update_of_ne hj]
      refine ⟨fun hx => ⟨hx, fun heq => hj (h.apart (heq ▸ hx) hmem)⟩, And.left⟩
  refine ⟨h.nodup.erase path, fun x => ?_, fun hj hk => ?_, fun j => ?_⟩
  -- the list loses the path for good, as it was there once
  · rw [h.nodup.mem_erase_iff, h.mem_iff]
    simp only [hnew]
    rw [exists_and_right, and_comm]
  · rw [hnew] at hj hk
    exact h.apart hj.1 hk.1
  -- a sublist stays one when the path is taken from both sides
  · have herase := (h.sublist j).erase path
    obtain rfl | hj := eq_or_ne j i
    · rw [hi, List.reverse_cons, List.erase_append_right _ (by simpa using houter)] at herase
      simpa using herase
    · rw [Function.update_of_ne hj]
      -- the path was on no other chain, so taking it off changes none of them
      rwa [List.erase_of_not_mem fun hx => hj (h.apart (List.mem_reverse.mp hx) hmem)] at herase

/-- Beside a task that is the only one to import, the list is its chain. -/
theorem eq_reverse (h : Tracks resolving chain) (hlone : ∀ j, j ≠ i → chain j = []) :
    resolving = (chain i).reverse := by
  have hsubset : resolving ⊆ (chain i).reverse := by
    intro x hx
    obtain ⟨j, hj⟩ := (h.mem_iff x).mp hx
    by_cases hne : j = i
    · exact List.mem_reverse.mpr (hne ▸ hj)
    · rw [hlone j hne] at hj
      exact nomatch hj
  -- a sublist that is no shorter is the whole
  exact ((h.sublist i).eq_of_length_le (h.nodup.subperm hsubset).length_le).symm

end Tracks

/-! ### Steps -/

variable [DecidableEq ι] {c c' : Config ι} {e : ι × Event}

/-- What the chains are after one of them has changed. -/
theorem chain_update (task : ι → Importer) (i : ι) (a : Importer) :
    (fun j => (Function.update task i a j).chain) =
      Function.update (fun j => (task j).chain) i a.chain := by
  funext j
  exact Function.apply_update (fun _ => Importer.chain) task i a j

/-- **Every step keeps the list a shuffle of the chains.** -/
theorem Step.tracks (hc : Tracks c.state.packages.resolving fun i => (c.task i).chain)
    (h : Step c e c') : Tracks c'.state.packages.resolving fun i => (c'.task i).chain := by
  cases h with
  | find => exact hc
  -- neither moves a path, so the chains are those from before
  | check | refuse =>
    rw [chain_update, Function.update_eq_self]
    exact hc
  | @enter _ _ i _ _ hcycle =>
    rw [chain_update]
    exact hc.enter (Packages.cycle?_eq_none_iff.mp hcycle) i
  -- a package is stored beside the list, which is left alone
  | store _ hnew =>
    cases hnew
    exact hc
  | leave hi =>
    rw [chain_update, unmarked, Packages.resolving_leave hc.nodup]
    exact hc.leave (congrArg Importer.chain hi)
  | elsewhere hsame =>
    rw [hsame]
    exact hc

/-- **So it is after every run** from a registry in which nothing is being imported. -/
theorem tracks_of_runs {events : List (ι × Event)} (hfresh : c.Fresh)
    (h : Runs Step c events c') :
    Tracks c'.state.packages.resolving fun i => (c'.task i).chain := by
  refine h.invariant (P := fun c : Config ι =>
    Tracks c.state.packages.resolving fun i => (c.task i).chain) Step.tracks ?_
  simp only [hfresh.resolving, hfresh.task]
  exact .nil

/-- A path that has been checked is refused just if the registry reports a circle. -/
theorem step_refused_iff {cycle : List String} (hchecked : (c.task i).checked = some path) :
    (∃ d, Step c (i, .refused path cycle) d) ↔ c.state.packages.cycle? path = some cycle := by
  constructor
  · rintro ⟨d, _ | _ | _ | ⟨-, hcycle⟩⟩
    exact hcycle
  · intro hcycle
    exact ⟨_, .refuse hchecked hcycle⟩

/-- It is entered just if the registry reports none. -/
theorem step_entered_iff (hchecked : (c.task i).checked = some path) :
    (∃ d, Step c (i, .entered path) d) ↔ c.state.packages.cycle? path = none := by
  constructor
  · rintro ⟨d, _ | _ | ⟨-, hcycle⟩⟩
    exact hcycle
  · intro hcycle
    exact ⟨_, .enter hchecked hcycle⟩

/-- An import that is not over at once is refused as circular, or it is evaluated under its mark.
It is a check, an entry, an evaluation with all that belongs to it, and a leave. -/
theorem resolve_of_unloaded {s : State} {E : Engine} {scope : Ref .scope} {span : Span}
    {loader : Loader} (hloader : s.packages.loader = some loader)
    (hnone : s.packages.loaded.get? path = none) :
    resolve E scope path span s =
      match s.packages.cycle? path with
      | some cycle => .stop (.fault ⟨.importFailed
          ("circular import: " ++ String.intercalate " -> " cycle), span⟩) s
      | none => Eval.ensuring (evaluate E scope loader path span) (unmarked · path)
          (marked s path) := by
  simp only [resolve, Eval.gets_bind_apply, hloader, hnone]
  cases s.packages.cycle? path <;> rfl

/-- **When an import is refused as circular.** After every run of any number of tasks, from a
registry in which nothing is being imported:

* no two tasks are in the middle of one path;
* an import that has found its path not loaded is refused as circular exactly if *some* task is in
  the middle of this path, and enters it otherwise;
* so, if it is refused, its own task is in the middle of the path, just if no other task is;
* if no other task imports anything, what is reported is the chain of the task, from the path on;
* an import that takes its steps at once is refused or evaluated by the same rule. -/
theorem refused_iff_in_progress {events : List (ι × Event)} (hfresh : c.Fresh)
    (h : Runs Step c events c') :
    (∀ i j path, path ∈ (c'.task i).chain → path ∈ (c'.task j).chain → i = j) ∧
    (∀ i path, (c'.task i).checked = some path →
      ((∃ cycle d, Step c' (i, .refused path cycle) d) ↔ ∃ j, path ∈ (c'.task j).chain) ∧
      ((∃ d, Step c' (i, .entered path) d) ↔ ∀ j, path ∉ (c'.task j).chain) ∧
      (((∃ cycle d, Step c' (i, .refused path cycle) d) → path ∈ (c'.task i).chain) ↔
        ∀ j, path ∈ (c'.task j).chain → j = i) ∧
      ∀ cycle d, Step c' (i, .refused path cycle) d → (∀ j, j ≠ i → (c'.task j).chain = []) →
        cycle = (c'.task i).chain.reverse.dropWhile (· != path) ++ [path]) ∧
    ∀ E scope path span loader, c'.state.packages.loader = some loader →
      c'.state.packages.loaded.get? path = none →
      ((∃ j, path ∈ (c'.task j).chain) → ∃ cycle, resolve E scope path span c'.state =
        .stop (.fault ⟨.importFailed ("circular import: " ++ String.intercalate " -> " cycle),
          span⟩) c'.state) ∧
      ((∀ j, path ∉ (c'.task j).chain) → resolve E scope path span c'.state =
        Eval.ensuring (evaluate E scope loader path span) (unmarked · path)
          (marked c'.state path)) := by
  have hc := tracks_of_runs hfresh h
  -- whether the registry reports a circle depends on the chains of all tasks
  have hnone : ∀ path, c'.state.packages.cycle? path = none ↔ ∀ j, path ∉ (c'.task j).chain := by
    intro path
    rw [Packages.cycle?_eq_none_iff, hc.mem_iff, not_exists]
  have hsome : ∀ path, (∃ cycle, c'.state.packages.cycle? path = some cycle) ↔
      ∃ j, path ∈ (c'.task j).chain := by
    intro path
    rw [← Option.ne_none_iff_exists', ne_eq, hnone]
    push Not
    rfl
  refine ⟨fun i j path => hc.apart, fun i path hchecked => ?_,
    fun E scope path span loader hloader hunloaded => ?_⟩
  · have hrefused : (∃ cycle d, Step c' (i, .refused path cycle) d) ↔
        ∃ j, path ∈ (c'.task j).chain := by
      -- what the task does next is settled by what the registry answers
      simp only [step_refused_iff hchecked, hsome]
    refine ⟨hrefused, (step_entered_iff hchecked).trans (hnone path), ?_, ?_⟩
    · rw [hrefused]
      constructor
      -- the path is on the chain of one task at most
      · intro howned j hj
        exact hc.apart hj (howned ⟨j, hj⟩)
      · rintro honly ⟨j, hj⟩
        exact honly j hj ▸ hj
    · intro cycle d hd hlone
      have hcycle := (step_refused_iff hchecked).mp ⟨d, hd⟩
      -- no other chain is on the list, so the list reported is that of the task
      rw [← hc.eq_reverse hlone]
      exact Packages.cycle?_eq_some hcycle
  · rw [resolve_of_unloaded hloader hunloaded]
    constructor
    · intro hbusy
      obtain ⟨cycle, hcycle⟩ := (hsome path).mpr hbusy
      rw [hcycle]
      exact ⟨cycle, rfl⟩
    · intro hfree
      rw [(hnone path).mpr hfree]

/-- Nobody has imported anything of the modules that import each other. -/
def beforeCircle : Config Bool := ⟨outsideCircle, fun _ => ⟨[], none⟩⟩

/-- A task imports the first of the two modules, which imports the second, which imports the first:
that is a circle, and it is reported as such. -/
theorem refused_iff_in_progress_circle :
    beforeCircle.Fresh ∧
    ∃ c', Runs Step beforeCircle [(false, .checked "a"), (false, .entered "a"),
        (false, .checked "b"), (false, .entered "b"), (false, .checked "a")] c' ∧
      (c'.task false).checked = some "a" ∧ "a" ∈ (c'.task false).chain ∧
      (∃ cycle d, Step c' (false, .refused "a" cycle) d) ∧
      ∀ cycle d, Step c' (false, .refused "a" cycle) d → cycle = ["a", "b", "a"] := by
  have hfresh : beforeCircle.Fresh := ⟨rfl, fun _ => rfl⟩
  obtain ⟨c', hruns, hchecked, hchain, hother⟩ : ∃ c', Runs Step beforeCircle
      [(false, .checked "a"), (false, .entered "a"), (false, .checked "b"),
        (false, .entered "b"), (false, .checked "a")] c' ∧
      (c'.task false).checked = some "a" ∧ (c'.task false).chain = ["b", "a"] ∧
      (c'.task true).chain = [] :=
    ⟨_, .cons (.check rfl rfl) <| .cons (.enter rfl rfl) <| .cons (.check rfl rfl) <|
      .cons (.enter rfl rfl) <| .cons (.check rfl rfl) <| .nil _, rfl, rfl, rfl⟩
  obtain ⟨-, himports, -⟩ := refused_iff_in_progress hfresh hruns
  obtain ⟨hrefused, -, -, hreported⟩ := himports false "a" hchecked
  have hmem : "a" ∈ (c'.task false).chain := by simp [hchain]
  refine ⟨hfresh, c', hruns, hchecked, hmem, hrefused.mpr ⟨false, hmem⟩, fun cycle d hd => ?_⟩
  have hlone : ∀ j, j ≠ false → (c'.task j).chain = [] := by
    rintro (_ | _) hj
    · exact absurd rfl hj
    · exact hother
  rw [hreported cycle d hd hlone, hchain]
  rfl

/-- **A circle is reported where there is none.** A task is in the middle of importing a module when
another one, which is in the middle of nothing, imports the same module. -/
theorem refused_without_circle :
    ∃ c' d, Runs Step beforeCircle
        [(false, .checked "b"), (false, .entered "b"), (true, .checked "b")] c' ∧
      Step c' (true, .refused "b" ["b", "b"]) d ∧ (c'.task true).chain = [] ∧
      resolve .idle State.root "b" .unknown c'.state =
        .stop (.fault ⟨.importFailed "circular import: b -> b", .unknown⟩) c'.state :=
  ⟨_, _, .cons (.check rfl rfl) <| .cons (.enter rfl rfl) <| .cons (.check rfl rfl) <| .nil _,
    .refuse rfl rfl, rfl, rfl⟩

end ImportChains

end ScriptEngine
