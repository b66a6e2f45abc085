import Mathlib.Data.List.Sort
import Mathlib.Data.Prod.Lex
import Mathlib.Data.String.Basic
import ScriptEngine.Eval.Level
import ScriptEngine.Proofs.Equality.Operator

/-!
# Which names are offered, and in which order

The names that are offered in place of a name nobody knows are the first five of a ranking: of all
near names, each once, by their distance and then by their text (`IsRanking`). A set of candidates
has one ranking only (`IsRanking.unique`), so it makes no difference how the candidates are listed
or how often, and the report of an unknown name does not tell in which order scopes and registry
list theirs (`similar_ranks`).

The ranking comes about by sorting and by dropping names that repeat the one before. Only those are
dropped, so that the sorting is what brings equal names together: dropping them leaves a sorted list
strictly sorted (`pairwise_dropRepeats`) and loses no name (`mem_map_dropRepeats`).
-/

namespace ScriptEngine

namespace Suggestion

/-- The distance of two names, letter case ignored. -/
def distance (name candidate : String) : ℕ :=
  editDistance (Text.lower name.toList) (Text.lower candidate.toList)

/-- What is offered earlier: a name with a smaller distance, or a smaller text at the same
distance. -/
def Earlier (name c d : String) : Prop :=
  distance name c < distance name d ∨ distance name c = distance name d ∧ c < d

/-- The candidates other than the name that are at most two edits away from it, each of them once,
in the order in which they are offered. -/
structure IsRanking (name : String) (candidates ranked : List String) : Prop where
  mem_iff : ∀ c, c ∈ ranked ↔ c ∈ candidates ∧ c ≠ name ∧ distance name c ≤ 2
  ordered : ranked.Pairwise (Earlier name)

variable {name : String} {candidates : List String} {a b : ℕ × String}

/-! ### The order -/

/-- What is offered earlier is a smaller pair of distance and text. -/
theorem earlier_iff {c d : String} :
    Earlier name c d ↔ toLex (distance name c, c) < toLex (distance name d, d) := by
  rw [Prod.Lex.toLex_lt_toLex, Earlier]

/-- The sorting goes by the same order. -/
theorem precedes_iff : precedes a b = true ↔ toLex a ≤ toLex b := by
  rw [Prod.Lex.toLex_le_toLex, ← not_lt, precedes]
  simp only [Bool.or_eq_true, Bool.and_eq_true, Bool.not_eq_true', beq_iff_eq, decide_eq_true_eq,
    decide_eq_false_iff_not]

/-- No name is offered before itself. -/
instance irrefl_earlier : Std.Irrefl (Earlier name) :=
  -- a pair is not smaller than itself
  ⟨fun _ h => lt_irrefl _ (earlier_iff.mp h)⟩

/-- Of two names one at most is offered before the other. -/
instance antisymm_earlier : Std.Antisymm (Earlier name) :=
  ⟨fun _ _ h h' => absurd (earlier_iff.mp h') (earlier_iff.mp h).asymm⟩

/-- There is one ranking only, as its order leaves no choice. -/
theorem IsRanking.unique {ranked ranked' : List String} (h : IsRanking name candidates ranked)
    (h' : IsRanking name candidates ranked') : ranked = ranked' :=
  h.ordered.eq_of_mem_iff h'.ordered fun c => (h.mem_iff c).trans (h'.mem_iff c).symm

/-- It depends on which candidates there are, not on how they are listed. -/
theorem IsRanking.of_mem_iff {candidates' ranked : List String}
    (h : IsRanking name candidates ranked) (hmem : ∀ c, c ∈ candidates' ↔ c ∈ candidates) :
    IsRanking name candidates' ranked :=
  ⟨fun c => by rw [h.mem_iff, hmem], h.ordered⟩

/-! ### Names that repeat -/

/-- What is dropped leaves the others in their order. -/
theorem dropRepeats_sublist (l : List (ℕ × String)) : (dropRepeats l).Sublist l := by
  -- by the recursion of the function, which looks at two entries at a time
  fun_induction dropRepeats l with
  | case1 a b rest _ ih => exact ih.trans ((List.sublist_cons_self b rest).cons_cons a)
  | case2 a b rest _ ih => exact ih.cons_cons a
  | case3 l => exact .refl l

/-- No name is lost. -/
theorem mem_map_dropRepeats {c : String} (l : List (ℕ × String)) :
    c ∈ (dropRepeats l).map (·.2) ↔ c ∈ l.map (·.2) := by
  fun_induction dropRepeats l with
  -- of two entries with one text, one is enough
  | case1 a b rest heq ih =>
    rw [ih]
    simp only [List.map_cons, List.mem_cons, heq, or_self_left]
  | case2 a b rest _ ih =>
    rw [List.map_cons, List.mem_cons, ih]
    exact List.mem_cons.symm
  | case3 l => rfl

/-- **Dropping repetitions from a sorted list leaves it strictly sorted.** An entry that is kept in
front of `b` has another text than `b`, and everything that is kept behind comes after `b`. -/
theorem pairwise_dropRepeats {l : List (ℕ × String)}
    (h : l.Pairwise fun a b => toLex a ≤ toLex b) :
    (dropRepeats l).Pairwise fun a b => toLex a < toLex b := by
  fun_induction dropRepeats l with
  | case1 a b rest _ ih => exact ih (h.sublist ((List.sublist_cons_self b rest).cons_cons a))
  | case2 a b rest hne ih =>
    obtain ⟨hfirst, hrest⟩ := List.pairwise_cons.mp h
    have hab : toLex a < toLex b := by
      -- `a` is not behind `b`, and differs from it in its text
      refine lt_of_le_of_ne (hfirst b List.mem_cons_self) fun heq => hne ?_
      rw [toLex.injective heq]
    refine List.pairwise_cons.mpr ⟨fun e he => ?_, ih hrest⟩
    rcases List.mem_cons.mp ((dropRepeats_sublist (b :: rest)).mem he) with rfl | hbehind
    · exact hab
    · exact hab.trans_le ((List.pairwise_cons.mp hrest).1 e hbehind)
  -- with one entry, or none, there is nothing to compare
  | case3 l hshort =>
    match l, hshort with
    | [], _ => exact .nil
    | [a], _ => exact List.pairwise_singleton _ a
    | a :: b :: rest, hshort => exact absurd rfl (hshort a b rest)

/-! ### The ranking -/

/-- An entry that is scored is a near candidate with its distance. -/
theorem mem_scored_iff {e : ℕ × String} :
    e ∈ scored name candidates ↔
      e.1 = distance name e.2 ∧ e.2 ∈ candidates ∧ e.2 ≠ name ∧ distance name e.2 ≤ 2 := by
  obtain ⟨k, c⟩ := e
  simp only [scored, List.mem_filterMap, List.mem_filter, bne_iff_ne, Option.ite_none_right_eq_some,
    Option.some.injEq, Prod.mk.injEq]
  -- an entry is the distance and the text of a candidate
  constructor
  · rintro ⟨d, ⟨hmem, hne⟩, hnear, hk, rfl⟩
    exact ⟨hk.symm, hmem, hne, hnear⟩
  · rintro ⟨hk, hmem, hne, hnear⟩
    exact ⟨c, ⟨hmem, hne⟩, hnear, hk.symm, rfl⟩

/-- The names that are left when the near ones are sorted and do not repeat any more. -/
theorem isRanking_dropRepeats (name : String) (candidates : List String) :
    IsRanking name candidates
      ((dropRepeats ((scored name candidates).mergeSort precedes)).map (·.2)) := by
  have hsorted : ((scored name candidates).mergeSort precedes).Pairwise
      fun a b => toLex a ≤ toLex b := by
    -- the sorting needs an order that is transitive and total
    have htrans : ∀ a b c, precedes a b = true → precedes b c = true → precedes a c = true := by
      intro a b c hab hbc
      exact precedes_iff.mpr ((precedes_iff.mp hab).trans (precedes_iff.mp hbc))
    have htotal : ∀ a b, (precedes a b || precedes b a) = true := by
      intro a b
      rw [Bool.or_eq_true, precedes_iff, precedes_iff]
      exact le_total _ _
    exact (List.pairwise_mergeSort htrans htotal _).imp precedes_iff.mp
  constructor
  · intro c
    rw [mem_map_dropRepeats, List.mem_map]
    simp only [List.mem_mergeSort, mem_scored_iff]
    constructor
    · rintro ⟨e, ⟨-, hnear⟩, rfl⟩
      exact hnear
    · intro hnear
      exact ⟨(distance name c, c), ⟨rfl, hnear⟩, rfl⟩
  · rw [List.pairwise_map]
    refine (pairwise_dropRepeats hsorted).imp_of_mem fun {a b} ha hb hab => ?_
    -- an entry that is left has its own distance
    have scores {e : ℕ × String}
        (he : e ∈ dropRepeats ((scored name candidates).mergeSort precedes)) :
        e = (distance name e.2, e.2) := by
      have hmem := List.mem_mergeSort.mp ((dropRepeats_sublist _).mem he)
      exact Prod.ext (mem_scored_iff.mp hmem).1 rfl
    rw [scores ha, scores hb] at hab
    exact earlier_iff.mpr hab

/-- The first five of the ranking are offered. -/
theorem similar_of_isRanking {ranked : List String} (h : IsRanking name candidates ranked) :
    similar name candidates = ranked.take 5 := by
  rw [h.unique (isRanking_dropRepeats name candidates), similar, List.map_take]
  rfl

/-- So it makes no difference how candidates are listed. -/
theorem similar_congr {candidates' : List String} (h : ∀ c, c ∈ candidates' ↔ c ∈ candidates) :
    similar name candidates' = similar name candidates := by
  have hranking := isRanking_dropRepeats name candidates
  rw [similar_of_isRanking hranking, similar_of_isRanking (hranking.of_mem_iff h)]

/-! ### The report of an unknown name -/

/-- No binding, no built-in class and no built-in function has the name. -/
structure Unknown (s : State) (scope : Ref .scope) (name : String) : Prop where
  unbound : s.scopes.get? scope name = none
  noClass : ClassTable.builtin? name = none
  unregistered : s.registry.lookup name = none

/-- In both states the same names are visible and registered, in whatever order. -/
structure SameNames (s : State) (scope : Ref .scope) (t : State) (scope' : Ref .scope) : Prop where
  visible : ∀ n, n ∈ s.scopes.visibleNames scope ↔ n ∈ t.scopes.visibleNames scope'
  registered : ∀ n, n ∈ s.registry.names ↔ n ∈ t.registry.names

/-- What is reported of an unknown name among those that are known. -/
def report (name : String) (known : List String) : Cause :=
  match similar name known with
  | [] => .unknownName name
  | near => .unknownNameLike name (text near)

/-- An unknown name is reported with what is near it. -/
theorem unknownName_apply {α : Type} (s : State) (scope : Ref .scope) (name : String)
    (span : Span) :
    (Access.unknownName scope name span : Eval α) s = .stop (.fault ⟨report name
      (s.scopes.visibleNames scope ++ s.registry.names ++ ClassTable.builtinNames), span⟩) s := by
  rw [Access.unknownName, Eval.gets_bind_apply, report]
  -- there are names to offer, or none
  cases similar name _ <;> rfl

/-- A name that is bound nowhere is unknown. -/
theorem Unknown.lookup_apply {s : State} {scope : Ref .scope} (h : Unknown s scope name)
    (span : Span) : Access.lookup scope name span s = Access.unknownName scope name span s := by
  rw [Access.lookup, Eval.gets_bind_apply, h.unbound]
  simp only [h.noClass]
  rw [Eval.gets_bind_apply, h.unregistered]

/-- The same names lead to the same report. -/
theorem SameNames.report_eq {s t : State} {scope scope' : Ref .scope}
    (hnames : SameNames s scope t scope') (name : String) :
    report name (s.scopes.visibleNames scope ++ s.registry.names ++ ClassTable.builtinNames) =
      report name (t.scopes.visibleNames scope' ++ t.registry.names ++ ClassTable.builtinNames) := by
  have hsimilar : similar name
        (s.scopes.visibleNames scope ++ s.registry.names ++ ClassTable.builtinNames) =
      similar name
        (t.scopes.visibleNames scope' ++ t.registry.names ++ ClassTable.builtinNames) :=
    -- the names are the same, so the near ones are
    similar_congr fun c => by simp only [List.mem_append, hnames.visible, hnames.registered]
  rw [report, hsimilar, report]

/-- **The names that are offered are the first five of the ranking.** There is exactly one list of
the candidates other than the name that are at most two edits away from it, without repetition and
ordered by distance and text, and its first five, or all if there are fewer, are offered. So
candidates may be listed in another order, or more than once; and a name that is unknown in two
states with the same names has the same report in both. -/
theorem similar_ranks (name : String) (candidates : List String) :
    (∃! ranked, IsRanking name candidates ranked) ∧
    (∀ ranked, IsRanking name candidates ranked → similar name candidates = ranked.take 5) ∧
    (∀ candidates', (∀ c, c ∈ candidates' ↔ c ∈ candidates) →
      similar name candidates' = similar name candidates) ∧
    ∀ (s t : State) (scope scope' : Ref .scope) (E E' : Engine) (span : Span),
      SameNames s scope t scope' → Unknown s scope name → Unknown t scope' name →
      ∃ f, Expr.eval E scope (.mk (.name name) span) s = .stop (.fault f) s ∧
        Expr.eval E' scope' (.mk (.name name) span) t = .stop (.fault f) t := by
  have hranking := isRanking_dropRepeats name candidates
  refine ⟨⟨_, hranking, fun _ h => h.unique hranking⟩, fun _ => similar_of_isRanking,
    fun _ => similar_congr, ?_⟩
  intro s t scope scope' E E' span hnames hs ht
  -- both names are unknown, so both are reported
  refine ⟨_, (hs.lookup_apply span).trans (unknownName_apply s scope name span), ?_⟩
  rw [hnames.report_eq name]
  exact (ht.lookup_apply span).trans (unknownName_apply t scope' name span)

/-- The state of a program whose root scope binds names in the given order. -/
def withNames (names : List String) : State :=
  { State.blank with
    scopes := ⟨#[⟨.ofList (names.map fun n => (n, .nil)), [], none, 0, none⟩]⟩ }

/-- It makes no difference that `print`, `prnt` and `range` are bound in another order when `prin` is
looked for. -/
theorem similar_ranks_reordered :
    let s := withNames ["range", "prnt", "print"]
    let t := withNames ["print", "range", "prnt"]
    SameNames s State.root t State.root ∧ Unknown s State.root "prin" ∧
    Unknown t State.root "prin" ∧
    (∀ c, c ∈ ["prnt", "print", "prnt"] ↔ c ∈ ["print", "prnt"]) ∧
    similar "prin" ["prnt", "print", "prnt"] = similar "prin" ["print", "prnt"] ∧
    ∃ f, Expr.eval .idle State.root (.mk (.name "prin") .unknown) s = .stop (.fault f) s ∧
      Expr.eval .idle State.root (.mk (.name "prin") .unknown) t = .stop (.fault f) t := by
  intro s t
  have hvisible : s.scopes.visibleNames State.root = ["range", "prnt", "print"] := by decide
  have hvisible' : t.scopes.visibleNames State.root = ["print", "range", "prnt"] := by decide
  have hnames : SameNames s State.root t State.root := by
    refine ⟨fun n => ?_, fun _ => .rfl⟩
    rw [hvisible, hvisible']
    simp only [List.mem_cons]
    tauto
  have hs : Unknown s State.root "prin" := ⟨rfl, rfl, rfl⟩
  have ht : Unknown t State.root "prin" := ⟨rfl, rfl, rfl⟩
  have hset : ∀ c, c ∈ ["prnt", "print", "prnt"] ↔ c ∈ ["print", "prnt"] := by
    intro c
    simp only [List.mem_cons]
    tauto
  obtain ⟨-, -, hcongr, hreport⟩ := similar_ranks "prin" ["print", "prnt"]
  exact ⟨hnames, hs, ht, hset, hcongr _ hset, hreport s t _ _ .idle .idle .unknown hnames hs ht⟩

end Suggestion

end ScriptEngine
