import ScriptEngine.Proofs.Classes.Moves
import ScriptEngine.Proofs.Constants

/-!
# The ancestors of classes

Parents are looked up by name when a class is declared, so that a class may extend an older one of
its own name, or hide a built-in one. `ClassTable.Ancestral` says what comes of it all the same:
every chain ends, no class is among its own ancestors, and classes for objects and annotations keep
to themselves, the former below the root that is built in.

That is so in a sound table (`ClassTable.Sound.ancestral`), and as all states that programs get to
are lawful, it is so in each of them (`Engine.ancestry_lasts`).
-/

namespace ScriptEngine

namespace ClassTable

/-- How classes and their ancestors are related. -/
structure Ancestral (t : ClassTable) : Prop where
  /-- A parent was there before its child. -/
  declared : ∀ {r c p}, t.class? r = some c → c.parent = some p →
    p.index < r.index ∧ (t.class? p).isSome
  /-- A class is not among its own ancestors. -/
  acyclic : ∀ {r c p}, t.class? r = some c → c.parent = some p → ¬ t.Descends p r
  /-- A chain has got to its end: more steps find nothing more. -/
  ends : ∀ {r fuel}, r.index < fuel → t.chainWithin fuel r = t.chain r
  /-- The chain of a normal class is one of normal classes, down to the built-in root. -/
  normal : ∀ {r c}, t.class? r = some c → c.category = .normal →
    (∀ p ∈ t.chain r, p.2.category = .normal) ∧
    ∃ d, (t.chain r).getLast? = some (base, d) ∧ (bare "object" .normal none).Same d
  /-- The chain of an annotation is one of annotations, and the root of normal classes is none. -/
  marking : ∀ {r c}, t.class? r = some c → c.category = .marking →
    ∀ p ∈ t.chain r, p.2.category = .marking ∧ p.1 ≠ base

variable {t : ClassTable} {r : Ref .classDef} {c : ClassDef}

/-- The root of normal classes is the built-in one. -/
theorem Sound.same_base {d : ClassDef} (h : t.Sound) (hd : t.class? base = some d) :
    (bare "object" .normal none).Same d := by
  obtain ⟨d', hd', hsame⟩ := h.builtin base _ rfl
  rwa [Option.some.inj (hd.symm.trans hd')]

theorem Sound.category_eq_of_mem_chain (h : t.Sound) (hc : t.class? r = some c)
    {p : Ref .classDef × ClassDef} (hp : p ∈ t.chain r) : p.2.category = c.category := by
  obtain ⟨hdesc, hd⟩ := h.mem_chain_iff.mp hp
  exact h.category_eq hdesc hc hd

/-- **In a sound table chains end, and keep to their category.** -/
theorem Sound.ancestral (h : t.Sound) : t.Ancestral where
  declared hc hp := by
    obtain ⟨hlt, d, hd, -⟩ := h.parent hc hp
    exact ⟨hlt, by rw [hd]; rfl⟩
  acyclic hc hp hdesc := by
    -- an ancestor has a smaller index
    have hlt := (h.parent hc hp).1
    have hle := h.index_le hdesc
    omega
  ends := h.chainWithin_eq
  normal hc hnormal := by
    refine ⟨fun p hp => (h.category_eq_of_mem_chain hc hp).trans hnormal, ?_⟩
    have hlast := h.getLast?_chain hc hnormal
    obtain ⟨⟨q, d⟩, hd, rfl⟩ := Option.map_eq_some_iff.mp hlast
    have hmem := List.mem_of_getLast? hd
    exact ⟨d, hd, h.same_base (h.mem_chain_iff.mp hmem).2⟩
  marking hc hmarking := by
    rintro ⟨q, d⟩ hp
    have hcat : d.category = .marking := (h.category_eq_of_mem_chain hc hp).trans hmarking
    refine ⟨hcat, ?_⟩
    -- the root of normal classes is a normal class
    rintro rfl
    obtain ⟨statics, rfl⟩ := h.same_base (h.mem_chain_iff.mp hp).2
    exact nomatch hcat

end ClassTable

/-- At the end of each of its stretches the run has kept the classes that were there, with their
parents, and their ancestors are as they should be; as long as the others only take class steps. -/
abbrev Run.KeepsAncestry {α : Type} (s : State) (r : Run α) : Prop :=
  r.Along (fun t u => t.classes.Extends u.classes ∧ u.classes.Ancestral) ClassSteps s

theorem Eval.Abides.keepsAncestry {α : Type} {m : Eval α} {s : State} (hm : m.Abides .nothing)
    (hs : s.Lawful) : (m s).KeepsAncestry s :=
  hm.always hs fun htu hu => ⟨htu.onward.classes, hu.classes.ancestral⟩

/-- **Every chain of classes ends, and keeps to its category.** Take the state that a session is in
after any programs, or what has become of it since by class steps; and any activity of an engine of
any level, watched or not. At the beginning, wherever its run can be seen, and at its end, whichever
that is: parents were there before their children, no class is among its own ancestors, walks along
chains end by themselves; normal classes have normal ancestors only and end in the built-in root,
annotations have annotations only. And the classes that were there are there, with the same
parents. -/
theorem Engine.ancestry_lasts {setup : Setup} {programs : List Program} {s : State}
    (hs : ClassSteps ((Session.start setup).runAll programs).2.state s) (w : Bool) (n : Nat)
    (scope : Ref .scope) :
    s.classes.Ancestral ∧
    (∀ program, ((watched w n).program scope program s).KeepsAncestry s) ∧
    (∀ e, ((watched w n).expr scope e s).KeepsAncestry s) ∧
    (∀ stmt, ((watched w n).stmt scope stmt s).KeepsAncestry s) ∧
    (∀ callee args span, ((watched w n).call scope callee args span s).KeepsAncestry s) ∧
    (∀ receiver name args span,
      ((watched w n).invoke scope receiver name args span s).KeepsAncestry s) := by
  have hlawful : s.Lawful := hs.lawful (Session.lawful setup programs)
  have hE : (watched w n).Abides := watched_abides w n
  refine ⟨hlawful.classes.ancestral, fun program => ?_, fun e => ?_, fun stmt => ?_,
    fun callee args span => ?_, fun receiver name args span => ?_⟩
  · exact ((program_built scope program).abides hE).keepsAncestry hlawful
  · exact (hE.expr scope e).keepsAncestry hlawful
  · exact (hE.stmt scope stmt).keepsAncestry hlawful
  · exact (hE.call scope callee args span).keepsAncestry hlawful
  · exact (hE.invoke scope receiver name args span).keepsAncestry hlawful

/-- A program that hides the root of all classes behind a class that extends it, and then fails to
declare an annotation of the same name below that class. -/
def shadowing : Program :=
  let declare := fun category =>
    Stmt.mk (.classDef (.mk "object" (some "object") category [] .unknown)) .unknown
  [declare .normal, declare .marking]

/-- When that program has failed, the chain of its class ends in the built-in root. -/
theorem Engine.ancestry_lasts_shadowing :
    ClassSteps ((Session.start bare).runAll []).2.state (State.initial bare) ∧
    ∃ t, (watched false 3).program State.root shadowing (State.initial bare) =
        .stop (.fault ⟨.parentNotMarking "object" "object", .unknown⟩) t ∧
      (t.classes.chain ⟨4⟩).map (·.1) = [⟨4⟩, ClassTable.base] ∧ t.classes.Ancestral := by
  obtain ⟨t, ht, hchain⟩ : ∃ t,
      (watched false 3).program State.root shadowing (State.initial bare) =
        .stop (.fault ⟨.parentNotMarking "object" "object", .unknown⟩) t ∧
      (t.classes.chain ⟨4⟩).map (·.1) = [⟨4⟩, ClassTable.base] := ⟨_, rfl, rfl⟩
  have hsteps : ClassSteps ((Session.start bare).runAll []).2.state (State.initial bare) := .refl
  obtain ⟨-, hprogram, -⟩ := ancestry_lasts hsteps false 3 State.root
  have hrun := hprogram shadowing
  rw [ht] at hrun
  cases hrun with
  | stop h => exact ⟨hsteps, t, ht, hchain, h.2⟩

end ScriptEngine
