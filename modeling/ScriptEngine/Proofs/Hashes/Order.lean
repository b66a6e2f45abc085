import Mathlib.Logic.Function.Basic
import ScriptEngine.Proofs.Equality.Operator
import ScriptEngine.Proofs.Hashes.Histories
import ScriptEngine.Proofs.Hashes.Operations
import ScriptEngine.Proofs.Sync.Runs

/-!
# The order of hashes

A program makes hashes by literals, by `hash()` and by `merge`, and changes them by index, by member,
by `set` and by `delete`, in any order and from any task. A `Step` is one of these operations, or
anything else that leaves the hashes as they are. Along a run of steps every hash has a history
(`histories`), which begins with the entries it is made of.

What a step does to the table of hashes is said once (`Step.effect`). It keeps every hash what its
history leaves (`Recorded.step`), and so does a run (`Recorded.of_runs`). Therefore the history
determines what a program finds in a hash, under a key or going through the entries
(`history_shows`). A copy begins with the entries of the other hash, and the hash that two others are
merged into with those of the one followed by those of the other.
-/

namespace ScriptEngine

namespace Hashes

open History

/-- What happens to the hashes of a program. -/
inductive Event where
  | changed (r : Ref .hash) (c : Change Key Value)
  /-- A new hash is made of entries, the later of which replace the earlier. -/
  | made (r : Ref .hash) (entries : List (Key × Value))
  | elsewhere

/-- The operations of programs on hashes. Assignments and literals evaluate their parts in steps of
their own; the last step of the one writes to a place, and that of the other makes the hash
(`Expr.eval_hash`). An operation that fails leaves the hashes as they are. -/
inductive Step : State → Event → State → Prop
  /-- The assignment `h[key] = v`. -/
  | index {s t : State} {E : Engine} {scope : Ref .scope} {span : Span} {r : Ref .hash}
      {key v : Value} {k : Key} :
      Key.ofValue? key = some k → Place.write E scope span v (.index (.hash r) key) s = .done () t →
      Step s (.changed r (.store k v)) t
  /-- The assignment `h.name = v`. -/
  | member {s t : State} {E : Engine} {scope : Ref .scope} {span : Span} {r : Ref .hash}
      {name : String} {v : Value} :
      Place.write E scope span v (.member (.hash r) name) s = .done () t →
      Step s (.changed r (.store (.text name) v)) t
  | set {s t : State} {E : Engine} {scope : Ref .scope} {span : Span} {r : Ref .hash}
      {key v w : Value} {k : Key} :
      Key.ofValue? key = some k →
      Dispatch.invoke E scope (.hash r) "set" [key, v] span s = .done w t →
      Step s (.changed r (.store k v)) t
  | delete {s t : State} {E : Engine} {scope : Ref .scope} {span : Span} {r : Ref .hash}
      {key w : Value} {k : Key} :
      Key.ofValue? key = some k →
      Dispatch.invoke E scope (.hash r) "delete" [key] span s = .done w t →
      Step s (.changed r (.delete k)) t
  | literal {s t : State} {r : Ref .hash} {entries : List (Key × Value)} :
      Eval.newHash (.ofList entries) s = .done (.hash r) t → Step s (.made r entries) t
  /-- The call `hash()`. -/
  | empty {s t : State} {E : Engine} {site : CallSite} {r : Ref .hash} :
      Builtin.run E site [] .hash s = .done (.hash r) t → Step s (.made r []) t
  /-- The call `hash(pairs)`. -/
  | pairs {s t : State} {E : Engine} {site : CallSite} {r : Ref .hash} {v : Value}
      {entries : List (Key × Value)} :
      PairsOf s v entries → Builtin.run E site [v] .hash s = .done (.hash r) t →
      Step s (.made r entries) t
  /-- The call `hash(h)`. -/
  | copy {s t : State} {E : Engine} {site : CallSite} {q r : Ref .hash} :
      Builtin.run E site [.hash q] .hash s = .done (.hash r) t →
      Step s (.made r (s.hash q).entries) t
  | merge {s t : State} {E : Engine} {scope : Ref .scope} {span : Span} {a b r : Ref .hash} :
      Dispatch.invoke E scope (.hash a) "merge" [.hash b] span s = .done (.hash r) t →
      Step s (.made r ((s.hash a).entries ++ (s.hash b).entries)) t
  | elsewhere {s t : State} : t.heap.hashes = s.heap.hashes → Step s .elsewhere t

/-- The histories of the hashes after one more event. -/
def extend (H : Ref .hash → History Key Value) : Event → Ref .hash → History Key Value
  | .changed r c => Function.update H r (H r ++ [c])
  | .made r entries => Function.update H r (Change.stores entries)
  | .elsewhere => H

/-- The histories of the hashes after events that begin in a state. -/
def histories (s : State) (events : List Event) : Ref .hash → History Key Value :=
  events.foldl extend fun r => Change.stores (s.hash r).entries

/-! ### What a step does -/

/-- What an event does to the table of hashes. -/
def Event.Effect (s t : State) : Event → Prop
  | changed r c => t.heap.hashes = s.heap.hashes.modify r (·.change c)
  | made r entries => r = (s.heap.hashes.add (.ofList entries)).1 ∧
      t.heap.hashes = (s.heap.hashes.add (.ofList entries)).2
  | elsewhere => t.heap.hashes = s.heap.hashes

section

variable {s t : State} {e : Event} {events : List Event} {q r : Ref .hash}
  {H : Ref .hash → History Key Value}

/-- To make a hash of entries is what the event says. -/
theorem effect_of_newHash {entries : List (Key × Value)} {m : Assoc Key Value}
    (h : Eval.newHash m s = .done (.hash r) t) (hm : m = .ofList entries) :
    Event.Effect s t (.made r entries) := by
  subst hm
  cases h
  exact ⟨rfl, rfl⟩

/-- Merging two maps is making one of the entries of both. -/
theorem merge_eq_ofList (m n : Assoc Key Value) : m.merge n = .ofList (m.entries ++ n.entries) := by
  rw [Assoc.ofList, Assoc.insertAll, List.foldl_append]
  -- both sides go on from a map that the entries of the first make
  change _ = (Assoc.ofList m.entries).insertAll n.entries
  rw [Assoc.ofList_entries, Assoc.merge]

/-- **What a step does to the table of hashes** is what its event says. -/
theorem Step.effect (h : Step s e t) : e.Effect s t := by
  cases h with
  | index hkey h =>
    -- the last step of the assignment changes the one hash
    rw [Place.write_index_hash hkey] at h
    cases h
    rfl
  | member h =>
    rw [Place.write_member_hash] at h
    cases h
    rfl
  | set hkey h =>
    -- a method that is called with a key changes it at once
    rw [Dispatch.invoke_set hkey] at h
    cases h
    rfl
  | delete hkey h =>
    rw [Dispatch.invoke_delete hkey] at h
    cases h
    rfl
  | literal h => exact effect_of_newHash h rfl
  | empty h => exact effect_of_newHash h rfl
  | pairs hpairs h =>
    -- to make a hash is to make it of a list of entries
    rw [Builtin.run_hash_pairs hpairs] at h
    exact effect_of_newHash h rfl
  | copy h =>
    rw [Builtin.run_hash_copy] at h
    exact effect_of_newHash h (Assoc.ofList_entries _).symm
  | merge h =>
    rw [Dispatch.invoke_merge] at h
    exact effect_of_newHash h (merge_eq_ofList _ _)
  | elsewhere h => exact h

/-! ### Hashes and their histories -/

/-- Every hash is what its history leaves. -/
def Recorded (H : Ref .hash → History Key Value) (s : State) : Prop :=
  ∀ r m, s.heap.hashes.get? r = some m → Leaves (H r) m.entries

/-- At first every hash has its entries for a history. -/
theorem recorded_start (s : State) :
    Recorded (fun r => Change.stores (s.hash r).entries) s := by
  intro r m hm
  change Leaves (Change.stores (s.hash r).entries) m.entries
  -- a hash that is there at first was made of its entries
  rw [State.hash_of_get? hm]
  have hleaves := leaves_ofList m.entries
  rwa [Assoc.ofList_entries] at hleaves

/-- **Every step keeps the hashes what their histories leave.** -/
theorem Recorded.step (h : Recorded H s) (he : e.Effect s t) : Recorded (extend H e) t := by
  intro q m hm
  cases e with
  | changed r c =>
    rw [Event.Effect] at he
    rw [he, Table.get?_modify] at hm
    -- the change belongs to the history of the hash that it changes, and to no other
    by_cases hq : q = r
    · subst hq
      rw [if_pos rfl] at hm
      obtain ⟨m', hm', rfl⟩ := Option.map_eq_some_iff.mp hm
      rw [extend, Function.update_self]
      exact (h q m' hm').change c
    · have hindex : r.index ≠ q.index := fun heq => hq (congrArg Ref.mk heq.symm)
      rw [if_neg hindex] at hm
      rw [extend, Function.update_of_ne hq]
      exact h q m hm
  | made r entries =>
    obtain ⟨hr, hhashes⟩ := he
    rw [hhashes] at hm
    by_cases hq : q = r
    · subst hq
      rw [hr, Table.get?_add_self] at hm
      rw [extend, Function.update_self, ← Option.some.inj hm]
      exact leaves_ofList entries
    · -- another hash has been there before
      obtain hold | ⟨hnew, -⟩ := Table.eq_of_get?_add _ _ hm
      · rw [extend, Function.update_of_ne hq]
        exact h q m hold
      · exact absurd (hnew.trans hr.symm) hq
  | elsewhere =>
    rw [Event.Effect] at he
    -- nothing happens to any hash
    rw [he] at hm
    exact h q m hm

/-- **So it is after every run.** -/
theorem Recorded.of_runs (h : Runs Step s events t) : Recorded (histories s events) t := by
  refine h.history (P := fun past t => Recorded (histories s past) t) ?_ (recorded_start s)
  intro past t e u hpast hstep
  -- the histories grow by one event at the end
  rw [histories, List.foldl_append]
  exact hpast.step hstep.effect

/-! ### What a program finds -/

/-- What a program finds in a hash with a history and the entries that the history leaves: under a
key by index and by `get`, and going through the entries with `keys`, `values`, `each` and a loop. -/
structure Shows (s : State) (r : Ref .hash) (h : History Key Value)
    (entries : List (Key × Value)) : Prop where
  distinct : (entries.map (·.1)).Nodup
  held : ∀ {key k v}, Key.ofValue? key = some k → Holds h k v → ∀ E scope span w,
    Access.getAt E scope (.hash r) key span s = .done v s ∧
    Dispatch.invoke E scope (.hash r) "get" [key] span s = .done v s ∧
    Dispatch.invoke E scope (.hash r) "get" [key, w] span s = .done v s
  absent : ∀ {key k}, Key.ofValue? key = some k → ¬ Has h k → ∀ E scope span w,
    Access.getAt E scope (.hash r) key span s = .done .nil s ∧
    Dispatch.invoke E scope (.hash r) "get" [key] span s = .done .nil s ∧
    Dispatch.invoke E scope (.hash r) "get" [key, w] span s = .done w s
  keys : ∀ E scope span, ∃ q t,
    Dispatch.invoke E scope (.hash r) "keys" [] span s = .done (.array q) t ∧
    t.heap.arrays.get? q = some (entries.map (·.1.toValue)).toArray
  values : ∀ E scope span, ∃ q t,
    Dispatch.invoke E scope (.hash r) "values" [] span s = .done (.array q) t ∧
    t.heap.arrays.get? q = some (entries.map (·.2)).toArray
  each : ∀ E scope f span, Dispatch.invoke E scope (.hash r) "each" [f] span s =
    (Eval.forList (fun e => discard (E.call scope f [e.1.toValue, e.2] span)) entries >>=
      fun _ => pure (.hash r)) s
  forIn : ∀ E scope key value items body s₀, E.operand scope items s₀ = .done (.hash r) s →
    Stmt.forIn E scope key value items body s₀ =
      Stmt.rounds E scope ⟨key, value, true, items.span⟩ body
        (entries.map fun e => (e.1.toValue, e.2)) s

/-- A hash whose history leaves its entries shows just these. -/
theorem shows_of_leaves {h : History Key Value} (hl : Leaves h (s.hash r).entries) :
    Shows s r h (s.hash r).entries where
  distinct := hl.nodup
  held {key k v} hkey hheld E scope span w := by
    -- what the history holds is what the entries have under the key
    have hget : (s.hash r).get? k = some v :=
      (Assoc.get?_eq_some_iff _).mpr ((hl.mem_iff k v).mpr hheld)
    rw [Access.getAt_hash hkey, Dispatch.invoke_get hkey, Dispatch.invoke_get_default hkey, hget]
    exact ⟨rfl, rfl, rfl⟩
  absent {key k} hkey habsent E scope span w := by
    have hget : (s.hash r).get? k = none := Assoc.lookup_of_notMem (mt hl.has_iff.mpr habsent)
    rw [Access.getAt_hash hkey, Dispatch.invoke_get hkey, Dispatch.invoke_get_default hkey, hget]
    exact ⟨rfl, rfl, rfl⟩
  keys E scope span := by
    obtain ⟨q, t, hmake, hq, -⟩ := newArrayOf_keeps ((s.hash r).keys.map Key.toValue) s
    -- the array made has the keys, in the order of the entries
    refine ⟨q, t, Dispatch.invoke_keys.trans hmake, ?_⟩
    rw [hq, Assoc.keys, List.map_map]
    rfl
  values E scope span := by
    obtain ⟨q, t, hmake, hq, -⟩ := newArrayOf_keeps (s.hash r).values s
    exact ⟨q, t, Dispatch.invoke_values.trans hmake, hq⟩
  each E scope f span := Dispatch.invoke_each
  forIn E scope key value items body s₀ h := Stmt.forIn_hash h key value body

/-- **The history of a hash determines what a program finds in it.** After any run of operations, each
hash has the entries that its history leaves, with distinct keys. What is under a key is the value
that was last stored under it since it was last deleted, and `keys`, `values`, `each` and loops go
through the entries in the order in which their keys were first stored since they were last absent.
Merging `a` with `b` makes a new hash: the entries of `a` in their order, with the values that `b` has
under their keys, if any, and then the entries of `b` with other keys in their order. It leaves every
other hash, `a` and `b` included, as it is. A literal evaluates its parts and makes a hash of them. -/
theorem history_shows (h : Runs Step s events t) :
    (∀ r, (t.heap.hashes.get? r).isSome → ∃ entries,
      Leaves (histories s events r) entries ∧ Shows t r (histories s events r) entries) ∧
    (∀ a b as bs E scope span, (t.heap.hashes.get? a).isSome → (t.heap.hashes.get? b).isSome →
      Leaves (histories s events a) as → Leaves (histories s events b) bs →
      ∃ r u m, Dispatch.invoke E scope (.hash a) "merge" [.hash b] span t = .done (.hash r) u ∧
        t.heap.hashes.get? r = none ∧ u.heap.hashes.get? r = some m ∧ Keeps t u ∧
        m.entries = as.map (fun e => (e.1, (Assoc.lookup e.1 bs).getD e.2)) ++
          bs.filter fun e => e.1 ∉ as.map (·.1)) ∧
    ∀ E scope pairs span, Expr.eval E scope (.mk (.hash pairs) span) =
      Eval.mapList (Expr.entry E scope) pairs >>= fun entries => Eval.newHash (.ofList entries) := by
  have hrecorded : ∀ r, (t.heap.hashes.get? r).isSome →
      Leaves (histories s events r) (t.hash r).entries := by
    intro r hr
    obtain ⟨m, hm⟩ := Option.isSome_iff_exists.mp hr
    rw [State.hash_of_get? hm]
    exact Recorded.of_runs h r m hm
  refine ⟨fun r hr => ⟨_, hrecorded r hr, shows_of_leaves (hrecorded r hr)⟩, ?_, Expr.eval_hash⟩
  intro a b as bs E scope span ha hb has hbs
  -- a history leaves one list of entries only
  obtain rfl := has.unique (hrecorded a ha)
  obtain rfl := hbs.unique (hrecorded b hb)
  obtain ⟨r, u, hmake, hm, hkeeps⟩ := newHash_keeps ((t.hash a).merge (t.hash b)) t
  have hnew : t.heap.hashes.get? r = none := by
    -- a merge makes a new hash, and no hash was there under its reference
    rw [(effect_of_newHash hmake (merge_eq_ofList _ _)).1]
    exact Array.getElem?_eq_none le_rfl
  exact ⟨r, u, _, Dispatch.invoke_merge.trans hmake, hnew, hm, hkeeps, Assoc.entries_merge _ _⟩

end

/-- The program `h = {"b": 1, "a": 2}; h["b"] = 3; h.delete("b"); h.b = 4`: the store in between does
not move `"b"`, the deletion does. -/
theorem history_shows_moved :
    let r : Ref .hash := ⟨0⟩
    let events := [.made r [(.text "b", .int 1), (.text "a", .int 2)],
      .changed r (.store (.text "b") (.int 3)), .changed r (.delete (.text "b")),
      .changed r (.store (.text "b") (.int 4))]
    ∃ t, Runs Step State.blank events t ∧ (t.heap.hashes.get? r).isSome ∧
      Shows t r (histories State.blank events r) [(.text "a", .int 2), (.text "b", .int 4)] := by
  intro r events
  have hrun : ∃ t, Runs Step State.blank events t ∧
      t.heap.hashes.get? r = some (.ofList [(.text "a", .int 2), (.text "b", .int 4)]) :=
    ⟨_, .cons (.literal rfl)
      (.cons (@Step.index _ _ .idle State.root .unknown r (.text "b") _ _ rfl rfl)
        (.cons (@Step.delete _ _ .idle State.root .unknown r (.text "b") _ _ rfl rfl)
          (.cons (@Step.member _ _ .idle State.root .unknown r _ _ rfl) (.nil _)))), rfl⟩
  obtain ⟨t, hruns, hr⟩ := hrun
  -- the hash is there with the entries that the program is expected to leave
  have hpresent : (t.heap.hashes.get? r).isSome := Option.isSome_of_eq_some hr
  obtain ⟨entries, hleaves, hshows⟩ := (history_shows hruns).1 r hpresent
  obtain rfl := hleaves.unique (Recorded.of_runs hruns r _ hr)
  exact ⟨t, hruns, hpresent, hshows⟩

end Hashes

end ScriptEngine
