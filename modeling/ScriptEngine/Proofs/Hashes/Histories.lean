import Mathlib.Data.List.Induction
import Mathlib.Data.List.Sort
import ScriptEngine.Assoc

/-!
# What a history leaves in a map

An insertion-ordered map changes by stores and deletions. Its *history* is the list of these, the
oldest in front, and says by itself what has to be in the map, and where:

* `History.Holds`: under a key is what was last stored under it, if nothing has happened to the key
  since;
* `History.Arrived`: the key came when it was first stored since it was last absent. Another store
  does not make it come again, and a deletion does not move the keys that are left.

A list of entries is what a history leaves (`History.Leaves`) if it has the entries that the history
holds, in the order in which their keys came. There is one such list at most (`Leaves.unique`), and
each change of a map keeps it the list that its history leaves (`Leaves.change`).

The entries of two maps that are merged are written down explicitly (`Assoc.entries_merge`).
-/

namespace ScriptEngine

/-- A change of a map. -/
inductive Change (κ ν : Type) where
  | store (k : κ) (v : ν)
  | delete (k : κ)

/-- The changes of a map, the oldest in front. -/
abbrev History (κ ν : Type) := List (Change κ ν)

namespace Change

variable {κ ν : Type}

/-- The key that something happens to. -/
def key : Change κ ν → κ
  | store k _ => k
  | delete k => k

/-- The stores of several entries. -/
def stores (entries : List (κ × ν)) : History κ ν := entries.map fun e => store e.1 e.2

end Change

namespace History

variable {κ ν : Type} {h before after : History κ ν} {c : Change κ ν} {j k : κ} {v : ν} {i i' : ℕ}

/-- The value was stored under the key, and nothing has happened to the key since. -/
def Holds (h : History κ ν) (k : κ) (v : ν) : Prop :=
  ∃ before after, h = before ++ .store k v :: after ∧ ∀ c ∈ after, c.key ≠ k

/-- Something is there under the key. -/
def Has (h : History κ ν) (k : κ) : Prop := ∃ v, Holds h k v

/-- Change number `i` stored the key when it was absent, and it has not been deleted since. -/
def Arrived (h : History κ ν) (k : κ) (i : ℕ) : Prop :=
  ∃ before v after, h = before ++ .store k v :: after ∧ before.length = i ∧
    ¬ Has before k ∧ .delete k ∉ after

/-- The one key came before the other. -/
def Before (h : History κ ν) (j k : κ) : Prop := ∃ i i', Arrived h j i ∧ Arrived h k i' ∧ i < i'

/-- The entries are those that the history holds, in the order in which their keys came. -/
structure Leaves (h : History κ ν) (entries : List (κ × ν)) : Prop where
  mem_iff : ∀ k v, (k, v) ∈ entries ↔ Holds h k v
  ordered : (entries.map (·.1)).Pairwise (Before h)

/-! ### One more change -/

/-- A place in a history that has become longer is its end, or was there before. -/
theorem snoc_eq_iff {d : Change κ ν} :
    h ++ [c] = before ++ d :: after ↔
      (h = before ∧ c = d ∧ after = []) ∨ ∃ rest, h = before ++ d :: rest ∧ after = rest ++ [c] := by
  -- what is behind the place is nothing, or ends with the last change
  rcases List.eq_nil_or_concat after with rfl | ⟨rest, e, rfl⟩
  · simp
  · rw [List.concat_eq_append, ← List.cons_append, ← List.append_assoc, List.append_singleton_inj]
    constructor
    · rintro ⟨hh, rfl⟩
      exact .inr ⟨rest, hh, rfl⟩
    · rintro (⟨-, -, hnil⟩ | ⟨rest', hh, heq⟩)
      · exact absurd hnil (List.append_ne_nil_of_right_ne_nil _ (List.cons_ne_nil _ _))
      · obtain ⟨rfl, rfl⟩ := List.append_singleton_inj.mp heq
        exact ⟨hh, rfl⟩

/-- What is held is what has been stored last, or nothing has happened to the key. -/
theorem holds_snoc_iff :
    Holds (h ++ [c]) k v ↔ c = .store k v ∨ c.key ≠ k ∧ Holds h k v := by
  constructor
  · rintro ⟨before, after, heq, hafter⟩
    -- the store is the last change, or was there before it
    obtain ⟨-, hc, -⟩ | ⟨rest, hh, rfl⟩ := snoc_eq_iff.mp heq
    · exact .inl hc
    · have hrest : ∀ d ∈ rest, d.key ≠ k := fun d hd => hafter d (List.mem_append_left _ hd)
      exact .inr ⟨hafter c (List.mem_append_right _ List.mem_cons_self), before, rest, hh, hrest⟩
  · rintro (rfl | ⟨hc, before, after, rfl, hafter⟩)
    -- a store just made is held, as nothing comes behind it
    · exact ⟨h, [], rfl, nofun⟩
    · refine ⟨before, after ++ [c], by simp, fun d hd => ?_⟩
      -- what comes behind the store is as before, or is the last change
      rcases List.mem_append.mp hd with hd | hd
      · exact hafter d hd
      · rwa [List.mem_singleton.mp hd]

/-- A key is there if it has just been stored, or was there and nothing has happened to it. -/
theorem has_snoc_iff :
    Has (h ++ [c]) k ↔ (∃ v, c = .store k v) ∨ c.key ≠ k ∧ Has h k := by
  simp only [Has, holds_snoc_iff, exists_or, exists_and_left]

/-- Nothing has been stored yet. -/
theorem not_holds_nil : ¬ Holds ([] : History κ ν) k v := by
  rintro ⟨before, after, heq, -⟩
  simp at heq

/-- A key comes with a store while it is absent, and stays until it is deleted. -/
theorem arrived_snoc_iff :
    Arrived (h ++ [c]) k i ↔
      ((∃ v, c = .store k v) ∧ ¬ Has h k ∧ i = h.length) ∨ c ≠ .delete k ∧ Arrived h k i := by
  constructor
  · rintro ⟨before, v, after, heq, hi, habsent, hafter⟩
    -- the key came with the last change, or before
    obtain ⟨rfl, hc, -⟩ | ⟨rest, hh, rfl⟩ := snoc_eq_iff.mp heq
    · exact .inl ⟨⟨v, hc⟩, habsent, hi.symm⟩
    · obtain ⟨hrest, hc⟩ := not_or.mp (mt List.mem_append.mpr hafter)
      exact .inr ⟨fun h => hc (List.mem_singleton.mpr h.symm), before, v, rest, hh, hi, habsent, hrest⟩
  · rintro (⟨⟨v, rfl⟩, habsent, rfl⟩ | ⟨hc, before, v, after, rfl, hi, habsent, hafter⟩)
    · exact ⟨h, v, [], rfl, rfl, habsent, nofun⟩
    · refine ⟨before, v, after ++ [c], by simp, hi, habsent, fun hmem => ?_⟩
      -- a deletion behind the store is one of those before, or the last change
      rcases List.mem_append.mp hmem with hmem | hmem
      · exact hafter hmem
      · exact hc (List.mem_singleton.mp hmem).symm

/-- Nothing has come yet. -/
theorem not_arrived_nil : ¬ Arrived ([] : History κ ν) k i := by
  rintro ⟨before, v, after, heq, -⟩
  simp at heq

/-- A key came with one of the changes. -/
theorem Arrived.lt_length (ha : Arrived h k i) : i < h.length := by
  obtain ⟨before, v, after, rfl, rfl, -⟩ := ha
  simp

/-! ### When keys come -/

/-- A key that has come is there. -/
theorem Arrived.has (ha : Arrived h k i) : Has h k := by
  induction h using List.reverseRecOn with
  | nil => exact absurd ha not_arrived_nil
  | append_singleton h c ih =>
    -- by induction, on the history without its last change
    obtain ⟨hstore, -⟩ | ⟨hc, ha⟩ := arrived_snoc_iff.mp ha
    · exact has_snoc_iff.mpr (.inl hstore)
    · by_cases hkey : c.key = k
      · cases c with
        | store j v =>
          obtain rfl : j = k := hkey
          exact has_snoc_iff.mpr (.inl ⟨v, rfl⟩)
        | delete j => exact absurd (congrArg Change.delete hkey) hc
      · exact has_snoc_iff.mpr (.inr ⟨hkey, ih ha⟩)

/-- Every key that is there has come once. -/
theorem Has.arrived (hk : Has h k) : ∃ i, Arrived h k i := by
  induction h using List.reverseRecOn with
  | nil => exact absurd hk.choose_spec not_holds_nil
  | append_singleton h c ih =>
    -- the key came before if it is left by the last change, and comes with that change otherwise
    by_cases hold : Has h k ∧ c ≠ .delete k
    · obtain ⟨i, hi⟩ := ih hold.1
      exact ⟨i, arrived_snoc_iff.mpr (.inr ⟨hold.2, hi⟩)⟩
    · obtain hstore | ⟨hkey, hhas⟩ := has_snoc_iff.mp hk
      · refine ⟨h.length, arrived_snoc_iff.mpr (.inl ⟨hstore, fun hhas => hold ⟨hhas, ?_⟩, rfl⟩)⟩
        obtain ⟨v, rfl⟩ := hstore
        exact nofun
      · exact absurd ⟨hhas, fun hc => hkey (congrArg Change.key hc)⟩ hold

/-- **A key that is there has come once only.** -/
theorem Arrived.unique (ha : Arrived h k i) (ha' : Arrived h k i') : i = i' := by
  induction h using List.reverseRecOn with
  | nil => exact absurd ha not_arrived_nil
  | append_singleton h c ih =>
    -- a key that comes with the last change was absent, so that it had not come before
    obtain ⟨-, habsent, rfl⟩ | ⟨-, hold⟩ := arrived_snoc_iff.mp ha
    · obtain ⟨-, -, rfl⟩ | ⟨-, hold'⟩ := arrived_snoc_iff.mp ha'
      · rfl
      · exact absurd hold'.has habsent
    · obtain ⟨-, habsent, -⟩ | ⟨-, hold'⟩ := arrived_snoc_iff.mp ha'
      · exact absurd hold.has habsent
      · exact ih hold hold'

/-- A change does not move a key that it leaves. -/
theorem Before.snoc (hb : Before h j k) (hj : c ≠ .delete j) (hk : c ≠ .delete k) :
    Before (h ++ [c]) j k := by
  obtain ⟨i, i', ha, ha', hlt⟩ := hb
  exact ⟨i, i', arrived_snoc_iff.mpr (.inr ⟨hj, ha⟩), arrived_snoc_iff.mpr (.inr ⟨hk, ha'⟩), hlt⟩

/-- A key that is stored while it is absent comes after all that are there. -/
theorem before_of_absent (hj : Has h j) (hk : ¬ Has h k) : Before (h ++ [.store k v]) j k := by
  obtain ⟨i, ha⟩ := hj.arrived
  exact ⟨i, h.length, arrived_snoc_iff.mpr (.inr ⟨nofun, ha⟩),
    arrived_snoc_iff.mpr (.inl ⟨⟨v, rfl⟩, hk, rfl⟩), ha.lt_length⟩

/-- No key comes before itself. -/
theorem Before.irrefl : ¬ Before h k k := by
  rintro ⟨i, i', ha, ha', hlt⟩
  -- the key would have come twice
  exact absurd (ha.unique ha') hlt.ne

/-- Of two keys one came first. -/
theorem Before.asymm (hb : Before h j k) : ¬ Before h k j := by
  obtain ⟨i, i', hj, hk, hlt⟩ := hb
  rintro ⟨l, l', hk', hj', hlt'⟩
  -- each came once, so the two orders speak of the same places
  rw [hk.unique hk', hj.unique hj'] at hlt
  exact lt_asymm hlt hlt'

/-! ### What is left -/

section

variable {entries entries' : List (κ × ν)}

/-- The keys that are left are distinct. -/
theorem Leaves.nodup (hl : Leaves h entries) : (entries.map (·.1)).Nodup := by
  -- no key comes before itself
  refine hl.ordered.imp fun hb heq => ?_
  rw [heq] at hb
  exact hb.irrefl

/-- The keys that are there are those of the entries. -/
theorem Leaves.has_iff (hl : Leaves h entries) : Has h k ↔ k ∈ entries.map (·.1) := by
  simp only [Has, ← hl.mem_iff, List.mem_map, Prod.exists, exists_and_right, exists_eq_right]

instance irrefl_before : Std.Irrefl fun e f : κ × ν => Before h e.1 f.1 := ⟨fun _ => Before.irrefl⟩

instance antisymm_before : Std.Antisymm fun e f : κ × ν => Before h e.1 f.1 :=
  ⟨fun _ _ hb hb' => absurd hb' hb.asymm⟩

/-- A history leaves one list of entries at most. -/
theorem Leaves.unique (hl : Leaves h entries) (hl' : Leaves h entries') : entries = entries' :=
  -- both lists are ordered by the same relation, and have the same members
  (List.pairwise_map.mp hl.ordered).eq_of_mem_iff (List.pairwise_map.mp hl'.ordered) fun e =>
    (hl.mem_iff e.1 e.2).trans (hl'.mem_iff e.1 e.2).symm

/-- No history, no entries. -/
theorem leaves_nil : Leaves ([] : History κ ν) [] :=
  ⟨fun _ _ => iff_of_false nofun not_holds_nil, .nil⟩

end

end History

/-! ### Maps that change -/

namespace Assoc

open History

variable {κ ν : Type} [DecidableEq κ] {k : κ} {v : ν} {entries : List (κ × ν)}

/-- The map after a change. -/
def change (m : Assoc κ ν) : Change κ ν → Assoc κ ν
  | .store k v => m.insert k v
  | .delete k => m.erase k

/-- What is in a map after an insertion. -/
theorem mem_insert_iff {m : Assoc κ ν} {k' : κ} {v' : ν} :
    (k', v') ∈ (m.insert k v).entries ↔ k = k' ∧ v = v' ∨ k ≠ k' ∧ (k', v') ∈ m.entries := by
  rw [← get?_eq_some_iff, ← get?_eq_some_iff]
  -- under the key itself there is what was stored, elsewhere what there was
  by_cases hk : k = k'
  · subst hk
    simp
  · simp [hk, get?_insert_of_ne m (Ne.symm hk)]

end Assoc

namespace History

variable {κ ν : Type} [DecidableEq κ] {h : History κ ν} {m : Assoc κ ν}

/-- **A store keeps a map what its history leaves:** a key that is there stays, a new one comes
last. -/
theorem Leaves.store (hl : Leaves h m.entries) (k : κ) (v : ν) :
    Leaves (h ++ [.store k v]) (m.insert k v).entries := by
  constructor
  · intro k' v'
    -- an entry is held after the store just if it is in the map after it
    rw [Assoc.mem_insert_iff, hl.mem_iff, holds_snoc_iff, Change.store.injEq]
    rfl
  · have hkept : (m.entries.map (·.1)).Pairwise (Before (h ++ [.store k v])) :=
      hl.ordered.imp fun hb => hb.snoc nofun nofun
    rw [Assoc.insert, Assoc.keys_put_eq]
    split
    · exact hkept
    · next hk =>
      -- the new key is the last one, and comes after all that are there
      refine List.pairwise_append.mpr ⟨hkept, List.pairwise_singleton _ _, fun j hj j' hj' => ?_⟩
      rw [List.mem_singleton.mp hj']
      exact before_of_absent (hl.has_iff.mpr hj) (mt hl.has_iff.mp hk)

/-- **So does a deletion:** the keys that are left stay in their order. -/
theorem Leaves.delete (hl : Leaves h m.entries) (k : κ) :
    Leaves (h ++ [.delete k]) (m.erase k).entries := by
  constructor
  · intro k' v'
    -- the entries left are those under other keys
    rw [Assoc.entries_erase, List.mem_filter, hl.mem_iff, holds_snoc_iff, decide_eq_true_iff]
    simp only [reduceCtorEq, false_or, Change.key, and_comm, ne_comm]
  · rw [Assoc.entries_erase, List.pairwise_map]
    -- the order of the keys that are left does not change
    refine ((List.pairwise_map.mp hl.ordered).filter _).imp_of_mem fun {e f} he hf hb => ?_
    have kept {e : κ × ν} (he : e ∈ m.entries.filter (·.1 ≠ k)) :
        (Change.delete k : Change κ ν) ≠ .delete e.1 := fun heq =>
      of_decide_eq_true (List.mem_filter.mp he).2 (Change.delete.inj heq).symm
    exact hb.snoc (kept he) (kept hf)

/-- **Every change keeps a map what its history leaves.** -/
theorem Leaves.change (hl : Leaves h m.entries) (c : Change κ ν) :
    Leaves (h ++ [c]) (m.change c).entries := by
  cases c with
  | store k v => exact hl.store k v
  | delete k => exact hl.delete k

/-- So do the stores of several entries, one after the other. -/
theorem Leaves.insertAll (hl : Leaves h m.entries) (entries : List (κ × ν)) :
    Leaves (h ++ Change.stores entries) (m.insertAll entries).entries := by
  induction entries generalizing h m with
  | nil =>
    rw [Change.stores, List.map_nil, List.append_nil]
    exact hl
  | cons e rest ih =>
    -- the first entry is stored, and the rest by induction
    have hrest := ih (hl.store e.1 e.2)
    rwa [List.append_assoc] at hrest

/-- A map that is made of entries is what the stores of these leave. -/
theorem leaves_ofList (entries : List (κ × ν)) :
    Leaves (Change.stores entries) (Assoc.ofList entries).entries := by
  have hempty : Leaves [] (Assoc.empty : Assoc κ ν).entries := leaves_nil
  exact hempty.insertAll entries

end History

/-! ### Two maps that are merged -/

namespace Assoc

variable {κ ν : Type} [DecidableEq κ]

/-- A key that is there gets another value. -/
theorem put_of_mem {k : κ} {entries : List (κ × ν)} (hdistinct : (entries.map (·.1)).Nodup)
    (hk : k ∈ entries.map (·.1)) (v : ν) :
    put k v entries = entries.map fun e => if e.1 = k then (e.1, v) else e := by
  induction entries with
  | nil => exact nomatch hk
  | cons e rest ih =>
    obtain ⟨hnot, hrest⟩ := List.nodup_cons.mp hdistinct
    rw [put, List.map_cons]
    split
    · next hj =>
      -- the key is there once, so the other entries keep their values
      have hothers : ∀ f ∈ rest, (if f.1 = k then (f.1, v) else f) = f := fun f hf =>
        if_neg fun heq => hnot (List.mem_map.mpr ⟨f, hf, heq.trans hj.symm⟩)
      rw [List.map_congr_left hothers, List.map_id']
    · next hj =>
      -- the key is further behind
      rw [ih hrest ((List.mem_cons.mp hk).resolve_left (Ne.symm hj))]

/-- Entries with distinct keys are written into a map: what is there gets the value that is written
under its key, and the others come behind. -/
theorem entries_insertAll (m : Assoc κ ν) {es : List (κ × ν)} (h : (es.map (·.1)).Nodup) :
    (m.insertAll es).entries =
      m.entries.map (fun e => (e.1, (lookup e.1 es).getD e.2)) ++
        es.filter fun e => e.1 ∉ m.keys := by
  induction es generalizing m with
  | nil => simp [insertAll, lookup]
  | cons e rest ih =>
    obtain ⟨k, v⟩ := e
    obtain ⟨hnot, hrest⟩ := List.nodup_cons.mp h
    have hkeys : (m.insert k v).keys = if k ∈ m.keys then m.keys else m.keys ++ [k] :=
      keys_put_eq k v m.entries
    -- the key that is written first is none of the others, so these are as new as before
    have hothers : ∀ e ∈ rest, decide (e.1 ∉ (m.insert k v).keys) = decide (e.1 ∉ m.keys) := by
      intro e he
      have hne : e.1 ≠ k := fun heq => hnot (List.mem_map.mpr ⟨e, he, heq⟩)
      rw [hkeys]
      split
      · rfl
      · simp [hne]
    change ((m.insert k v).insertAll rest).entries = _
    rw [ih (m.insert k v) hrest, List.filter_congr hothers]
    -- a key that is there already keeps its place, and a new one comes at the end
    by_cases hk : k ∈ m.keys
    · have hput : (m.insert k v).entries = m.entries.map fun e => if e.1 = k then (e.1, v) else e :=
        put_of_mem m.distinct.nodup hk v
      rw [hput, List.map_map, List.filter_cons_of_neg (by simpa using hk)]
      refine congrArg (· ++ _) (List.map_congr_left fun e _ => ?_)
      by_cases he : e.1 = k
      · simp [lookup, he, lookup_of_notMem hnot]
      · simp [lookup, he, Ne.symm he]
    · have hold : ∀ e ∈ m.entries, e.1 ≠ k := fun e he heq =>
        hk (List.mem_map.mpr ⟨e, he, heq⟩)
      rw [entries_insert_of_notMem hk, List.map_append, List.append_assoc,
        List.filter_cons_of_pos (by simpa using hk)]
      congr 1
      · refine List.map_congr_left fun e he => ?_
        simp [lookup, Ne.symm (hold e he)]
      · simp [lookup_of_notMem hnot]

/-- **The entries of two maps that are merged:** those of the first in their order, with the value
that the second has under the key, if any, and behind them those of the second with other keys. -/
theorem entries_merge (a b : Assoc κ ν) :
    (a.merge b).entries =
      a.entries.map (fun e => (e.1, (b.get? e.1).getD e.2)) ++
        b.entries.filter fun e => e.1 ∉ a.keys :=
  entries_insertAll a b.distinct.nodup

end Assoc

end ScriptEngine
