/-!
# Insertion-ordered associations

An `Assoc` maps keys to values and remembers the order in which its keys arrived.
Writing to a present key keeps its place, a new key goes to the end, and erasing a key
leaves the order of the others as it is. No key is there twice.
-/

namespace ScriptEngine

/-- The keys of the entries are distinct. -/
class DistinctKeys {κ ν : Type} (entries : List (κ × ν)) : Prop where
  nodup : (entries.map (·.1)).Nodup

namespace DistinctKeys

variable {κ ν : Type}

instance nil : DistinctKeys ([] : List (κ × ν)) := ⟨List.nodup_nil⟩

instance singleton (e : κ × ν) : DistinctKeys [e] := ⟨List.nodup_cons.mpr ⟨nofun, List.nodup_nil⟩⟩

end DistinctKeys

/-- A finite map as the list of its entries, in the order of arrival. -/
structure Assoc (κ ν : Type) where
  entries : List (κ × ν)
  [distinct : DistinctKeys entries]

attribute [instance] Assoc.distinct

namespace Assoc

variable {κ ν : Type} [DecidableEq κ]

def empty : Assoc κ ν := ⟨[]⟩

instance : Inhabited (Assoc κ ν) := ⟨empty⟩

def size (m : Assoc κ ν) : Nat := m.entries.length

def isEmpty (m : Assoc κ ν) : Bool := m.entries.isEmpty

def keys (m : Assoc κ ν) : List κ := m.entries.map (·.1)

def values (m : Assoc κ ν) : List ν := m.entries.map (·.2)

/-- The value under a key in a list of entries. -/
def lookup (k : κ) : List (κ × ν) → Option ν
  | [] => none
  | (k', v) :: rest => if k' = k then some v else lookup k rest

def get? (m : Assoc κ ν) (k : κ) : Option ν := lookup k m.entries

def contains (m : Assoc κ ν) (k : κ) : Bool := (m.get? k).isSome

/-- Entries with `v` under `k`, in place if `k` is there and at the end otherwise. -/
def put (k : κ) (v : ν) : List (κ × ν) → List (κ × ν)
  | [] => [(k, v)]
  | (k', w) :: rest => if k' = k then (k', v) :: rest else (k', w) :: put k v rest

/-- The keys after a write: as before if the key was there. -/
theorem keys_put_eq (k : κ) (v : ν) (es : List (κ × ν)) :
    (put k v es).map (·.1) =
      if k ∈ es.map (·.1) then es.map (·.1) else es.map (·.1) ++ [k] := by
  induction es with
  | nil => rfl
  | cons e rest ih =>
    obtain ⟨k', w⟩ := e
    by_cases hk : k' = k
    · simp [put, hk]
    · have hk' : ¬ k = k' := fun h => hk h.symm
      simp only [put, hk, if_false, List.map_cons, ih, List.mem_cons, hk', false_or]
      split <;> simp

instance distinctKeys_put (k : κ) (v : ν) (es : List (κ × ν)) [h : DistinctKeys es] :
    DistinctKeys (put k v es) := by
  constructor
  rw [keys_put_eq]
  split
  · exact h.nodup
  · next hk =>
    refine List.nodup_append.mpr ⟨h.nodup, List.nodup_cons.mpr ⟨nofun, List.nodup_nil⟩, ?_⟩
    rintro a ha b hb rfl
    exact hk (List.mem_singleton.mp hb ▸ ha)

def insert (m : Assoc κ ν) (k : κ) (v : ν) : Assoc κ ν := ⟨put k v m.entries⟩

/-- Entries without the one under `k`. -/
def drop (k : κ) : List (κ × ν) → List (κ × ν)
  | [] => []
  | (k', w) :: rest => if k' = k then rest else (k', w) :: drop k rest

theorem drop_sublist (k : κ) (es : List (κ × ν)) : (drop k es).Sublist es := by
  induction es with
  | nil => exact .slnil
  | cons e rest ih =>
    obtain ⟨k', w⟩ := e
    rw [drop]
    split
    · exact List.sublist_cons_self _ _
    · exact ih.cons_cons _

instance distinctKeys_drop (k : κ) (es : List (κ × ν)) [h : DistinctKeys es] :
    DistinctKeys (drop k es) :=
  ⟨h.nodup.sublist ((drop_sublist k es).map _)⟩

def erase (m : Assoc κ ν) (k : κ) : Assoc κ ν := ⟨drop k m.entries⟩

/-- Writes the entries one after another. -/
def insertAll (m : Assoc κ ν) (entries : List (κ × ν)) : Assoc κ ν :=
  entries.foldl (fun acc e => acc.insert e.1 e.2) m

def ofList (entries : List (κ × ν)) : Assoc κ ν := empty.insertAll entries

/-- The entries of both, those of `b` winning. -/
def merge (a b : Assoc κ ν) : Assoc κ ν := a.insertAll b.entries

theorem lookup_put_self (k : κ) (v : ν) (es : List (κ × ν)) :
    lookup k (put k v es) = some v := by
  induction es with
  | nil => simp [put, lookup]
  | cons e rest ih =>
    obtain ⟨k', w⟩ := e
    by_cases h : k' = k <;> simp [put, lookup, h, ih]

theorem lookup_put_of_ne {k k' : κ} (h : k' ≠ k) (v : ν) (es : List (κ × ν)) :
    lookup k' (put k v es) = lookup k' es := by
  induction es with
  | nil => simp [put, lookup, Ne.symm h]
  | cons e rest ih =>
    obtain ⟨j, w⟩ := e
    by_cases hj : j = k
    · subst hj
      simp [put, lookup, Ne.symm h]
    · by_cases hj' : j = k'
      · subst hj'
        simp [put, lookup, hj]
      · simp [put, lookup, hj, hj', ih]

@[simp] theorem get?_insert_self (m : Assoc κ ν) (k : κ) (v : ν) :
    (m.insert k v).get? k = some v :=
  lookup_put_self k v m.entries

theorem get?_insert_of_ne (m : Assoc κ ν) {k k' : κ} (h : k' ≠ k) (v : ν) :
    (m.insert k v).get? k' = m.get? k' :=
  lookup_put_of_ne h v m.entries

theorem get?_insert (m : Assoc κ ν) (k k' : κ) (v : ν) :
    (m.insert k v).get? k' = if k = k' then some v else m.get? k' := by
  split
  · next h => rw [h, get?_insert_self]
  · next h => exact get?_insert_of_ne m (Ne.symm h) v

/-- A key that is not in front is looked for behind. -/
theorem lookup_append_of_notMem {k : κ} {es : List (κ × ν)} (h : k ∉ es.map (·.1))
    (rest : List (κ × ν)) : lookup k (es ++ rest) = lookup k rest := by
  induction es with
  | nil => rfl
  | cons e es ih =>
    obtain ⟨hne, hnot⟩ := not_or.mp (mt List.mem_cons.mpr h)
    exact (if_neg (Ne.symm hne)).trans (ih hnot)

/-- A key that is not in front is written behind. -/
theorem put_append_of_notMem {k : κ} {es : List (κ × ν)} (h : k ∉ es.map (·.1)) (v : ν)
    (rest : List (κ × ν)) : put k v (es ++ rest) = es ++ put k v rest := by
  induction es with
  | nil => rfl
  | cons e es ih =>
    obtain ⟨hne, hnot⟩ := not_or.mp (mt List.mem_cons.mpr h)
    rw [List.cons_append, List.cons_append, ← ih hnot]
    exact if_neg (Ne.symm hne)

/-- A new key goes to the end. -/
theorem entries_insert_of_notMem {m : Assoc κ ν} {k : κ} (h : k ∉ m.keys) (v : ν) :
    (m.insert k v).entries = m.entries ++ [(k, v)] := by
  have hput := put_append_of_notMem h v []
  rwa [List.append_nil] at hput

theorem insertAll_entries {m : Assoc κ ν} {es : List (κ × ν)}
    (h : ((m.entries ++ es).map (·.1)).Nodup) : (m.insertAll es).entries = m.entries ++ es := by
  induction es generalizing m with
  | nil => exact (List.append_nil _).symm
  | cons e rest ih =>
    have hnot : e.1 ∉ m.entries.map (·.1) := by
      rw [List.map_append, List.map_cons] at h
      intro hmem
      exact (List.nodup_append.mp h).2.2 _ hmem _ List.mem_cons_self rfl
    have hsplit : m.entries ++ e :: rest = (m.insert e.1 e.2).entries ++ rest := by
      rw [entries_insert_of_notMem hnot, List.append_assoc, List.singleton_append]
    rw [hsplit] at h ⊢
    exact ih h

/-- Entries with distinct keys are kept as they are. -/
theorem entries_ofList {es : List (κ × ν)} (h : (es.map (·.1)).Nodup) : (ofList es).entries = es :=
  insertAll_entries h

/-- What is under a key is the entry with the key. -/
theorem lookup_eq_some_iff {k : κ} {v : ν} (es : List (κ × ν)) [h : DistinctKeys es] :
    lookup k es = some v ↔ (k, v) ∈ es := by
  have hdistinct := h.nodup
  clear h
  induction es with
  | nil => exact ⟨nofun, nofun⟩
  | cons e rest ih =>
    obtain ⟨j, w⟩ := e
    obtain ⟨hnot, hrest⟩ := List.nodup_cons.mp hdistinct
    by_cases hj : j = k
    · subst hj
      have hnone : (j, v) ∉ rest := fun hmem =>
        hnot (List.mem_map.mpr ⟨_, hmem, rfl⟩)
      simp [lookup, hnone, eq_comm]
    · simp [lookup, hj, Ne.symm hj, ih hrest]

theorem get?_eq_some_iff (m : Assoc κ ν) {k : κ} {v : ν} :
    m.get? k = some v ↔ (k, v) ∈ m.entries :=
  lookup_eq_some_iff m.entries

/-- What is under a key does not depend on the order of the entries. -/
theorem get?_eq_of_perm {m n : Assoc κ ν} (h : m.entries.Perm n.entries) (k : κ) :
    m.get? k = n.get? k := by
  apply Option.ext
  intro v
  rw [get?_eq_some_iff, get?_eq_some_iff, h.mem_iff]

theorem isSome_get?_iff (m : Assoc κ ν) {k : κ} : (m.get? k).isSome ↔ k ∈ m.keys := by
  constructor
  · intro h
    obtain ⟨v, hv⟩ := Option.isSome_iff_exists.mp h
    exact List.mem_map_of_mem (f := (·.1)) ((get?_eq_some_iff m).mp hv)
  · intro h
    obtain ⟨⟨j, v⟩, hmem, rfl⟩ := List.mem_map.mp h
    exact Option.isSome_of_eq_some ((get?_eq_some_iff m).mpr hmem)

omit [DecidableEq κ] in
theorem eq_of_entries_eq {m n : Assoc κ ν} (h : m.entries = n.entries) : m = n := by
  obtain ⟨entries, _⟩ := m
  obtain ⟨entries', _⟩ := n
  obtain rfl : entries = entries' := h
  rfl

/-- A map is made of its own entries. -/
theorem ofList_entries (m : Assoc κ ν) : ofList m.entries = m :=
  eq_of_entries_eq (entries_ofList m.distinct.nodup)

theorem lookup_of_notMem {k : κ} {es : List (κ × ν)} (h : k ∉ es.map (·.1)) :
    lookup k es = none := by
  have hbehind := lookup_append_of_notMem h []
  rwa [List.append_nil] at hbehind

/-- A deletion takes one entry out at most, since there is no other with its key. -/
theorem drop_eq_filter (k : κ) (es : List (κ × ν)) [h : DistinctKeys es] :
    drop k es = es.filter (·.1 ≠ k) := by
  have hdistinct := h.nodup
  clear h
  induction es with
  | nil => rfl
  | cons e rest ih =>
    obtain ⟨hnot, hrest⟩ := List.nodup_cons.mp hdistinct
    rw [drop]
    split
    · next hj =>
      have hkept : ∀ f ∈ rest, decide (f.1 ≠ k) = true := fun f hf =>
        decide_eq_true fun heq => hnot (List.mem_map.mpr ⟨f, hf, heq.trans hj.symm⟩)
      rw [List.filter_cons_of_neg (by simpa using hj), List.filter_eq_self.mpr hkept]
    · next hj => rw [ih hrest, List.filter_cons_of_pos (by simpa using hj)]

theorem entries_erase (m : Assoc κ ν) (k : κ) :
    (m.erase k).entries = m.entries.filter (·.1 ≠ k) :=
  drop_eq_filter k m.entries

theorem get?_erase (m : Assoc κ ν) (k k' : κ) :
    (m.erase k).get? k' = if k' = k then none else m.get? k' := by
  apply Option.ext
  intro v
  rw [get?_eq_some_iff, entries_erase, List.mem_filter, ← get?_eq_some_iff]
  split
  · next h => simp [h]
  · next h => simp [h]

end Assoc

end ScriptEngine
