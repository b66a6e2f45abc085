import ScriptEngine.Proofs.Assignments
import ScriptEngine.Proofs.Classes.Chains
import ScriptEngine.Proofs.Hashes.Operations

/-!
# Cells

What a program can assign to comes down to a cell of the state: a binding of a scope, an element of an
array, an entry of a hash, a field of an object, a static field of a class. `State.at?` reads a cell
and `State.put` writes one. What was put into a cell is in it (`State.at?_put_self`), every other cell
is as before (`State.at?_put_of_ne`), and nothing but what cells hold is different
(`State.hollow_put`).
-/

namespace ScriptEngine

/-- A cell, by what it is part of. -/
inductive Cell where
  | binding (scope : Ref .scope) (name : String)
  | element (array : Ref .array) (position : Nat)
  | entry (hash : Ref .hash) (key : Key)
  | field (object : Ref .object) (name : String)
  | static (cls : Ref .classDef) (name : String)

/-! ### What is not in a cell -/

/-- A scope without its bindings. -/
def Scope.hollow (n : Scope) : Scope := { n with bindings := .empty }

/-- A class without its static fields. -/
def ClassDef.hollow (c : ClassDef) : ClassDef := { c with statics := .empty }

/-- An object without its fields. -/
def Instance.hollow (o : Instance) : Instance := { o with fields := .empty }

/-- As many items, which are all the same. -/
def hollowItems (items : Array Value) : Array Value := items.map fun _ => .nil

/-- A hash without its entries. -/
def hollowHash (_ : Assoc Key Value) : Assoc Key Value := .empty

namespace State

/-- The state without what its cells hold. -/
def hollow (s : State) : State :=
  { s with
    scopes := ⟨s.scopes.nodes.map Scope.hollow⟩
    classes := ⟨s.classes.classes.map ClassDef.hollow⟩
    heap := { s.heap with
      arrays := ⟨s.heap.arrays.rows.map hollowItems⟩
      hashes := ⟨s.heap.hashes.rows.map hollowHash⟩
      objects := ⟨s.heap.objects.rows.map Instance.hollow⟩ } }

/-! ### Reading and writing -/

/-- What a cell holds. -/
def at? (s : State) : Cell → Option Value
  | .binding scope name => (s.scopes.node? scope).bind (·.bindings.get? name)
  | .element r p => (s.heap.arrays.get? r).bind (·[p]?)
  | .entry r k => (s.heap.hashes.get? r).bind (·.get? k)
  | .field r name => (s.heap.objects.get? r).bind (·.fields.get? name)
  | .static r name => (s.classes.class? r).bind (·.statics.get? name)

/-- The state with a value in a cell. -/
def put (s : State) (v : Value) : Cell → State
  | .binding scope name => { s with scopes := s.scopes.modify scope (·.bind name v) }
  | .element r p =>
    { s with heap := { s.heap with arrays := s.heap.arrays.modify r (·.setIfInBounds p v) } }
  | .entry r k => s.editHash r (·.insert k v)
  | .field r name =>
    { s with heap := { s.heap with
      objects := s.heap.objects.modify r fun o => { o with fields := o.fields.insert name v } } }
  | .static r name => { s with classes := s.classes.setStatic r name v }

/-- What the cell is part of is there, and an array is long enough. -/
def HasRoom (s : State) : Cell → Prop
  | .binding scope _ => (s.scopes.node? scope).isSome
  | .element r p => ∃ items, s.heap.arrays.get? r = some items ∧ p < items.size
  | .entry r _ => (s.heap.hashes.get? r).isSome
  | .field r _ => (s.heap.objects.get? r).isSome
  | .static r _ => (s.classes.class? r).isSome

end State

/-! ### Tables with one row changed -/

/-- A row that is changed, if it is there. -/
theorem Table.get?_modify_self {k : Store} {α : Type} {t : Table k α} {r : Ref k} {f : α → α}
    {a : α} (h : t.get? r = some a) : (t.modify r f).get? r = some (f a) := by
  rw [get?_modify, if_pos rfl, h]
  rfl

/-- An array keeps its length when an item changes. -/
theorem hollowItems_setIfInBounds (items : Array Value) (p : Nat) (v : Value) :
    hollowItems (items.setIfInBounds p v) = hollowItems items :=
  Array.ext (by simp [hollowItems]) fun _ _ _ => by simp only [hollowItems, Array.getElem_map]

section

variable {α β : Type} {f : α → α}

/-- What a function does to one row does not show in what does not depend on it. -/
theorem bind_ite_map {p : Prop} [Decidable p] {o : Option α} {g : α → Option β}
    (h : p → ∀ a, g (f a) = g a) : (if p then o.map f else o).bind g = o.bind g := by
  split
  · next hp =>
    cases o with
    | none => rfl
    | some a => exact h hp a
  · rfl

/-- What does not depend on a change does not show it in a whole table. -/
theorem map_modify_eq (g : α → β) (f : α → α) (h : ∀ a, g (f a) = g a) (xs : Array α)
    (i : Nat) : (xs.modify i f).map g = xs.map g := by
  refine Array.ext (by simp) fun j hj hj' => ?_
  simp only [Array.getElem_map, Array.getElem_modify]
  split
  · exact h _
  · rfl

end

namespace State

variable {s : State} {v : Value} {c d : Cell}

/-- **What was put into a cell is in it.** -/
theorem at?_put_self (h : s.HasRoom c) : (s.put v c).at? c = some v := by
  cases c with
  -- what holds the cell is there, so it has the value once it is written
  | binding scope name =>
    obtain ⟨n, hn⟩ := Option.isSome_iff_exists.mp h
    simp only [at?, put]
    rw [ScopeTree.node?_modify_self hn]
    exact Assoc.get?_insert_self n.bindings name v
  | element r p =>
    obtain ⟨items, hitems, hp⟩ := h
    simp only [at?, put]
    rw [Table.get?_modify_self hitems]
    exact (Array.getElem?_setIfInBounds_self_of_lt hp)
  | entry r k =>
    obtain ⟨m, hm⟩ := Option.isSome_iff_exists.mp h
    simp only [at?, put, editHash]
    rw [Table.get?_modify_self hm]
    exact Assoc.get?_insert_self m k v
  | field r name =>
    obtain ⟨o, ho⟩ := Option.isSome_iff_exists.mp h
    simp only [at?, put]
    rw [Table.get?_modify_self ho]
    exact Assoc.get?_insert_self o.fields name v
  | static r name =>
    obtain ⟨cls, hcls⟩ := Option.isSome_iff_exists.mp h
    simp only [at?, put]
    rw [ClassTable.class?_setStatic, if_pos rfl, hcls]
    exact Assoc.get?_insert_self cls.statics name v

/-- **Every other cell is as before.** -/
theorem at?_put_of_ne (h : d ≠ c) : (s.put v c).at? d = s.at? d := by
  -- a cell of another kind is in another table, where nothing is written
  cases c with
  | binding q name =>
    cases d with
    | binding r other =>
      simp only [at?, put, ScopeTree.node?_modify]
      -- in the same scope it has another name
      refine bind_ite_map fun hindex n => Assoc.get?_insert_of_ne _ ?_ v
      rintro rfl
      exact h (congrArg (Cell.binding · _) (congrArg Ref.mk hindex.symm))
    | _ => rfl
  | element q p =>
    cases d with
    | element r i =>
      simp only [at?, put, Table.get?_modify]
      -- in the same array it has another position
      refine bind_ite_map fun hindex items => Array.getElem?_setIfInBounds_ne ?_
      rintro rfl
      exact h (congrArg (Cell.element · _) (congrArg Ref.mk hindex.symm))
    | _ => rfl
  | entry q k =>
    cases d with
    | entry r k' =>
      simp only [at?, put, editHash, Table.get?_modify]
      -- in the same hash it has another key
      refine bind_ite_map fun hindex m => Assoc.get?_insert_of_ne _ ?_ v
      rintro rfl
      exact h (congrArg (Cell.entry · _) (congrArg Ref.mk hindex.symm))
    | _ => rfl
  | field q name =>
    cases d with
    | field r other =>
      simp only [at?, put, Table.get?_modify]
      refine bind_ite_map fun hindex o => Assoc.get?_insert_of_ne _ ?_ v
      rintro rfl
      exact h (congrArg (Cell.field · _) (congrArg Ref.mk hindex.symm))
    | _ => rfl
  | static q name =>
    cases d with
    | static r other =>
      simp only [at?, put, ClassTable.class?_setStatic]
      refine bind_ite_map fun hindex cls => Assoc.get?_insert_of_ne _ ?_ v
      rintro rfl
      exact h (congrArg (Cell.static · _) (congrArg Ref.mk hindex.symm))
    | _ => rfl

/-- **Nothing but what cells hold is different.** -/
theorem hollow_put : (s.put v c).hollow = s.hollow := by
  -- only the bindings of the scope differ, and they are taken out
  cases c with
  | binding q name =>
    have h : (s.put v (.binding q name)).scopes.nodes.map Scope.hollow =
        s.scopes.nodes.map Scope.hollow :=
      map_modify_eq Scope.hollow (·.bind name v) (fun _ => rfl) _ _
    unfold hollow
    rw [h]
    rfl
  -- an array keeps its length, and its items are all the same once they are hollow
  | element q p =>
    have h : (s.put v (.element q p)).heap.arrays.rows.map hollowItems =
        s.heap.arrays.rows.map hollowItems :=
      map_modify_eq hollowItems (·.setIfInBounds p v) (hollowItems_setIfInBounds · p v) _ _
    unfold hollow
    rw [h]
    rfl
  | entry q k =>
    have h : (s.put v (.entry q k)).heap.hashes.rows.map hollowHash =
        s.heap.hashes.rows.map hollowHash :=
      map_modify_eq hollowHash (·.insert k v) (fun _ => rfl) _ _
    unfold hollow
    rw [h]
    rfl
  | field q name =>
    have h : (s.put v (.field q name)).heap.objects.rows.map Instance.hollow =
        s.heap.objects.rows.map Instance.hollow :=
      map_modify_eq Instance.hollow (fun o => { o with fields := o.fields.insert name v })
        (fun _ => rfl) _ _
    unfold hollow
    rw [h]
    rfl
  | static q name =>
    have h : (s.put v (.static q name)).classes.classes.map ClassDef.hollow =
        s.classes.classes.map ClassDef.hollow :=
      map_modify_eq ClassDef.hollow (fun c => { c with statics := c.statics.insert name v })
        (fun _ => rfl) _ _
    unfold hollow
    rw [h]
    rfl

end State

end ScriptEngine
