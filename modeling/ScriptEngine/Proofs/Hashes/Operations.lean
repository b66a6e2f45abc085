import ScriptEngine.Eval.Expression
import ScriptEngine.Eval.Statement
import ScriptEngine.Proofs.Containers

/-!
# What the operations on hashes do

Programs reach the entries of a hash by index (`h[key]`), by member (`h.name`) and by its methods.
Each of these ways comes down to an operation on the insertion-ordered map of the hash, under the key
that the value stands for; this module has one equation for each. Those that only look leave the
state as it is, and those that change a hash change nothing else (`State.editHash`).
-/

namespace ScriptEngine

namespace State

variable {s : State} {q r : Ref .hash} {f : Assoc Key Value → Assoc Key Value}

/-- The map of a hash. -/
def hash (s : State) (r : Ref .hash) : Assoc Key Value := (s.heap.hashes.get? r).getD .empty

/-- The state with another map for a hash. -/
def editHash (s : State) (r : Ref .hash) (f : Assoc Key Value → Assoc Key Value) : State :=
  { s with heap := { s.heap with hashes := s.heap.hashes.modify r f } }

/-- The map of a hash that is there. -/
theorem hash_of_get? {m : Assoc Key Value} (h : s.heap.hashes.get? r = some m) : s.hash r = m := by
  rw [hash, h]
  rfl

/-- An edit changes the one hash and no other. -/
theorem get?_editHash : (s.editHash r f).heap.hashes.get? q =
    if r = q then (s.heap.hashes.get? q).map f else s.heap.hashes.get? q := by
  rw [editHash, Table.get?_modify]
  exact ite_congr (propext ⟨congrArg Ref.mk, congrArg Ref.index⟩) (fun _ => rfl) fun _ => rfl

/-- What an edit leaves in the hash. -/
theorem hash_editHash_self (h : (s.heap.hashes.get? r).isSome) :
    (s.editHash r f).hash r = f (s.hash r) := by
  obtain ⟨m, hm⟩ := Option.isSome_iff_exists.mp h
  -- the edit is at the place that is read
  rw [hash_of_get? hm]
  refine hash_of_get? ?_
  rw [get?_editHash, if_pos rfl, hm]
  rfl

end State

section

variable {E : Engine} {scope : Ref .scope} {span : Span} {s : State} {q r : Ref .hash}
  {key v : Value} {k : Key} {name : String}

/-! ### Keys -/

/-- Methods go on with the key that their argument stands for. -/
theorem CallSite.keyArg_bind {α : Type} (h : Key.ofValue? key = some k) (site : CallSite)
    (f : Key → Eval α) (s : State) : (site.keyArg key >>= f) s = f k s := by
  rw [keyArg, h]
  rfl

/-- So do accesses by index. -/
theorem Access.hashKey_bind {α : Type} (h : Key.ofValue? key = some k) (span : Span)
    (f : Key → Eval α) (s : State) : (hashKey key span >>= f) s = f k s := by
  rw [hashKey, h]
  rfl

/-! ### Looking -/

/-- An access by index gives what is under the key, or nil. -/
theorem Access.getAt_hash (h : Key.ofValue? key = some k) :
    getAt E scope (.hash r) key span s = .done (((s.hash r).get? k).getD .nil) s :=
  hashKey_bind h span _ s

/-- So does one by member, under the name. -/
theorem Access.getMember_hash :
    getMember E scope (.hash r) name span s = .done (((s.hash r).get? (.text name)).getD .nil) s :=
  rfl

namespace Dispatch

/-- The method `get`. -/
theorem invoke_get (h : Key.ofValue? key = some k) :
    invoke E scope (.hash r) "get" [key] span s = .done (((s.hash r).get? k).getD .nil) s :=
  CallSite.keyArg_bind h ⟨scope, span, "get"⟩ _ s

/-- The method `get` with another value for what is not there. -/
theorem invoke_get_default (h : Key.ofValue? key = some k) :
    invoke E scope (.hash r) "get" [key, v] span s = .done (((s.hash r).get? k).getD v) s :=
  CallSite.keyArg_bind h ⟨scope, span, "get"⟩ _ s

/-- The method `has`. -/
theorem invoke_has (h : Key.ofValue? key = some k) :
    invoke E scope (.hash r) "has" [key] span s = .done (.bool ((s.hash r).contains k)) s :=
  CallSite.keyArg_bind h ⟨scope, span, "has"⟩ _ s

/-- The method `keys`. -/
theorem invoke_keys : invoke E scope (.hash r) "keys" [] span s =
    Eval.newArrayOf ((s.hash r).keys.map Key.toValue) s :=
  rfl

/-- The method `values`. -/
theorem invoke_values : invoke E scope (.hash r) "values" [] span s =
    Eval.newArrayOf (s.hash r).values s :=
  rfl

/-- The entries are those that there are when the walk begins. -/
theorem invoke_each : invoke E scope (.hash r) "each" [v] span s =
    (Eval.forList (fun e => discard (E.call scope v [e.1.toValue, e.2] span))
      (s.hash r).entries >>= fun _ => pure (.hash r)) s :=
  rfl

end Dispatch

/-! ### Changing -/

/-- An assignment by index. -/
theorem Place.write_index_hash (h : Key.ofValue? key = some k) :
    write E scope span v (.index (.hash r) key) s = .done () (s.editHash r (·.insert k v)) :=
  Access.hashKey_bind h span _ s

/-- An assignment by member. -/
theorem Place.write_member_hash : write E scope span v (.member (.hash r) name) s =
    .done () (s.editHash r (·.insert (.text name) v)) :=
  rfl

namespace Dispatch

/-- The method `set`. -/
theorem invoke_set (h : Key.ofValue? key = some k) :
    invoke E scope (.hash r) "set" [key, v] span s =
      .done (.hash r) (s.editHash r (·.insert k v)) :=
  CallSite.keyArg_bind h ⟨scope, span, "set"⟩ _ s

/-- The method `delete`, which answers what was there. -/
theorem invoke_delete (h : Key.ofValue? key = some k) :
    invoke E scope (.hash r) "delete" [key] span s =
      .done (((s.hash r).get? k).getD .nil) (s.editHash r (·.erase k)) :=
  CallSite.keyArg_bind h ⟨scope, span, "delete"⟩ _ s

end Dispatch

/-- A loop over a hash goes through the entries that there are when it begins. -/
theorem Stmt.forIn_hash {items : Expr} {t : State}
    (h : E.operand scope items s = .done (.hash r) t) (key : Option String) (value : String)
    (body : List Stmt) :
    forIn E scope key value items body s =
      rounds E scope ⟨key, value, true, items.span⟩ body
        ((t.hash r).entries.map fun e => (e.1.toValue, e.2)) t :=
  Eval.bind_of_done h _

/-! ### Making -/

/-- The method `merge`. -/
theorem Dispatch.invoke_merge : invoke E scope (.hash q) "merge" [.hash r] span s =
    Eval.newHash ((s.hash q).merge (s.hash r)) s :=
  rfl

/-- A copy of a hash. -/
theorem Builtin.run_hash_copy (site : CallSite) :
    run E site [.hash r] .hash s = Eval.newHash (s.hash r) s :=
  rfl

end

/-- A key and its value in a literal. -/
def Expr.entry (E : Engine) (scope : Ref .scope) (pair : Expr × Expr) : Eval (Key × Value) := do
  let k ← Access.hashKey (← E.operand scope pair.1) pair.1.span
  return (k, ← E.expr scope pair.2)

section

variable {E : Engine} {scope : Ref .scope} {pairs : List (Expr × Expr)} {span : Span}

/-- The entries of a literal are inserted into a map as they are evaluated. -/
theorem Expr.entries_eq (acc : Assoc Key Value) :
    entries E scope acc pairs =
      Eval.mapList (entry E scope) pairs >>= fun es => pure (acc.insertAll es) := by
  -- by induction on the entries that are left, for every map made so far
  induction pairs generalizing acc with
  | nil => rfl
  | cons pair rest ih =>
    have hentries : entries E scope acc (pair :: rest) =
        E.operand scope pair.1 >>= fun key => Access.hashKey key pair.1.span >>= fun k =>
          E.expr scope pair.2 >>= fun v => entries E scope (acc.insert k v) rest :=
      rfl
    have hmap : Eval.mapList (entry E scope) (pair :: rest) =
        entry E scope pair >>= fun e => Eval.mapList (entry E scope) rest >>= fun es =>
          pure (e :: es) :=
      rfl
    -- the key comes first, then the value, then the rest
    rw [hentries, hmap, entry]
    simp only [ih, Eval.bind_assoc]
    rfl

/-- The parts of a literal are evaluated from the left, and then the hash is made of them. -/
theorem Expr.eval_hash (E : Engine) (scope : Ref .scope) (pairs : List (Expr × Expr)) (span : Span) :
    eval E scope (.mk (.hash pairs) span) =
      Eval.mapList (entry E scope) pairs >>= fun es => Eval.newHash (.ofList es) := by
  have heval : eval E scope (.mk (.hash pairs) span) =
      entries E scope .empty pairs >>= fun m => Eval.newHash m :=
    rfl
  rw [heval, entries_eq, Eval.bind_assoc]
  rfl

end

/-- The value is a pair: a collection of a key and a value, other than a text. -/
def PairOf (s : State) (pair : Value) (e : Key × Value) : Prop :=
  (∀ x, pair ≠ .text x) ∧ ∃ key, s.items? pair = some [key, e.2] ∧ Key.ofValue? key = some e.1

/-- The value is an array or a tuple of pairs. -/
inductive PairsOf (s : State) : Value → List (Key × Value) → Prop
  | array {q : Ref .array} {es : List (Key × Value)} :
      List.Forall₂ (PairOf s) ((s.heap.arrays.get? q).getD #[]).toList es →
      PairsOf s (.array q) es
  | tuple {q : Ref .tuple} {es : List (Key × Value)} :
      List.Forall₂ (PairOf s) ((s.heap.tuples.get? q).getD #[]).toList es →
      PairsOf s (.tuple q) es

namespace Builtin

variable {s : State} {es : List (Key × Value)}

/-- A pair is read as an entry. -/
theorem entryOf_apply {pair : Value} {e : Key × Value} (h : PairOf s pair e) (site : CallSite) :
    entryOf site pair s = .done e s := by
  obtain ⟨hnot, key, hitems, hkey⟩ := h
  -- a text is no pair, though it has items
  rw [entryOf, Eval.gets_bind_apply]
  split
  · exact absurd rfl (hnot _)
  · rw [hitems]
    exact CallSite.keyArg_bind hkey site _ s

/-- Pairs are read one by one. -/
theorem ofPairs_apply {pairs : List Value} (h : List.Forall₂ (PairOf s) pairs es)
    (site : CallSite) : ofPairs site pairs s = Eval.newHash (.ofList es) s := by
  -- by induction on the pairs
  have hmap : Eval.mapList (entryOf site) pairs s = .done es s := by
    induction h with
    | nil => rfl
    | cons hpair _ ih =>
      exact (Eval.bind_of_done (entryOf_apply hpair site) _).trans (Eval.bind_of_done ih _)
  exact Eval.bind_of_done hmap _

/-- The function `hash`, of pairs. -/
theorem run_hash_pairs {E : Engine} {v : Value} (h : PairsOf s v es) (site : CallSite) :
    run E site [v] .hash s = Eval.newHash (.ofList es) s := by
  -- an array and a tuple are gone through in the same way
  cases h with
  | array h => exact ofPairs_apply h site
  | tuple h => exact ofPairs_apply h site

end Builtin

end ScriptEngine
