import ScriptEngine.Proofs.Run.Answers
import ScriptEngine.Proofs.Sequences.Slices
import ScriptEngine.Proofs.Sync.Runs

/-!
# Lists as plain sequences

A list of the engine is changed in place by the methods of lists (`ListMethod`). `PlainList.call` says
what each of them does to a sequence and what it answers, without any state: the ends are pushed to and
popped from, and an index means a place among the items, from the front or from the end.

A call of a method on a list does that to the contents of the list and nothing else
(`PlainList.served`), or is refused for one of four reasons and does nothing at all. So after any
history of calls the contents are those of the plain sequence after the same calls
(`PlainList.served_after`).
-/

namespace ScriptEngine

open Eval

/-- The methods of lists. -/
inductive ListMethod where
  | pushBack
  | pushFront
  | popBack
  | popFront
  | front
  | back
  | len
  | isEmpty
  | clear
  | toArray
  | get
  | insert
  | remove
deriving DecidableEq, Repr

namespace ListMethod

/-- The name by which the method is called. -/
def name : ListMethod → String
  | pushBack => "pushBack"
  | pushFront => "pushFront"
  | popBack => "popBack"
  | popFront => "popFront"
  | front => "front"
  | back => "back"
  | len => "len"
  | isEmpty => "isEmpty"
  | clear => "clear"
  | toArray => "toArray"
  | get => "get"
  | insert => "insert"
  | remove => "remove"

end ListMethod

/-! ### Plain sequences -/

namespace PlainList

/-- Why a call is refused. -/
inductive Refusal where
  /-- The number of arguments is wrong. -/
  | count
  /-- The index is no integer. -/
  | type
  /-- The index is an unsigned integer that is too large for a signed one. -/
  | tooLarge
  /-- There is no such place. -/
  | range
deriving DecidableEq, Repr

/-- The code of the error that says so. -/
def Refusal.code : Refusal → String
  | count => "ARGUMENT_ERROR"
  | type => "PARAM_TYPE_ERROR"
  | tooLarge => "INVALID_ARGUMENT"
  | range => "INDEX_ERROR"

/-- What a call answers. -/
inductive Reply where
  /-- The list. -/
  | self
  | value (v : Value)
  /-- A new array of items. -/
  | copy (items : List Value)
  | refused (why : Refusal)

/-- The index that an argument stands for. -/
def index : Value → Except Refusal ℤ
  | .int n => .ok n.toInt
  | .uint n => if n.toNat < 2 ^ 63 then .ok n.toNat else .error .tooLarge
  | _ => .error .type

/-- What is done at the place that an index means, if that is one for it. -/
def atPlace (xs : List Value) (i : Value) (f : ℕ → Option (Reply × List Value)) :
    Reply × List Value :=
  match index i with
  | .error why => (.refused why, xs)
  | .ok i =>
    let place := Access.place xs.length i
    if 0 ≤ place then (f place.toNat).getD (.refused .range, xs) else (.refused .range, xs)

/-- What a call answers, and the items that it leaves. -/
def call (xs : List Value) : ListMethod → List Value → Reply × List Value
  | .pushBack, v :: vs => (.self, (v :: vs).foldl (fun xs v => xs ++ [v]) xs)
  | .pushFront, v :: vs => (.self, (v :: vs).foldl (fun xs v => v :: xs) xs)
  | .popBack, [] => (.value (xs.getLast?.getD .nil), xs.dropLast)
  | .popFront, [] => (.value (xs.head?.getD .nil), xs.tail)
  | .front, [] => (.value (xs.head?.getD .nil), xs)
  | .back, [] => (.value (xs.getLast?.getD .nil), xs)
  | .len, [] => (.value (.int (Int64.ofNat xs.length)), xs)
  | .isEmpty, [] => (.value (.bool xs.isEmpty), xs)
  | .clear, [] => (.self, [])
  | .toArray, [] => (.copy xs, xs)
  | .get, [i] => atPlace xs i fun p =>
    if h : p < xs.length then some (.value xs[p], xs) else none
  | .insert, [i, v] => atPlace xs i fun p =>
    if p ≤ xs.length then some (.self, xs.take p ++ v :: xs.drop p) else none
  | .remove, [i] => atPlace xs i fun p =>
    if h : p < xs.length then some (.value xs[p], xs.eraseIdx p) else none
  | _, _ => (.refused .count, xs)

end PlainList

/-! ### Lists in a state -/

namespace State

variable {s t : State} {r : Ref .list} {xs ys : List Value}

/-- The list has these items. -/
def ListHolds (s : State) (r : Ref .list) (xs : List Value) : Prop :=
  s.heap.lists.get? r = some xs.toArray

/-- The list is left with these items, and nothing else has changed but that an array may have been
added. -/
structure ListLeft (s : State) (r : Ref .list) (ys : List Value) (t : State) : Prop where
  holds : t.ListHolds r ys
  others : ∀ {q}, q ≠ r → t.heap.lists.get? q = s.heap.lists.get? q
  arrays : ∀ {q items}, s.heap.arrays.get? q = some items → t.heap.arrays.get? q = some items
  same : ∃ lists arrays, t = { s with heap := { s.heap with lists, arrays } }

/-- The state with another content for a list. -/
def editList (s : State) (r : Ref .list) (f : Array Value → Array Value) : State :=
  { s with heap := { s.heap with lists := s.heap.lists.modify r f } }

/-- The items of a list are read without a change. -/
theorem ListHolds.listItems_eq (h : s.ListHolds r xs) : listItems r s = .done xs.toArray s :=
  congrArg (fun items => Run.done (Option.getD items #[]) s) h

/-- A list is left with its items if nothing happens. -/
theorem ListHolds.left (h : s.ListHolds r xs) : s.ListLeft r xs s :=
  ⟨h, fun _ => rfl, id, s.heap.lists, s.heap.arrays, rfl⟩

/-- A list is left with its items when an array is made. -/
theorem ListHolds.newArray (h : s.ListHolds r xs) {items : Array Value} :
    s.ListLeft r xs
      { s with heap := { s.heap with arrays := (s.heap.arrays.add items).2 } } :=
  ⟨h, fun _ => rfl, fun hq => Table.get?_add_of_some _ _ hq, _, _, rfl⟩

/-- A list that is edited is left with other items, and no other list is touched. -/
theorem ListHolds.edit (h : s.ListHolds r xs) {f : Array Value → Array Value}
    (hf : f xs.toArray = ys.toArray) : s.ListLeft r ys (s.editList r f) := by
  refine ⟨?_, fun {q} hq => ?_, id, _, s.heap.arrays, rfl⟩
  · rw [ListHolds, editList, Table.get?_modify, if_pos rfl, h, Option.map_some, hf]
  -- another list is at another place
  · have hne : r.index ≠ q.index := fun heq => hq (congrArg Ref.mk heq.symm)
    rw [editList, Table.get?_modify, if_neg hne]

end State

namespace PlainList

variable {s t : State} {r : Ref .list} {span : Span} {xs ys : List Value}

/-- The run of a call answers so and leaves the list with those items; a call that is refused has
changed nothing. -/
inductive Served (s : State) (r : Ref .list) (span : Span) :
    Reply × List Value → Run Value → Prop
  | self {ys : List Value} {t : State} :
      s.ListLeft r ys t → Served s r span (.self, ys) (.done (.list r) t)
  | value {ys : List Value} {t : State} {v : Value} :
      s.ListLeft r ys t → Served s r span (.value v, ys) (.done v t)
  | copy {ys items : List Value} {t : State} {q : Ref .array} :
      s.ListLeft r ys t → s.heap.arrays.get? q = none →
      t.heap.arrays.get? q = some items.toArray →
      Served s r span (.copy items, ys) (.done (.array q) t)
  | refused {ys : List Value} {why : Refusal} {run : Run Value} :
      s.ListHolds r ys → run.Refused why.code span s → Served s r span (.refused why, ys) run

/-- A call ends, and leaves the items that it should. -/
theorem Served.holds {answer : Reply × List Value} {run : Run Value} {o : Except Fault Value}
    (h : Served s r span answer run) (hends : run.Ends o t) : t.ListHolds r answer.2 := by
  cases h with
  | self h | value h | copy h =>
    obtain ⟨-, rfl⟩ := Run.ends_done_iff.mp hends
    exact h.holds
  | refused h hrefused =>
    obtain ⟨cause, -, rfl⟩ := hrefused
    obtain ⟨-, rfl⟩ := Run.ends_fault_iff.mp hends
    exact h

/-! ### Arguments -/

section

variable {α : Type} {site : CallSite} {args : List Value} {n : ℕ} {f : Unit → Eval Value}
  {g : Int64 → Eval Value}

/-- A call with the right number of arguments goes on. -/
theorem exactly_bind (h : args.length = n) : (site.exactly n args >>= f) s = f () s := by
  rw [CallSite.exactly_eq_pure h]
  rfl

/-- A call with any other number of arguments is refused, before anything is done. -/
theorem exactly_bind_refused (h : args.length ≠ n) :
    ((site.exactly n args >>= f) s).Refused Refusal.count.code site.span s := by
  have harity : site.exactly n args = site.fail (.argumentCount (toString n) args.length) :=
    if_neg (mt beq_iff_eq.mp h)
  rw [harity]
  exact ⟨_, rfl, rfl⟩

/-- An unsigned number is an argument if it is a signed one too. -/
theorem intArg_uint (m : UInt64) (rest : List Value) :
    site.intArg (.uint m :: rest) 0 =
      match (Value.uint m).asInt? with
      | some k => pure k
      | none => site.invalid (toString m.toNat) := rfl

/-- What is an index is an integer argument. -/
theorem exists_asInt? {v : Value} {i : ℤ} (h : index v = .ok i) :
    ∃ k : Int64, v.asInt? = some k ∧ k.toInt = i := by
  cases v with
  | int n =>
    cases h
    exact ⟨n, rfl, rfl⟩
  | uint n =>
    rw [index] at h
    split at h
    · next hlt =>
      cases h
      exact ⟨_, if_pos hlt, Int64.toInt_ofNat_of_lt hlt⟩
    · exact nomatch h
  | _ => exact nomatch h

/-- An argument that is an index is taken as its number. -/
theorem intArg_bind {v : Value} {rest : List Value} {i : ℤ} (h : index v = .ok i) :
    ∃ k : Int64, k.toInt = i ∧ (site.intArg (v :: rest) 0 >>= g) s = g k s := by
  obtain ⟨k, hk, hi⟩ := exists_asInt? h
  refine ⟨k, hi, ?_⟩
  rw [CallSite.intArg_eq_pure rfl hk]
  rfl

/-- An argument that is no index is refused, for its kind or its size. -/
theorem intArg_bind_refused {v : Value} {rest : List Value} {why : Refusal}
    (h : index v = .error why) :
    ((site.intArg (v :: rest) 0 >>= g) s).Refused why.code site.span s := by
  cases v with
  | int n => exact nomatch h
  | uint n =>
    rw [index] at h
    split at h
    · exact nomatch h
    -- an unsigned number is no index only if it is too large
    · next hlt =>
      cases h
      have hnone : (Value.uint n).asInt? = none := if_neg hlt
      rw [intArg_uint, hnone]
      exact ⟨_, rfl, rfl⟩
  | _ =>
    cases h
    exact ⟨_, rfl, rfl⟩

end

/-! ### The methods one by one -/

section

variable {E : Engine} {scope : Ref .scope} {args : List Value}

/-- A method without arguments is refused if there are any. -/
theorem plain_served (m : ListMethod) (site : CallSite) (hs : s.ListHolds r xs)
    {f : CallSite → Ref .list → Eval Value} (hnil : Served s r site.span (call xs m []) (f site r s))
    (hcons : ∀ v vs, call xs m (v :: vs) = (.refused .count, xs)) :
    Served s r site.span (call xs m args) (Method.plain f E site r args s) := by
  cases args with
  | nil => exact hnil
  | cons v vs =>
    rw [hcons]
    exact .refused hs (exactly_bind_refused (Nat.succ_ne_zero _))

/-- The last item goes, if there is one. -/
theorem popBack_served (hs : s.ListHolds r xs) :
    Served s r span (call xs .popBack args)
      (Dispatch.invoke E scope (.list r) "popBack" args span s) := by
  rw [Dispatch.invoke_method (.list r) trivial rfl rfl]
  refine plain_served .popBack ⟨scope, span, "popBack"⟩ hs ?_ fun _ _ => rfl
  rw [bind_of_done hs.listItems_eq, List.back?_toArray]
  exact .value (hs.edit (List.pop_toArray xs))

/-- The first item goes, if there is one. -/
theorem popFront_served (hs : s.ListHolds r xs) :
    Served s r span (call xs .popFront args)
      (Dispatch.invoke E scope (.list r) "popFront" args span s) := by
  rw [Dispatch.invoke_method (.list r) trivial rfl rfl]
  refine plain_served .popFront ⟨scope, span, "popFront"⟩ hs ?_ fun _ _ => rfl
  rw [bind_of_done hs.listItems_eq, List.getElem?_toArray, ← List.head?_eq_getElem?]
  refine .value (hs.edit ?_)
  rw [List.extract_toArray, List.size_toArray]
  simp

/-- The first item is looked at. -/
theorem front_served (hs : s.ListHolds r xs) :
    Served s r span (call xs .front args)
      (Dispatch.invoke E scope (.list r) "front" args span s) := by
  rw [Dispatch.invoke_method (.list r) trivial rfl rfl]
  refine plain_served .front ⟨scope, span, "front"⟩ hs ?_ fun _ _ => rfl
  rw [bind_of_done hs.listItems_eq, List.getElem?_toArray, ← List.head?_eq_getElem?]
  exact .value hs.left

/-- The last item is looked at. -/
theorem back_served (hs : s.ListHolds r xs) :
    Served s r span (call xs .back args)
      (Dispatch.invoke E scope (.list r) "back" args span s) := by
  rw [Dispatch.invoke_method (.list r) trivial rfl rfl]
  refine plain_served .back ⟨scope, span, "back"⟩ hs ?_ fun _ _ => rfl
  rw [bind_of_done hs.listItems_eq, List.back?_toArray]
  exact .value hs.left

/-- The items are counted. -/
theorem len_served (hs : s.ListHolds r xs) :
    Served s r span (call xs .len args)
      (Dispatch.invoke E scope (.list r) "len" args span s) := by
  rw [Dispatch.invoke_method (.list r) trivial rfl rfl]
  refine plain_served .len ⟨scope, span, "len"⟩ hs ?_ fun _ _ => rfl
  rw [bind_of_done hs.listItems_eq, List.size_toArray]
  exact .value hs.left

/-- It is looked whether there are items. -/
theorem isEmpty_served (hs : s.ListHolds r xs) :
    Served s r span (call xs .isEmpty args)
      (Dispatch.invoke E scope (.list r) "isEmpty" args span s) := by
  rw [Dispatch.invoke_method (.list r) trivial rfl rfl]
  refine plain_served .isEmpty ⟨scope, span, "isEmpty"⟩ hs ?_ fun _ _ => rfl
  rw [bind_of_done hs.listItems_eq, List.isEmpty_toArray]
  exact .value hs.left

/-- All items go. -/
theorem clear_served (hs : s.ListHolds r xs) :
    Served s r span (call xs .clear args)
      (Dispatch.invoke E scope (.list r) "clear" args span s) := by
  rw [Dispatch.invoke_method (.list r) trivial rfl rfl]
  exact plain_served .clear ⟨scope, span, "clear"⟩ hs (.self (hs.edit rfl)) fun _ _ => rfl

/-- The items are copied to a new array, which the list has no part in. -/
theorem toArray_served (hs : s.ListHolds r xs) :
    Served s r span (call xs .toArray args)
      (Dispatch.invoke E scope (.list r) "toArray" args span s) := by
  rw [Dispatch.invoke_method (.list r) trivial rfl rfl]
  refine plain_served .toArray ⟨scope, span, "toArray"⟩ hs ?_ fun _ _ => rfl
  rw [bind_of_done hs.listItems_eq]
  exact .copy hs.newArray (Array.getElem?_eq_none le_rfl) (Table.get?_add_self _ _)

/-- Items that are put behind each other come out in their order. -/
theorem foldl_snoc (vs ys : List Value) : vs.foldl (fun xs v => xs ++ [v]) ys = ys ++ vs := by
  induction vs generalizing ys with
  | nil => exact (List.append_nil ys).symm
  | cons v vs ih => rw [List.foldl_cons, ih, List.append_assoc, List.singleton_append]

/-- The arguments are put behind the items. Without any the call is refused. -/
theorem pushBack_served (hs : s.ListHolds r xs) :
    Served s r span (call xs .pushBack args)
      (Dispatch.invoke E scope (.list r) "pushBack" args span s) := by
  rw [Dispatch.invoke_method (.list r) trivial rfl rfl]
  cases args with
  | nil => exact .refused hs ⟨_, rfl, rfl⟩
  | cons v vs =>
    refine .self (hs.edit ?_)
    rw [foldl_snoc, List.append_toArray]

/-- The arguments are put before the items, one after the other, so that the last one comes first. -/
theorem pushFront_served (hs : s.ListHolds r xs) :
    Served s r span (call xs .pushFront args)
      (Dispatch.invoke E scope (.list r) "pushFront" args span s) := by
  rw [Dispatch.invoke_method (.list r) trivial rfl rfl]
  cases args with
  | nil => exact .refused hs ⟨_, rfl, rfl⟩
  | cons v vs =>
    refine .self (hs.edit ?_)
    rw [List.foldl_flip_cons_eq_append', List.append_toArray]

/-! The methods with an index. -/

/-- An index of a list means the place that it means in any sequence. -/
theorem listPlace?_eq (k : Int64) (n : ℕ) :
    Method.listPlace? k n =
      if 0 ≤ Access.place n k.toInt then some (Access.place n k.toInt).toNat else none := by
  have hneg : k < 0 ↔ k.toInt < 0 := Int64.lt_iff_toInt_lt
  unfold Method.listPlace? Access.place
  simp only [hneg, add_comm k.toInt, ← not_lt, ite_not]

/-- An index is taken to its place, and refused if it is none. -/
theorem atPlace_served (site : CallSite) (hs : s.ListHolds r xs) {i : Value} {rest : List Value}
    {f : ℕ → Option (Reply × List Value)} {g : Int64 → Eval Value}
    (hin : ∀ k p, Method.listPlace? k xs.length = some p →
      Served s r site.span ((f p).getD (.refused .range, xs)) (g k s))
    (hout : ∀ k, Method.listPlace? k xs.length = none →
      (g k s).Refused Refusal.range.code site.span s) :
    Served s r site.span (atPlace xs i f) ((site.intArg (i :: rest) 0 >>= g) s) := by
  -- an index that is none is refused before any place is looked for
  cases hi : index i with
  | error why =>
    have hcall : atPlace xs i f = (.refused why, xs) := by rw [atPlace, hi]
    exact hcall ▸ .refused hs (intArg_bind_refused hi)
  | ok j =>
    obtain ⟨k, rfl, hbind⟩ : ∃ k : Int64, k.toInt = j ∧
        (site.intArg (i :: rest) 0 >>= g) s = g k s := intArg_bind hi
    have hplace := listPlace?_eq k xs.length
    have hcall : atPlace xs i f = if 0 ≤ Access.place xs.length k.toInt then
        (f (Access.place xs.length k.toInt).toNat).getD (.refused .range, xs)
      else (.refused .range, xs) := by rw [atPlace, hi]
    rw [hbind, hcall]
    -- a place before the front is none at all; whether there is an item is left to the method
    split at hplace
    · next h =>
      rw [if_pos h]
      exact hin k _ hplace
    · next h =>
      rw [if_neg h]
      exact .refused hs (hout k hplace)

/-- The item at a place is looked at. There is none at the end. -/
theorem get_served (hs : s.ListHolds r xs) :
    Served s r span (call xs .get args)
      (Dispatch.invoke E scope (.list r) "get" args span s) := by
  rw [Dispatch.invoke_method (.list r) trivial rfl rfl]
  -- the number of arguments is checked first, so it decides before the index does
  match args with
  | [i] =>
    have hcount : [i].length = 1 := rfl
    have hcall : call xs .get [i] = atPlace xs i fun p =>
        if h : p < xs.length then some (.value xs[p], xs) else none := rfl
    rw [exactly_bind hcount, hcall]
    refine atPlace_served ⟨scope, span, "get"⟩ hs (fun k p hp => ?_) fun k hnone => ?_
    · rw [bind_of_done hs.listItems_eq, List.size_toArray, hp, Option.bind_some,
        List.getElem?_toArray]
      by_cases h : p < xs.length
      · rw [dif_pos h, List.getElem?_eq_getElem h]
        exact .value hs.left
      · rw [dif_neg h, List.getElem?_eq_none (not_lt.mp h)]
        exact .refused hs ⟨_, rfl, rfl⟩
    · rw [bind_of_done hs.listItems_eq, List.size_toArray, hnone]
      exact ⟨_, rfl, rfl⟩
  | [] => exact .refused hs (exactly_bind_refused (by simp))
  | i :: j :: rest => exact .refused hs (exactly_bind_refused (by simp))

/-- An item is put at a place, before the one that is there, or at the end. -/
theorem insert_served (hs : s.ListHolds r xs) :
    Served s r span (call xs .insert args)
      (Dispatch.invoke E scope (.list r) "insert" args span s) := by
  rw [Dispatch.invoke_method (.list r) trivial rfl rfl]
  match args with
  | [i, v] =>
    have hcount : [i, v].length = 2 := rfl
    have hcall : call xs .insert [i, v] = atPlace xs i fun p =>
        if p ≤ xs.length then some (.self, xs.take p ++ v :: xs.drop p) else none := rfl
    rw [exactly_bind hcount, hcall]
    refine atPlace_served ⟨scope, span, "insert"⟩ hs (fun k p hp => ?_) fun k hnone => ?_
    · rw [bind_of_done hs.listItems_eq, List.size_toArray, hp]
      dsimp only
      by_cases h : p ≤ xs.length
      · rw [if_pos h, if_pos h]
        refine .self (hs.edit ?_)
        simp [List.extract_eq_take_drop, List.take_of_length_le]
      · rw [if_neg h, if_neg h]
        exact .refused hs ⟨_, rfl, rfl⟩
    · rw [bind_of_done hs.listItems_eq, List.size_toArray, hnone]
      exact ⟨_, rfl, rfl⟩
  | [] => exact .refused hs (exactly_bind_refused (by simp))
  | [i] => exact .refused hs (exactly_bind_refused (by simp))
  | i :: j :: k :: rest => exact .refused hs (exactly_bind_refused (by simp))

/-- The item at a place goes, and those behind it move up. -/
theorem remove_served (hs : s.ListHolds r xs) :
    Served s r span (call xs .remove args)
      (Dispatch.invoke E scope (.list r) "remove" args span s) := by
  rw [Dispatch.invoke_method (.list r) trivial rfl rfl]
  match args with
  | [i] =>
    have hcount : [i].length = 1 := rfl
    have hcall : call xs .remove [i] = atPlace xs i fun p =>
        if h : p < xs.length then some (.value xs[p], xs.eraseIdx p) else none := rfl
    rw [exactly_bind hcount, hcall]
    refine atPlace_served ⟨scope, span, "remove"⟩ hs (fun k p hp => ?_) fun k hnone => ?_
    · rw [bind_of_done hs.listItems_eq, List.size_toArray, hp, Option.bind_some,
        List.getElem?_toArray]
      by_cases h : p < xs.length
      · rw [dif_pos h, List.getElem?_eq_getElem h]
        refine .value (hs.edit ?_)
        simp [List.extract_eq_take_drop, List.take_of_length_le, List.eraseIdx_eq_take_drop_succ]
      · rw [dif_neg h, List.getElem?_eq_none (not_lt.mp h)]
        exact .refused hs ⟨_, rfl, rfl⟩
    · rw [bind_of_done hs.listItems_eq, List.size_toArray, hnone]
      exact ⟨_, rfl, rfl⟩
  | [] => exact .refused hs (exactly_bind_refused (by simp))
  | i :: j :: rest => exact .refused hs (exactly_bind_refused (by simp))

end

/-! ### Histories -/

/-- **A call does to a list what it does to a plain sequence.** -/
theorem served (hs : s.ListHolds r xs) (E : Engine) (scope : Ref .scope) (m : ListMethod)
    (args : List Value) (span : Span) :
    Served s r span (call xs m args) (Dispatch.invoke E scope (.list r) m.name args span s) := by
  -- one lemma each; those without an index share `plain_served`, those with one `atPlace_served`
  cases m with
  | pushBack => exact pushBack_served hs
  | pushFront => exact pushFront_served hs
  | popBack => exact popBack_served hs
  | popFront => exact popFront_served hs
  | front => exact front_served hs
  | back => exact back_served hs
  | len => exact len_served hs
  | isEmpty => exact isEmpty_served hs
  | clear => exact clear_served hs
  | toArray => exact toArray_served hs
  | get => exact get_served hs
  | insert => exact insert_served hs
  | remove => exact remove_served hs

/-- What happens while there is a list. -/
inductive Event where
  /-- A method of the list is called. -/
  | call (m : ListMethod) (args : List Value)
  /-- Something that leaves the list as it is. -/
  | other

/-- One step of the engine, as far as the list is concerned. -/
inductive Step (r : Ref .list) : State → Event → State → Prop
  | call {s t : State} {E : Engine} {scope : Ref .scope} {m : ListMethod} {args : List Value}
      {span : Span} {o : Except Fault Value} :
      (Dispatch.invoke E scope (.list r) m.name args span s).Ends o t → Step r s (.call m args) t
  | other {s t : State} : t.heap.lists.get? r = s.heap.lists.get? r → Step r s .other t

/-- The items after one more event. -/
def next (xs : List Value) : Event → List Value
  | .call m args => (call xs m args).2
  | .other => xs

/-- The items after a history of events. -/
def after (xs : List Value) (events : List Event) : List Value := events.foldl next xs

/-- A step keeps the contents of the list those of the plain sequence. -/
theorem Step.holds {e : Event} (hstep : Step r s e t) (hs : s.ListHolds r xs) :
    t.ListHolds r (next xs e) := by
  cases hstep with
  | call hends => exact (served hs _ _ _ _ _).holds hends
  | other heq => exact heq.trans hs

/-- **After any history a list is the plain sequence after the same calls.** Its contents are those of
the sequence, and so the next call, whatever it is, answers at once what it answers for the sequence
and leaves the items that it leaves there. A call that is refused has one of the four codes and changes
nothing. -/
theorem served_after {events : List Event} (hs : s.ListHolds r xs)
    (hrun : Runs (Step r) s events t) :
    t.ListHolds r (after xs events) ∧
      ∀ (E : Engine) (scope : Ref .scope) (m : ListMethod) (args : List Value) (span : Span),
        Served t r span (call (after xs events) m args)
          (Dispatch.invoke E scope (.list r) m.name args span t) := by
  have hholds : t.ListHolds r (after xs events) := by
    -- by induction on the history: each event leaves the items that the plain sequence has after it
    refine hrun.history (P := fun past t => t.ListHolds r (after xs past)) ?_ hs
    intro past s e t hpast hstep
    rw [after, List.foldl_append]
    exact hstep.holds hpast
  exact ⟨hholds, served hholds⟩

/-- A list is made and filled, and `"x"` put in front of its last item; its last item but one is then
`"x"`. -/
theorem served_after_insert :
    ∃ s t : State, s.ListHolds ⟨0⟩ [] ∧
      Runs (Step ⟨0⟩) s
        [.call .pushBack [.int 2, .int 3], .call .insert [.int (-1), .text "x"]] t ∧
      t.ListHolds ⟨0⟩ [.int 2, .text "x", .int 3] ∧
      Served t ⟨0⟩ .unknown (.value (.text "x"), [.int 2, .text "x", .int 3])
        (Dispatch.invoke .idle State.root (.list ⟨0⟩) "get" [.int (-2)] .unknown t) := by
  let s : State := { State.blank with heap := { Heap.empty with lists := ⟨#[#[]]⟩ } }
  have hpush : ∃ t, (Dispatch.invoke .idle State.root (.list ⟨0⟩) ListMethod.pushBack.name
      [.int 2, .int 3] .unknown s).Ends (.ok (.list ⟨0⟩)) t := ⟨_, .done _ _⟩
  have hs : s.ListHolds ⟨0⟩ [] := rfl
  obtain ⟨t, ht⟩ := hpush
  have hinsert : ∃ u, (Dispatch.invoke .idle State.root (.list ⟨0⟩) ListMethod.insert.name
      [.int (-1), .text "x"] .unknown t).Ends (.ok (.list ⟨0⟩)) u := by
    -- the first call is over at once, so the second one is made in the state it has left
    obtain ⟨-, rfl⟩ := Run.ends_done_iff.mp ht
    exact ⟨_, .done _ _⟩
  obtain ⟨u, hu⟩ := hinsert
  have hrun : Runs (Step ⟨0⟩) s
      [.call .pushBack [.int 2, .int 3], .call .insert [.int (-1), .text "x"]] u :=
    .cons (.call ht) (.cons (.call hu) (.nil u))
  obtain ⟨hholds, hnext⟩ := served_after hs hrun
  exact ⟨s, u, hs, hrun, hholds, hnext .idle State.root .get [.int (-2)] .unknown⟩

end PlainList

end ScriptEngine
