import ScriptEngine.Proofs.Equality.Operator

/-!
# The order of exact numbers

Integers and decimals are exact: each stands for one number (`ExactNumber.toRat`). The comparison
operators bring two of them to a common kind and compare them there, so a number is compared as
what it counts for next to the other one (`ExactNumber.beside`). For two kinds out of three that is
the number itself. An unsigned integer next to a signed one, however, counts for the signed integer
with its bits, which from 2 ^ 63 on is a negative number.

So any two numbers are ordered one way (`ExactNumber.finds_of_compareBy`), and this is the order of
the numbers unless such an integer falls to the other one or below it (`ExactNumber.Misread`).
-/

namespace ScriptEngine

open Eval

/-- The numbers that are held exactly. -/
inductive ExactNumber where
  | int (n : Int64)
  | uint (n : UInt64)
  | decimal (d : Decimal)
deriving DecidableEq, Repr

namespace ExactNumber

def toValue : ExactNumber → Value
  | int n => .int n
  | uint n => .uint n
  | decimal d => .decimal d

/-- The number itself. -/
def toRat : ExactNumber → ℚ
  | int n => n.toInt
  | uint n => n.toNat
  | decimal d => d.toRat

/-- What a number counts for next to another one. -/
def beside : ExactNumber → ExactNumber → ℚ
  | uint n, int _ => n.toInt64.toInt
  | a, _ => a.toRat

/-- The order that the operators go by. -/
def order (a b : ExactNumber) : Ordering := compare (a.beside b) (b.beside a)

/-- One number is unsigned, the other signed; and with its bits read as those of a signed integer
the former has become negative, and no greater than the latter. -/
inductive Misread : ExactNumber → ExactNumber → Prop
  | right {n : Int64} {m : UInt64} : 2 ^ 63 ≤ m.toNat → (m.toNat : ℤ) - 2 ^ 64 ≤ n.toInt →
      Misread (int n) (uint m)
  | left {n : Int64} {m : UInt64} : 2 ^ 63 ≤ m.toNat → (m.toNat : ℤ) - 2 ^ 64 ≤ n.toInt →
      Misread (uint m) (int n)

/-- In the state the operator answers so for the two numbers. -/
def Finds (a : ExactNumber) (s : State) (op : InfixOp) (b : ExactNumber) (answer : Bool) : Prop :=
  ∀ span, Operators.binary op a.toValue b.toValue span s = .done (.bool answer) s

variable {a b : ExactNumber} {s : State} {op : InfixOp} {answer : Bool}

/-! ### What is compared -/

/-- A kind of integers is ordered as the numbers these stand for, if that is so of being less. -/
theorem compare_eq_of_lt_iff {α : Type} [Ord α] [LT α] [LE α] [Std.LawfulEqOrd α]
    [Std.LawfulOrderOrd α] [Std.LawfulOrderLT α] {f : α → ℚ} (h : ∀ x y, x < y ↔ f x < f y)
    (x y : α) : compare x y = compare (f x) (f y) := by
  -- the three answers of one order are carried over to the other
  symm
  cases hxy : compare x y with
  | lt => exact compare_lt_iff_lt.mpr ((h x y).mp (Std.compare_eq_lt.mp hxy))
  | eq =>
    obtain rfl := Std.compare_eq_iff_eq.mp hxy
    exact compare_eq_iff_eq.mpr rfl
  | gt => exact compare_gt_iff_gt.mpr ((h y x).mp (Std.compare_eq_gt.mp hxy))

/-- So of signed integers. -/
theorem compare_int (n m : Int64) : compare n m = compare (n.toInt : ℚ) m.toInt := by
  have hlt : ∀ n m : Int64, n < m ↔ (n.toInt : ℚ) < m.toInt := fun _ _ =>
    Int64.lt_iff_toInt_lt.trans Int.cast_lt.symm
  have h := compare_eq_of_lt_iff hlt n m
  exact h

/-- So of unsigned ones. -/
theorem compare_uint (n m : UInt64) : compare n m = compare (n.toNat : ℚ) m.toNat := by
  have hlt : ∀ n m : UInt64, n < m ↔ (n.toNat : ℚ) < m.toNat := fun _ _ =>
    UInt64.lt_iff_toNat_lt.trans Nat.cast_lt.symm
  have h := compare_eq_of_lt_iff hlt n m
  exact h

/-- The pair holds two numbers that are in that order. -/
inductive Ordered (o : Ordering) : NumberPair → Prop
  | int {x y : Int64} : compare x y = o → Ordered o (.int x y)
  | uint {x y : UInt64} : compare x y = o → Ordered o (.uint x y)
  | decimal {x y : Decimal} : x.cmp y = o → Ordered o (.decimal x y)

/-- Operators that compare look at the order only. -/
theorem Ordered.onPair_eq {precision : Int32} {o : Ordering} {pair : NumberPair}
    (hpair : Ordered o pair) (h : Arithmetic.compareBy op (some o) = some answer) :
    Arithmetic.onPair precision op pair = .ok (some (.bool answer)) := by
  -- the operators that do not compare have no answer
  cases hpair with
  | int hxy =>
    subst hxy
    cases op <;> cases h <;> rfl
  | uint hxy =>
    subst hxy
    cases op <;> cases h <;> rfl
  | decimal hxy =>
    subst hxy
    cases op <;> cases h <;> rfl

/-- Two exact numbers are brought to a common kind in which they have the order that the operators
go by. -/
theorem exists_promoted (a b : ExactNumber) :
    ∃ pair, Arithmetic.promote a.toValue b.toValue = .ok (some pair) ∧
      Ordered (a.order b) pair := by
  have decimal : ∀ (d e : Decimal) (x y : ℚ), d.toRat = x → e.toRat = y →
      Ordered (compare x y) (.decimal d e) := by
    rintro d e _ _ rfl rfl
    exact .decimal (Decimal.cmp_eq_compare d e)
  cases a with
  | int n =>
    cases b with
    | int m => exact ⟨_, rfl, .int (compare_int n m)⟩
    -- here the unsigned integer is taken for a signed one
    | uint m => exact ⟨_, rfl, .int (compare_int n m.toInt64)⟩
    | decimal e => exact ⟨_, rfl, decimal _ _ _ _ (Decimal.toRat_ofInt _) rfl⟩
  | uint n =>
    cases b with
    -- and here too, on the left
    | int m => exact ⟨_, rfl, .int (compare_int n.toInt64 m)⟩
    | uint m => exact ⟨_, rfl, .uint (compare_uint n m)⟩
    | decimal e =>
      refine ⟨_, rfl, decimal _ _ _ _ ?_ rfl⟩
      exact (Decimal.toRat_ofInt _).trans (Int.cast_natCast _)
  | decimal d =>
    cases b with
    | int m => exact ⟨_, rfl, decimal _ _ _ _ rfl (Decimal.toRat_ofInt _)⟩
    | uint m =>
      refine ⟨_, rfl, decimal _ _ _ _ rfl ?_⟩
      exact (Decimal.toRat_ofInt _).trans (Int.cast_natCast _)
    | decimal e => exact ⟨_, rfl, decimal _ _ _ _ rfl rfl⟩

/-- **Exact numbers are compared by their order.** -/
theorem finds_of_compareBy (h : Arithmetic.compareBy op (some (a.order b)) = some answer) :
    a.Finds s op b answer := by
  obtain ⟨pair, hpromote, hordered⟩ := exists_promoted a b
  exact fun span => Operators.binary_of_pair hpromote (hordered.onPair_eq h) span

/-- The answer depends on nothing else. -/
theorem Finds.unique {answer' : Bool} (h : a.Finds s op b answer) (h' : a.Finds s op b answer') :
    answer = answer' := by
  have heq := (h .unknown).symm.trans (h' .unknown)
  cases heq
  rfl

/-- To be found less is to count for less. -/
theorem finds_less_iff : a.Finds s .less b true ↔ a.beside b < b.beside a := by
  -- the operator asks whether the order found is `lt`
  have hless : a.Finds s .less b (some (a.order b) == some .lt) := finds_of_compareBy rfl
  rw [← compare_lt_iff_lt]
  constructor
  · intro h
    have hlt := h.unique hless
    exact Option.some.inj (beq_iff_eq.mp hlt.symm)
  · intro h
    rw [order, h] at hless
    exact hless

/-! ### Where the order is that of the numbers -/

/-- What an unsigned integer counts for as a signed one. -/
theorem toInt_toInt64_eq (m : UInt64) :
    m.toInt64.toInt = if m.toNat < 2 ^ 63 then (m.toNat : ℤ) else m.toNat - 2 ^ 64 := by
  have hm := m.toNat_lt
  rw [toInt_toInt64, Int.bmod_def]
  -- the bits are read as negative from 2 ^ 63 on
  split <;> split <;> omega

/-- When a signed and an unsigned integer are misread. -/
theorem misread_int_uint_iff {n : Int64} {m : UInt64} :
    Misread (int n) (uint m) ↔ 2 ^ 63 ≤ m.toNat ∧ (m.toNat : ℤ) - 2 ^ 64 ≤ n.toInt := by
  constructor
  · rintro ⟨⟩
    exact ⟨‹_›, ‹_›⟩
  · rintro ⟨hm, hn⟩
    exact .right hm hn

/-- A pair is misread from both sides. -/
theorem Misread.symm (h : Misread a b) : Misread b a := by
  cases h with
  | right hm hn => exact .left hm hn
  | left hm hn => exact .right hm hn

/-- The order of the two the other way round. -/
theorem order_swap (a b : ExactNumber) : (a.order b).swap = b.order a :=
  Std.OrientedOrd.eq_swap.symm

/-- A signed and an unsigned integer. -/
theorem order_int_uint_iff (n : Int64) (m : UInt64) :
    (int n).order (uint m) = compare (int n).toRat (uint m).toRat ↔
      ¬ Misread (int n) (uint m) := by
  have hn := n.toInt_lt
  rw [misread_int_uint_iff]
  change compare (n.toInt : ℚ) (m.toInt64.toInt : ℚ) = compare (n.toInt : ℚ) (m.toNat : ℚ) ↔ _
  rw [toInt_toInt64_eq]
  split
  · next hm =>
    -- below 2 ^ 63 the bits are those of the same number
    refine iff_of_true (by rw [Int.cast_natCast]) ?_
    omega
  · next hm =>
    -- from there on the unsigned integer is greater than all signed ones
    have hless : compare (n.toInt : ℚ) (m.toNat : ℚ) = .lt := by
      rw [compare_lt_iff_lt]
      have hnm : n.toInt < (m.toNat : ℤ) := by omega
      exact_mod_cast hnm
    rw [hless, compare_lt_iff_lt, Int.cast_lt]
    omega

/-- **The order is that of the numbers** but for those that are misread. -/
theorem order_eq_compare_iff (a b : ExactNumber) :
    a.order b = compare a.toRat b.toRat ↔ ¬ Misread a b := by
  cases a with
  | int n =>
    cases b with
    | uint m => exact order_int_uint_iff n m
    | int m => exact iff_of_true rfl nofun
    | decimal e => exact iff_of_true rfl nofun
  | uint n =>
    cases b with
    | int m =>
      -- the other way round both orders are swapped
      have hmisread : Misread (uint n) (int m) ↔ Misread (int m) (uint n) := ⟨.symm, .symm⟩
      have hswap : compare (uint n).toRat (int m).toRat =
          (compare (int m).toRat (uint n).toRat).swap := Std.OrientedOrd.eq_swap
      rw [hmisread, ← order_int_uint_iff m n, ← order_swap, hswap, Ordering.swap_inj]
    | uint m => exact iff_of_true rfl nofun
    | decimal e => exact iff_of_true rfl nofun
  | decimal d => cases b <;> exact iff_of_true rfl nofun

/-- Where numbers are not misread, one is found to be less than the other if it is. -/
theorem finds_less_iff_of_not_misread (h : ¬ Misread a b) :
    a.Finds s .less b true ↔ a.toRat < b.toRat := by
  rw [finds_less_iff, ← compare_lt_iff_lt, ← compare_lt_iff_lt, ← (order_eq_compare_iff a b).mpr h]
  rfl

/-- A misread number that is the greater one is not found to be so. -/
theorem Misread.not_finds_less (h : Misread a b) (hlt : a.toRat < b.toRat) :
    ¬ a.Finds s .less b true := by
  rw [finds_less_iff]
  cases h with
  | @right n m hm hn =>
    -- as a signed integer the unsigned one is no greater than `n`
    change ¬ (n.toInt : ℚ) < (m.toInt64.toInt : ℚ)
    rw [toInt_toInt64_eq, if_neg (by omega), Int.cast_lt]
    omega
  | @left n m hm hn =>
    -- here the misread number is the one on the left
    have hnm : (m.toNat : ℤ) < n.toInt := by exact_mod_cast (show (m.toNat : ℚ) < n.toInt from hlt)
    have := n.toInt_lt
    omega

/-- Being less is transitive but for numbers that are misread. -/
theorem finds_less_trans {c : ExactNumber} (hab : ¬ Misread a b) (hbc : ¬ Misread b c)
    (hless : a.Finds s .less b true) (hless' : b.Finds s .less c true) :
    a.Finds s .less c true ↔ ¬ Misread a c := by
  have hlt : a.toRat < c.toRat := by
    calc a.toRat < b.toRat := (finds_less_iff_of_not_misread hab).mp hless
      _ < c.toRat := (finds_less_iff_of_not_misread hbc).mp hless'
  constructor
  · intro h hmisread
    exact hmisread.not_finds_less hlt h
  · intro hmisread
    exact (finds_less_iff_of_not_misread hmisread).mpr hlt

/-! ### The answers of the operators -/

/-- The answers of `<`, `==` and `>` are those for two numbers. -/
structure Tells (x y : ℚ) (less equal greater : Bool) : Prop where
  less : less = true ↔ x < y
  equal : equal = true ↔ x = y
  greater : greater = true ↔ y < x

/-- The three answers are right just if the order they are taken from is. -/
theorem tells_iff {x y : ℚ} (o : Ordering) :
    Tells x y (o == .lt) (o == .eq) (o == .gt) ↔ o = compare x y := by
  constructor
  · intro h
    cases o with
    | lt => exact (compare_lt_iff_lt.mpr (h.less.mp rfl)).symm
    | eq => exact (compare_eq_iff_eq.mpr (h.equal.mp rfl)).symm
    | gt => exact (compare_gt_iff_gt.mpr (h.greater.mp rfl)).symm
  · rintro rfl
    exact ⟨beq_iff_eq.trans compare_lt_iff_lt, beq_iff_eq.trans compare_eq_iff_eq,
      beq_iff_eq.trans compare_gt_iff_gt⟩

/-- A number is an operand like any other value. -/
theorem operand_toValue {E : Engine} {scope : Ref .scope} {e : Expr} {t : State}
    (h : E.expr scope e t = .done a.toValue s) : E.operand scope e t = .done a.toValue s := by
  refine (bind_of_done h _).trans ?_
  -- a number is no error, so it is an operand as it is
  cases a <;> rfl

/-- All operators but those that look at their left side first. -/
theorem eval_binary {E : Engine} {scope : Ref .scope} {left right : Expr} {t u : State}
    (hand : op ≠ .and) (hor : op ≠ .or) (hleft : E.expr scope left t = .done a.toValue u)
    (hright : E.expr scope right u = .done b.toValue s) (span : Span) :
    Expr.eval E scope (.mk (.binary op left right) span) t =
      Operators.binary op a.toValue b.toValue span s := by
  have heval : Expr.eval E scope (.mk (.binary op left right) span) =
      E.operand scope left >>= fun a => E.operand scope right >>= fun b =>
        Operators.binary op a b span := by
    -- only `&&` and `||` may leave their right side alone
    cases op with
    | and => exact absurd rfl hand
    | or => exact absurd rfl hor
    | _ => rfl
  rw [heval, bind_of_done (operand_toValue hleft), bind_of_done (operand_toValue hright)]

end ExactNumber

/-- **Comparison operators order exact numbers, as they count next to each other.** For any two
signed or unsigned integers or decimals exactly one of `<`, `==` and `>` answers true; `<=` and `>=`
answer true where `<` or `==`, and `>` or `==`, do, and `!=` where `==` does not; all of them answer,
and leave the state as it is. What they compare is what each number counts for next to the other.
That is the order of the numbers themselves if, and only if, the two are not misread: an unsigned
integer from 2 ^ 63 on counts for a negative one next to a signed integer, and is misread if it
falls to it or below. And if `a < b` and `b < c` are true of numbers that are not misread, then so is
`a < c`, unless `a` and `c` are misread.

An expression with such an operator answers what the operator answers for the values of its
operands. -/
theorem Operators.comparisons_order (a b c : ExactNumber) (s : State) :
    (∃ less equal greater,
      a.Finds s .less b less ∧ a.Finds s .equal b equal ∧ a.Finds s .greater b greater ∧
      (less, equal, greater) ∈ [(true, false, false), (false, true, false), (false, false, true)] ∧
      a.Finds s .lessEqual b (less || equal) ∧ a.Finds s .greaterEqual b (greater || equal) ∧
      a.Finds s .notEqual b !equal ∧
      ExactNumber.Tells (a.beside b) (b.beside a) less equal greater ∧
      (ExactNumber.Tells a.toRat b.toRat less equal greater ↔ ¬ a.Misread b)) ∧
    (¬ a.Misread b → ¬ b.Misread c → a.Finds s .less b true → b.Finds s .less c true →
      (a.Finds s .less c true ↔ ¬ a.Misread c)) ∧
    ∀ {E : Engine} {scope : Ref .scope} {left right : Expr} {t u : State} {op : InfixOp}
      (span : Span), op ≠ .and → op ≠ .or → E.expr scope left t = .done a.toValue u →
      E.expr scope right u = .done b.toValue s →
      Expr.eval E scope (.mk (.binary op left right) span) t =
        binary op a.toValue b.toValue span s := by
  refine ⟨?answers, ExactNumber.finds_less_trans, ?expression⟩
  case expression =>
    intro E scope left right t u op span hand hor hleft hright
    exact ExactNumber.eval_binary hand hor hleft hright span
  case answers =>
    refine ⟨a.order b == .lt, a.order b == .eq, a.order b == .gt,
      ExactNumber.finds_of_compareBy rfl, ExactNumber.finds_of_compareBy rfl,
      ExactNumber.finds_of_compareBy rfl, ?_, ExactNumber.finds_of_compareBy rfl,
      ExactNumber.finds_of_compareBy rfl, ExactNumber.finds_of_compareBy rfl,
      (ExactNumber.tells_iff _).mpr rfl,
      (ExactNumber.tells_iff _).trans (ExactNumber.order_eq_compare_iff a b)⟩
    -- one of three orders, so one of three answers
    cases a.order b <;> decide

/-- `-1 < 0u` and `0u < 18446744073709551615u` are true of numbers that are not misread, and the
expression with the former literals answers so. -/
theorem Operators.comparisons_order_literals :
    ¬ (ExactNumber.int (-1)).Misread (.uint 0) ∧
    ¬ (ExactNumber.uint 0).Misread (.uint 18446744073709551615) ∧
    (ExactNumber.int (-1)).Finds .blank .less (.uint 0) true ∧
    (ExactNumber.uint 0).Finds .blank .less (.uint 18446744073709551615) true ∧
    ((ExactNumber.int (-1)).Finds .blank .less (.uint 18446744073709551615) true ↔
      ¬ (ExactNumber.int (-1)).Misread (.uint 18446744073709551615)) ∧
    Expr.eval (.level 1) State.root
      (.mk (.binary .less (.mk (.int (-1)) .unknown) (.mk (.uint 0) .unknown)) .unknown) .blank =
      Operators.binary .less (.int (-1)) (.uint 0) .unknown .blank := by
  have hleft : ¬ (ExactNumber.int (-1)).Misread (.uint 0) := by
    rw [ExactNumber.misread_int_uint_iff]
    decide
  have hright : ¬ (ExactNumber.uint 0).Misread (.uint 18446744073709551615) := nofun
  obtain ⟨-, htrans, hexpr⟩ :=
    Operators.comparisons_order (.int (-1)) (.uint 0) (.uint 18446744073709551615) .blank
  exact ⟨hleft, hright, fun _ => rfl, fun _ => rfl,
    htrans hleft hright (fun _ => rfl) (fun _ => rfl),
    hexpr .unknown nofun nofun rfl rfl⟩

/-- `-1 < 0u` and `0u < 18446744073709551615u` are true, but `-1 < 18446744073709551615u` is false:
the latter two have the same bits. -/
theorem Operators.less_not_transitive :
    binary .less (.int (-1)) (.uint 0) .unknown .blank = .done (.bool true) .blank ∧
    binary .less (.uint 0) (.uint 18446744073709551615) .unknown .blank =
      .done (.bool true) .blank ∧
    binary .less (.int (-1)) (.uint 18446744073709551615) .unknown .blank =
      .done (.bool false) .blank :=
  ⟨rfl, rfl, rfl⟩

end ScriptEngine
