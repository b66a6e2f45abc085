import ScriptEngine.Eval.Expression
import ScriptEngine.Proofs.Equality.Contents
import ScriptEngine.Proofs.Run.Ends

/-!
# The equality operators

`==` and `!=` bring two numbers to a common kind first, and compare everything else by
`State.equal`. On plain values the two ways agree up to promotion (`Operators.binary_equal`): an
unsigned integer becomes the signed one with its bits (`SameBits`), and an integer next to a
decimal becomes a decimal (`SameNumber`). What is inside containers is not promoted: `[a] == [b]`
asks whether `a` and `b` are equal as values (`State.equal_of_wraps`).
-/

namespace ScriptEngine

open Eval

/-! ### What promotion makes equal -/

/-- One value is a negative integer and the other the unsigned one with the same 64 bits. -/
def SameBits : Value → Value → Prop
  | .int n, .uint m | .uint m, .int n => n < 0 ∧ n = m.toInt64
  | _, _ => False

/-- One value is a decimal and the other an integer, and they are one number. -/
def SameNumber : Value → Value → Prop
  | .decimal d, .int n | .int n, .decimal d => d.toRat = n.toInt
  | .decimal d, .uint n | .uint n, .decimal d => d.toRat = n.toNat
  | _, _ => False

namespace Arithmetic

/-- Whether two numbers of one kind are equal. -/
def same : NumberPair → Bool
  | .int a b => a == b
  | .uint a b => a == b
  | .float a b => floatOrder a b == some .eq
  | .decimal a b => a == b

/-- Two values compare as equal just if they are equal. -/
theorem some_compare_beq {α : Type} [Ord α] [BEq α] [LawfulBEq α] [Std.LawfulEqOrd α] (a b : α) :
    (some (compare a b) == some .eq) = (a == b) := by
  rw [Bool.eq_iff_iff, beq_iff_eq, Option.some.injEq, Std.compare_eq_iff_eq, beq_iff_eq]

/-- Two numbers of one kind are compared for equality. -/
theorem onPair_equal (precision : Int32) (pair : NumberPair) :
    onPair precision .equal pair = .ok (some (.bool (same pair))) ∧
      onPair precision .notEqual pair = .ok (some (.bool !same pair)) := by
  cases pair with
  | int a b =>
    rw [same, ← some_compare_beq]
    exact ⟨rfl, rfl⟩
  | uint a b =>
    rw [same, ← some_compare_beq]
    exact ⟨rfl, rfl⟩
  | float a b => exact ⟨rfl, rfl⟩
  | decimal a b => exact ⟨rfl, rfl⟩

/-- Only numbers become decimals. -/
theorem toDecimal?_of_not_number {v : Value} (h : isNumber v = false) :
    toDecimal? v = .ok none := by
  cases v <;> first | rfl | exact nomatch h

/-- Only numbers become doubles. -/
theorem toFloat?_of_not_number {v : Value} (h : isNumber v = false) : toFloat? v = none := by
  cases v <;> first | rfl | exact nomatch h

/-- Only numbers are brought to a common kind. -/
theorem promote_eq_none {a b : Value} (h : isNumber a = false ∨ isNumber b = false) :
    promote a b = .ok none := by
  unfold promote
  split
  · exact h.elim nofun nofun
  · exact h.elim nofun nofun
  · exact h.elim nofun nofun
  · exact h.elim nofun nofun
  -- next to a decimal, the other value decides
  · have hb := h.resolve_left nofun
    rw [decimals?, toDecimal?_of_not_number hb]
    rfl
  · have ha := h.resolve_right nofun
    rw [decimals?, toDecimal?_of_not_number ha]
    rfl
  -- next to a double, either of them does
  · obtain ha | hb := h
    · rw [floats?, toFloat?_of_not_number ha]
      rfl
    · rw [floats?, toFloat?_of_not_number hb]
      cases toFloat? _ <;> rfl

end Arithmetic

namespace Operators

variable {a b : Value} {s : State} {span : Span}

/-- Values that are not both numbers are compared as values. -/
theorem onOthers_equal (a b : Value) (span : Span) (s : State) :
    onOthers .equal a b span s = .done (.bool (s.equal a b)) s ∧
      onOthers .notEqual a b span s = .done (.bool !s.equal a b) s := by
  -- texts have their own comparison; for some kinds `onOthers` looks at the other value first
  cases a with
  | text x =>
    cases b with
    | text y =>
      have hequal : s.equal (.text x) (.text y) = (x == y) := rfl
      rw [hequal, ← Arithmetic.some_compare_beq]
      exact ⟨rfl, rfl⟩
    | _ => exact ⟨rfl, rfl⟩
  | int n => cases b <;> exact ⟨rfl, rfl⟩
  | array r => cases b <;> exact ⟨rfl, rfl⟩
  | tuple r => cases b <;> exact ⟨rfl, rfl⟩
  | _ => exact ⟨rfl, rfl⟩

/-- An operator on numbers answers what it answers for the pair. -/
theorem binary_of_pair {op : InfixOp} {pair : NumberPair} {v : Value} {s : State}
    (h : Arithmetic.promote a b = .ok (some pair))
    (hv : Arithmetic.onPair s.settings.divisionPrecision op pair = .ok (some v)) (span : Span) :
    binary op a b span s = .done v s := by
  rw [binary, h]
  change (ofRefusal span (Arithmetic.onPair s.settings.divisionPrecision op pair) >>= _) s = _
  rw [hv]
  rfl

/-- Where no pair is made, equality is that of values. -/
theorem binary_equal_of_none (h : Arithmetic.promote a b = .ok none) (span : Span) (s : State) :
    binary .equal a b span s = .done (.bool (s.equal a b)) s ∧
      binary .notEqual a b span s = .done (.bool !s.equal a b) s := by
  rw [binary, binary, h]
  exact onOthers_equal a b span s

end Operators

/-! ### Signed and unsigned integers -/

/-- The signed integer with the bits of an unsigned one is its remainder nearest to zero. -/
theorem toInt_toInt64 (m : UInt64) : m.toInt64.toInt = (m.toNat : ℤ).bmod (2 ^ 64) := by
  rw [← Int64.toInt_toBitVec, UInt64.toBitVec_toInt64, BitVec.toInt_eq_toNat_bmod,
    UInt64.toNat_toBitVec]

/-- The integer with the bits of an unsigned one is the same number or negative. -/
theorem eq_toInt64_iff (n : Int64) (m : UInt64) :
    n = m.toInt64 ↔ n.toInt = (m.toNat : ℤ) ∨ (n < 0 ∧ n = m.toInt64) := by
  have hlo := n.le_toInt
  have hhi := n.toInt_lt
  have hm := m.toNat_lt
  have hzero : (0 : Int64).toInt = 0 := rfl
  -- either the number is in the lower half, or 2 ^ 64 is taken from it
  rw [Int64.lt_iff_toInt_lt, ← Int64.toInt_inj, toInt_toInt64, Int.bmod_def, hzero]
  split <;> omega

/-! ### Plain values -/

section

variable {s : State} {a b : Value}

/-- The plain numbers are of three kinds. -/
theorem State.Plain.number_cases {v : Value} (h : s.Plain v)
    (hnum : Arithmetic.isNumber v = true) :
    (∃ n, v = .int n) ∨ (∃ n, v = .uint n) ∨ ∃ d, v = .decimal d := by
  cases h with
  | int n => exact .inl ⟨n, rfl⟩
  | uint n => exact .inr (.inl ⟨n, rfl⟩)
  | decimal d => exact .inr (.inr ⟨d, rfl⟩)
  | container h _ => cases h <;> exact nomatch hnum
  | _ => exact nomatch hnum

/-- Numbers of different kinds are compared as the same bits or as the same number. -/
theorem same_of_numbers (ha : s.Plain a) (hb : s.Plain b)
    (hna : Arithmetic.isNumber a = true) (hnb : Arithmetic.isNumber b = true) :
    ∃ pair, Arithmetic.promote a b = .ok (some pair) ∧
      (Arithmetic.same pair = true ↔ s.equal a b = true ∨ SameBits a b ∨ SameNumber a b) := by
  have alone : ∀ p : Prop, p ↔ p ∨ False ∨ False := fun p => by rw [or_false, or_false]
  -- nine pairs of kinds: two integers of different kinds may share their bits, an integer and a
  -- decimal may be one number
  obtain ⟨n, rfl⟩ | ⟨n, rfl⟩ | ⟨d, rfl⟩ := ha.number_cases hna
  · obtain ⟨m, rfl⟩ | ⟨m, rfl⟩ | ⟨e, rfl⟩ := hb.number_cases hnb
    · exact ⟨_, rfl, alone _⟩
    · refine ⟨_, rfl, ?_⟩
      change _ ↔ (n.toInt == (m.toNat : ℤ)) = true ∨ (n < 0 ∧ n = m.toInt64) ∨ False
      rw [Arithmetic.same, or_false, beq_iff_eq, beq_iff_eq]
      exact eq_toInt64_iff n m
    · refine ⟨_, rfl, ?_⟩
      change _ ↔ false = true ∨ False ∨ e.toRat = n.toInt
      rw [Arithmetic.same, Decimal.beq_iff_toRat_eq, Decimal.toRat_ofInt, eq_comm]
      simp
  · obtain ⟨m, rfl⟩ | ⟨m, rfl⟩ | ⟨e, rfl⟩ := hb.number_cases hnb
    · refine ⟨_, rfl, ?_⟩
      change _ ↔ ((n.toNat : ℤ) == m.toInt) = true ∨ (m < 0 ∧ m = n.toInt64) ∨ False
      rw [Arithmetic.same, or_false, beq_iff_eq, beq_iff_eq, eq_comm, eq_comm (a := (n.toNat : ℤ))]
      exact eq_toInt64_iff m n
    · exact ⟨_, rfl, alone _⟩
    · refine ⟨_, rfl, ?_⟩
      change _ ↔ false = true ∨ False ∨ e.toRat = n.toNat
      rw [Arithmetic.same, Decimal.beq_iff_toRat_eq, Decimal.toRat_ofInt, eq_comm]
      simp
  · obtain ⟨m, rfl⟩ | ⟨m, rfl⟩ | ⟨e, rfl⟩ := hb.number_cases hnb
    · refine ⟨_, rfl, ?_⟩
      change _ ↔ false = true ∨ False ∨ d.toRat = m.toInt
      rw [Arithmetic.same, Decimal.beq_iff_toRat_eq, Decimal.toRat_ofInt]
      simp
    · refine ⟨_, rfl, ?_⟩
      change _ ↔ false = true ∨ False ∨ d.toRat = m.toNat
      rw [Arithmetic.same, Decimal.beq_iff_toRat_eq, Decimal.toRat_ofInt]
      simp
    · exact ⟨_, rfl, alone _⟩

/-- Only integers share their bits. -/
theorem isNumber_of_sameBits (h : SameBits a b) :
    Arithmetic.isNumber a = true ∧ Arithmetic.isNumber b = true := by
  unfold SameBits at h
  split at h
  · exact ⟨rfl, rfl⟩
  · exact ⟨rfl, rfl⟩
  · exact h.elim

/-- Only integers and decimals are one number. -/
theorem isNumber_of_sameNumber (h : SameNumber a b) :
    Arithmetic.isNumber a = true ∧ Arithmetic.isNumber b = true := by
  unfold SameNumber at h
  split at h
  · exact ⟨rfl, rfl⟩
  · exact ⟨rfl, rfl⟩
  · exact ⟨rfl, rfl⟩
  · exact ⟨rfl, rfl⟩
  · exact h.elim

/-- The operators compare plain values as values, but for what promotion makes equal. -/
theorem Operators.binary_equal (ha : s.Plain a) (hb : s.Plain b) (span : Span) :
    ∃ answer, binary .equal a b span s = .done (.bool answer) s ∧
      binary .notEqual a b span s = .done (.bool !answer) s ∧
      (answer = true ↔ s.equal a b = true ∨ SameBits a b ∨ SameNumber a b) := by
  -- numbers go by the pair that they are brought to, all else by the values
  by_cases hnum : Arithmetic.isNumber a = true ∧ Arithmetic.isNumber b = true
  · obtain ⟨pair, hpair, hsame⟩ := same_of_numbers ha hb hnum.1 hnum.2
    obtain ⟨hequal, hnotEqual⟩ := Arithmetic.onPair_equal s.settings.divisionPrecision pair
    exact ⟨_, binary_of_pair hpair hequal span, binary_of_pair hpair hnotEqual span, hsame⟩
  · have hnone : Arithmetic.promote a b = .ok none := by
      rw [not_and_or, Bool.not_eq_true, Bool.not_eq_true] at hnum
      exact Arithmetic.promote_eq_none hnum
    obtain ⟨hequal, hnotEqual⟩ := binary_equal_of_none hnone span s
    refine ⟨_, hequal, hnotEqual, .inl, ?_⟩
    rintro (h | h | h)
    · exact h
    · exact absurd (isNumber_of_sameBits h) hnum
    · exact absurd (isNumber_of_sameNumber h) hnum

/-- Two containers of one kind that hold `a` and `b` alone. -/
inductive State.Wraps (s : State) (a b : Value) : Value → Value → Prop
  | array {r q : Ref .array} :
      s.heap.arrays.get? r = some #[a] → s.heap.arrays.get? q = some #[b] →
      Wraps s a b (.array r) (.array q)
  | tuple {r q : Ref .tuple} :
      s.heap.tuples.get? r = some #[a] → s.heap.tuples.get? q = some #[b] →
      Wraps s a b (.tuple r) (.tuple q)
  | hash {r q : Ref .hash} (k : Key) :
      s.heap.hashes.get? r = some ⟨[(k, a)]⟩ → s.heap.hashes.get? q = some ⟨[(k, b)]⟩ →
      Wraps s a b (.hash r) (.hash q)

/-- Containers are compared by what they hold, even one with itself. -/
theorem State.equal_of_wraps {v w : Value} (ha : s.Plain a) (h : s.Wraps a b v w) :
    s.equal v w = s.equal a b := by
  have hplain : ∀ x ∈ [a], s.Plain x := List.forall_mem_singleton.mpr ha
  have hor : ∀ {p c : Bool}, (p = true → c = true) → (p || (c && true)) = c := by decide
  cases h with
  -- where both are one container, `a` and `b` are one value
  | @array r q hr hq =>
    have hone : (r == q) = true → s.equal a b = true := fun h => by
      rw [beq_iff_eq.mp h, hq, Option.some.injEq, Array.mk.injEq, List.singleton_inj] at hr
      rw [hr]
      exact ha.equal_self
    rw [equal_array hr hq hplain]
    exact hor hone
  | tuple hr hq =>
    rw [equal_tuple hr hq hplain]
    exact Bool.and_true _
  | @hash r q k hr hq =>
    have hone : (r == q) = true → s.equal a b = true := fun h => by
      rw [beq_iff_eq.mp h, hq, Option.some.injEq, Assoc.mk.injEq, List.singleton_inj,
        Prod.mk.injEq] at hr
      rw [hr.2]
      exact ha.equal_self
    have hfound : allFound s.equal ⟨[(k, a)]⟩ ⟨[(k, b)]⟩ = (s.equal a b && true) := by
      have hget : (⟨[(k, b)]⟩ : Assoc Key Value).get? k = some b := if_pos rfl
      unfold allFound
      rw [List.all_cons, hget]
      rfl
    rw [equal_hash hr hq hplain, hfound]
    -- the only entry has its key in the other hash
    exact hor hone

end

section

variable {E : Engine} {scope : Ref .scope} {left right : Expr} {s t u : State} {a b : Value}

/-- A plain value can be an operand, since it is no fault. -/
theorem operand_of_plain {e : Expr} (he : E.expr scope e s = .done a t) {u : State}
    (ha : u.Plain a) : E.operand scope e s = .done a t := by
  refine (bind_of_done he _).trans ?_
  cases ha with
  | container h _ => cases h <;> rfl
  | _ => rfl

/-- An expression with one of the two operators answers what the operator does. -/
theorem eval_binary_equal {op : InfixOp} (hop : op = .equal ∨ op = .notEqual) {answer : Bool}
    (hl : E.operand scope left s = .done a t) (hr : E.operand scope right t = .done b u)
    {span : Span} (h : Operators.binary op a b span u = .done (.bool answer) u) :
    Expr.eval E scope (.mk (.binary op left right) span) s = .done (.bool answer) u := by
  have heval : Expr.eval E scope (.mk (.binary op left right) span) =
      E.operand scope left >>= fun a => E.operand scope right >>= fun b =>
        Operators.binary op a b span := by
    obtain rfl | rfl := hop <;> rfl
  rw [heval, bind_of_done hl, bind_of_done hr, h]

/-- **Equality is that of values, up to promotion.** Where the operands of `==` have plain values,
the comparison answers true or false and `!=` the opposite. The answer is true just if the values
are equal or promotion makes them so: a negative integer and an unsigned one with its bits, or a
decimal and an integer that are one number. Containers of `a` and of `b` are compared by the
equality of values, which is what `deepEqual` answers. -/
theorem Expr.eval_equality (hleft : E.expr scope left s = .done a t)
    (hright : E.expr scope right t = .done b u) (ha : u.Plain a) (hb : u.Plain b)
    (span : Span) (site : CallSite) :
    ∃ answer,
      Expr.eval E scope (.mk (.binary .equal left right) span) s = .done (.bool answer) u ∧
      Expr.eval E scope (.mk (.binary .notEqual left right) span) s = .done (.bool !answer) u ∧
      (answer = true ↔ u.equal a b = true ∨ SameBits a b ∨ SameNumber a b) ∧
      Builtin.run E site [a, b] .deepEqual u = .done (.bool (u.equal a b)) u ∧
      ∀ v w, u.Wraps a b v w →
        Operators.binary .equal v w span u = .done (.bool (u.equal a b)) u := by
  have hl := operand_of_plain hleft ha
  have hr := operand_of_plain hright hb
  obtain ⟨answer, hequal, hnotEqual, hiff⟩ := Operators.binary_equal ha hb span
  refine ⟨answer, eval_binary_equal (.inl rfl) hl hr hequal,
    eval_binary_equal (.inr rfl) hl hr hnotEqual, hiff, rfl, ?_⟩
  intro v w h
  -- containers are no numbers
  have hnum : Arithmetic.isNumber v = false := by
    cases h <;> rfl
  have hpromote : Arithmetic.promote v w = .ok none := Arithmetic.promote_eq_none (.inl hnum)
  rw [(Operators.binary_equal_of_none hpromote span u).1, State.equal_of_wraps ha h]

/-- The state that a program starts in when the host provides nothing. -/
def State.blank : State := .initial ⟨.empty, .default, none, .empty, false, 0, 0⟩

/-- The literal of an array with one item. -/
def Expr.arrayOf (item : ExprForm) : Expr := .mk (.array [.mk item .unknown]) .unknown

/-- The array literals `[1]` and `[1u]`. -/
theorem Expr.eval_equality_arrays :
    ∃ (a b : Value) (t u : State),
      (Engine.level 2).expr State.root (arrayOf (.int 1)) .blank = .done a t ∧
      (Engine.level 2).expr State.root (arrayOf (.uint 1)) t = .done b u ∧
      u.Plain a ∧ u.Plain b ∧
      ∃ answer,
        Expr.eval (.level 2) State.root
          (.mk (.binary .equal (arrayOf (.int 1)) (arrayOf (.uint 1))) .unknown) .blank =
          .done (.bool answer) u ∧
        Expr.eval (.level 2) State.root
          (.mk (.binary .notEqual (arrayOf (.int 1)) (arrayOf (.uint 1))) .unknown) .blank =
          .done (.bool !answer) u ∧
        (answer = true ↔ u.equal a b = true ∨ SameBits a b ∨ SameNumber a b) ∧
        Builtin.run (.level 2) ⟨State.root, .unknown, "deepEqual"⟩ [a, b] .deepEqual u =
          .done (.bool (u.equal a b)) u ∧
        ∀ v w, u.Wraps a b v w →
          Operators.binary .equal v w .unknown u = .done (.bool (u.equal a b)) u := by
  have one : ∀ {u : State}, ∀ v ∈ [Value.int 1], u.Plain v :=
    List.forall_mem_singleton.mpr (.int 1)
  have oneUnsigned : ∀ {u : State}, ∀ v ∈ [Value.uint 1], u.Plain v :=
    List.forall_mem_singleton.mpr (.uint 1)
  exact ⟨_, _, _, _, rfl, rfl, .container (.array rfl) one, .container (.array rfl) oneUnsigned,
    Expr.eval_equality rfl rfl (.container (.array rfl) one)
      (.container (.array rfl) oneUnsigned) _ _⟩

/-- `-1 == 18446744073709551615u` holds, for both have all bits set, and so does `1d == 1`; yet
these are not equal as values. -/
theorem Expr.eval_equal_promoted :
    (Expr.eval (.level 1) State.root
        (.mk (.binary .equal (.mk (.int (-1)) .unknown)
          (.mk (.uint 18446744073709551615) .unknown)) .unknown) .blank =
        .done (.bool true) .blank ∧
      State.blank.equal (.int (-1)) (.uint 18446744073709551615) = false) ∧
    (Expr.eval (.level 1) State.root
        (.mk (.binary .equal (.mk (.decimal "1") .unknown) (.mk (.int 1) .unknown)) .unknown)
          .blank =
        .done (.bool true) .blank ∧
      State.blank.equal (.decimal (.ofInt 1)) (.int 1) = false) :=
  ⟨⟨rfl, rfl⟩, rfl, rfl⟩

end

end ScriptEngine
