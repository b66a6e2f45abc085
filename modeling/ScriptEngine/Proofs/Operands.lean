import ScriptEngine.Eval.Level
import ScriptEngine.Proofs.Equality.Operator
import ScriptEngine.Proofs.Run.Calls
import ScriptEngine.Proofs.Run.Replay

/-!
# Errors are no operands

A fault that was caught is a value, which can be stored and passed on, but is no operand.
`Expr.Fetches` and `Stmt.Fetches` say where the operands of expressions and statements are: an
operand is fetched in a state in which everything on its left has ended well, the condition of a
loop in every round.

Wherever the value of an operand is a fault, the evaluation fails at this operand, and nothing
happens after it has been fetched (`Expr.Fetches.refused`, `Stmt.Fetches.refused`). The values that
are not fetched as operands are the one that the target of a compound assignment or of a postfix
operator has and the one that a captured call is made to. They are refused as well, and nothing is
written, but by the rules for values of the wrong type (`Engine.errors_are_no_operands`).
-/

namespace ScriptEngine

variable {E : Engine} {scope : Ref .scope} {s t u : State}
  {replies before after : List (Answer × State)} {f : Fault}

/-- The fault of a program that uses a fault as an operand. -/
def Fault.ofOperand (f : Fault) (x : Expr) : Fault :=
  ⟨.general ("error value used as an operand: " ++ f.message), x.span⟩

theorem Fault.code_ofOperand (f : Fault) (x : Expr) : (f.ofOperand x).cause.code = "GENERIC" := rfl

/-- The statements of a loop have ended in such a way that the loop goes on. -/
def Flow.GoesOn : Flow → Prop
  | .normal _ | .continue => True
  | .return _ | .break => False

/-! ### Operands -/

/-- Finding the place that an expression stands for has come to an operand. -/
inductive Place.Fetches (E : Engine) (scope : Ref .scope) :
    Expr → State → List (Answer × State) → Expr → State → Prop
  | container {s : State} {x i : Expr} {span : Span} :
      Fetches E scope (.mk (.index x i) span) s [] x s
  | index {s u : State} {x i : Expr} {span : Span} {before : List (Answer × State)} {a : Value} :
      (E.operand scope x s).replay before = some (.ok a, u) →
      Fetches E scope (.mk (.index x i) span) s before i u
  | receiver {s : State} {x : Expr} {name : String} {span : Span} :
      Fetches E scope (.mk (.member x name) span) s [] x s

/-- **The operands of an expression.** `Fetches E scope e s before x u`: evaluating `e` in the state
`s` has come, after the replies `before`, to its operand `x`, and fetches it in the state `u`. -/
inductive Expr.Fetches (E : Engine) (scope : Ref .scope) :
    Expr → State → List (Answer × State) → Expr → State → Prop
  | prefixed {s : State} {op : PrefixOp} {x : Expr} {span : Span} :
      Fetches E scope (.mk (.prefixed op x) span) s [] x s
  | left {s : State} {op : InfixOp} {x y : Expr} {span : Span} :
      Fetches E scope (.mk (.binary op x y) span) s [] x s
  | right {s u : State} {op : InfixOp} {x y : Expr} {span : Span}
      {before : List (Answer × State)} {a : Value} :
      op ≠ .and → op ≠ .or → (E.operand scope x s).replay before = some (.ok a, u) →
      Fetches E scope (.mk (.binary op x y) span) s before y u
  /-- The right side of a conjunction, unless the left one has settled it. -/
  | conjunct {s u : State} {x y : Expr} {span : Span} {before : List (Answer × State)} :
      (E.condition scope x s).replay before = some (.ok true, u) →
      Fetches E scope (.mk (.binary .and x y) span) s before y u
  | disjunct {s u : State} {x y : Expr} {span : Span} {before : List (Answer × State)} :
      (E.condition scope x s).replay before = some (.ok false, u) →
      Fetches E scope (.mk (.binary .or x y) span) s before y u
  | start {s : State} {x y : Expr} {span : Span} :
      Fetches E scope (.mk (.range x y) span) s [] x s
  | stop {s u : State} {x y : Expr} {span : Span} {before : List (Answer × State)} {n : Int} :
      (Expr.rangeBound E scope x s).replay before = some (.ok n, u) →
      Fetches E scope (.mk (.range x y) span) s before y u
  | indexed {s : State} {x i : Expr} {span : Span} :
      Fetches E scope (.mk (.index x i) span) s [] x s
  | index {s u : State} {x i : Expr} {span : Span} {before : List (Answer × State)} {a : Value} :
      (E.operand scope x s).replay before = some (.ok a, u) →
      Fetches E scope (.mk (.index x i) span) s before i u
  | sliced {s : State} {x : Expr} {first last : Option Expr} {span : Span} :
      Fetches E scope (.mk (.slice x first last) span) s [] x s
  | first {s u : State} {x y : Expr} {last : Option Expr} {span : Span}
      {before : List (Answer × State)} {a : Value} :
      (E.operand scope x s).replay before = some (.ok a, u) →
      Fetches E scope (.mk (.slice x (some y) last) span) s before y u
  | last {s u v : State} {x y : Expr} {first : Option Expr} {span : Span}
      {before between : List (Answer × State)} {a : Value} {n : Option Int64} :
      (E.operand scope x s).replay before = some (.ok a, u) →
      (Access.sliceBound E scope first u).replay between = some (.ok n, v) →
      Fetches E scope (.mk (.slice x first (some y)) span) s (before ++ between) y v
  /-- The receiver of a member, unless it is the name of a namespace. -/
  | receiver {s : State} {x : Expr} {name : String} {span : Span} :
      Access.namespace? scope x s = .done none s →
      Fetches E scope (.mk (.member x name) span) s [] x s
  | callee {s : State} {x : Expr} {args : List Expr} {span : Span} :
      Fetches E scope (.mk (.call x args) span) s [] x s
  | condition {s : State} {x yes no : Expr} {span : Span} :
      Fetches E scope (.mk (.conditional x yes no) span) s [] x s
  /-- What the target of an assignment is made of. -/
  | target {s u : State} {op : AssignOp} {target value x : Expr} {span : Span}
      {before : List (Answer × State)} :
      Place.Fetches E scope target s before x u →
      Fetches E scope (.mk (.assign op target value) span) s before x u
  | stepped {s u : State} {op : PostfixOp} {target x : Expr} {span : Span}
      {before : List (Answer × State)} :
      Place.Fetches E scope target s before x u →
      Fetches E scope (.mk (.postfixed op target) span) s before x u
  /-- The right side of a compound assignment. -/
  | value {s u v : State} {op : AssignOp} {combine : InfixOp} {target value : Expr} {span : Span}
      {before between : List (Answer × State)} {place : Place} {old : Value} :
      op.combine? = some combine →
      (Place.ofExpr E scope target s).replay before = some (.ok place, u) →
      (place.read E scope span u).replay between = some (.ok old, v) →
      Fetches E scope (.mk (.assign op target value) span) s (before ++ between) value v

/-- A loop that is run by the engine of one level has come to its condition, which the engine of
another level evaluates: this is so in its first round, and in the round after one that has ended
well. -/
inductive Stmt.Comes (scope : Ref .scope) (x : Expr) (body : List Stmt) :
    Nat → State → List (Answer × State) → Nat → State → Prop
  | first {n : Nat} {s u : State} {turn : List (Answer × State)} :
      (Eval.yieldTurn s).replay turn = some (.ok (), u) → Comes scope x body (n + 1) s turn n u
  | again {n m : Nat} {s s₁ s₂ s₃ u : State} {turn test round rest : List (Answer × State)}
      {flow : Flow} :
      (Eval.yieldTurn s).replay turn = some (.ok (), s₁) →
      ((Engine.level n).condition scope x s₁).replay test = some (.ok true, s₂) →
      ((Engine.level n).block scope body s₂).replay round = some (.ok flow, s₃) → flow.GoesOn →
      Comes scope x body n s₃ rest m u →
      Comes scope x body (n + 1) s (turn ++ (test ++ (round ++ rest))) m u

/-- **The operands of a statement.** `Fetches scope n stmt s before m x u`: the engine of level `n`
has come, in running `stmt`, to the operand `x`, and that of level `m` evaluates it. -/
inductive Stmt.Fetches (scope : Ref .scope) (n : Nat) :
    Stmt → State → List (Answer × State) → Nat → Expr → State → Prop
  | branch {s : State} {x : Expr} {yes : List Stmt} {no : Option (List Stmt)} {span : Span} :
      Fetches scope n (.mk (.branch x yes no) span) s [] n x (s.notified (.statement span.line))
  | items {s : State} {key : Option String} {name : String} {x : Expr} {body : List Stmt}
      {span : Span} :
      Fetches scope n (.mk (.forIn key name x body) span) s [] n x
        (s.notified (.statement span.line))
  | condition {s u : State} {x : Expr} {body : List Stmt} {span : Span}
      {before : List (Answer × State)} {m : Nat} :
      Comes scope x body n (s.notified (.statement span.line)) before m u →
      Fetches scope n (.mk (.while x body) span) s before m x u

/-! ### Members and compound assignments -/

/-- A member is one of the value of its receiver, unless this is the name of a namespace. -/
theorem Expr.eval_member {x : Expr} {name : String} {span : Span}
    (h : Access.namespace? scope x s = .done none s) :
    Expr.eval E scope (.mk (.member x name) span) s =
      (E.operand scope x >>= fun v => Access.getMember E scope v name span) s :=
  Eval.bind_of_done h _

/-- A compound assignment finds its place, reads it, evaluates its operand, and writes. -/
theorem Expr.eval_compound {op : AssignOp} {combine : InfixOp} {target value : Expr} {span : Span}
    (h : op.combine? = some combine) :
    Expr.eval E scope (.mk (.assign op target value) span) =
      Place.ofExpr E scope target >>= fun place =>
        place.read E scope span >>= fun old =>
          E.operand scope value >>= fun operand =>
            Operators.compound op combine old operand span >>= fun v =>
              place.write E scope span v >>= fun _ => pure v := by
  cases op with
  | plain => cases h
  | _ =>
    cases h
    rfl

/-! ### A fault in the place of an operand -/

section Refused

variable {x e : Expr}

/-- **An operand whose value is a fault is refused,** in the state in which it has been fetched. -/
theorem Engine.operand_refused (h : (E.expr scope x s).replay after = some (.ok (.error f), t)) :
    (E.operand scope x s).replay after = some (.error (.fault (f.ofOperand x)), t) :=
  Eval.replay_bind_last h

/-- What begins with such an operand fails with it. -/
theorem Engine.operand_bind_refused {α : Type} (k : Value → Eval α)
    (h : (E.expr scope x s).replay after = some (.ok (.error f), t)) :
    ((E.operand scope x >>= k) s).replay after = some (.error (.fault (f.ofOperand x)), t) :=
  Eval.replay_bind_of_stop (operand_refused h)

/-- A condition is an operand whose truth is asked for. -/
theorem Engine.condition_refused (h : (E.expr scope x s).replay after = some (.ok (.error f), t)) :
    (E.condition scope x s).replay after = some (.error (.fault (f.ofOperand x)), t) :=
  operand_bind_refused _ h

/-- So is a bound of a slice, which has to be an integer besides. -/
theorem Access.sliceBound_refused
    (h : (E.expr scope x s).replay after = some (.ok (.error f), t)) :
    (Access.sliceBound E scope (some x) s).replay after =
      some (.error (.fault (f.ofOperand x)), t) :=
  Engine.operand_bind_refused _ h

/-- The container and the index of a place are operands, and so is the receiver of a member. -/
theorem Place.Fetches.refused (h : Place.Fetches E scope e s before x u)
    (hx : (E.expr scope x u).replay after = some (.ok (.error f), t)) :
    (Place.ofExpr E scope e s).replay (before ++ after) =
      some (.error (.fault (f.ofOperand x)), t) := by
  cases h with
  | container => exact Engine.operand_bind_refused _ hx
  -- the container has come to a value, and the index is what fails
  | index hcontainer =>
    refine (Eval.replay_bind hcontainer).trans ?_
    exact Engine.operand_bind_refused _ hx
  | receiver => exact Engine.operand_bind_refused _ hx

/-- **Wherever the value of an operand is a fault, the evaluation fails at this operand.** -/
theorem Expr.Fetches.refused (h : Expr.Fetches E scope e s before x u)
    (hx : (E.expr scope x u).replay after = some (.ok (.error f), t)) :
    (Expr.eval E scope e s).replay (before ++ after) =
      some (.error (.fault (f.ofOperand x)), t) := by
  have hoperand : ∀ k : Value → Eval Value,
      ((E.operand scope x >>= k) u).replay after = some (.error (.fault (f.ofOperand x)), t) :=
    fun k => Engine.operand_bind_refused k hx
  have hcondition : ∀ k : Bool → Eval Value,
      ((E.condition scope x >>= k) u).replay after = some (.error (.fault (f.ofOperand x)), t) :=
    fun k => Eval.replay_bind_of_stop (Engine.condition_refused hx)
  cases h with
  | prefixed | indexed | sliced | callee => exact hoperand _
  | condition => exact hcondition _
  | @left _ op =>
    -- the two that may leave out their right side take the left one as a condition
    cases op with
    | and | or => exact hcondition _
    | _ => exact hoperand _
  | @right _ _ op _ _ _ _ _ hand hor hleft =>
    cases op with
    | and => exact absurd rfl hand
    | or => exact absurd rfl hor
    | _ => exact (Eval.replay_bind hleft).trans (hoperand _)
  | conjunct hleft => exact (Eval.replay_bind hleft).trans (hcondition _)
  | disjunct hleft => exact (Eval.replay_bind hleft).trans (hcondition _)
  -- the bounds of a range and of a slice are operands that have to be integers
  | start => exact Eval.replay_bind_of_stop (Engine.operand_bind_refused _ hx)
  | stop hstart =>
    refine (Eval.replay_bind hstart).trans ?_
    exact Eval.replay_bind_of_stop (Engine.operand_bind_refused _ hx)
  | index hobject => exact (Eval.replay_bind hobject).trans (hoperand _)
  | first hobject =>
    refine (Eval.replay_bind hobject).trans ?_
    exact Eval.replay_bind_of_stop (Access.sliceBound_refused hx)
  | last hobject hfirst =>
    rw [List.append_assoc]
    refine (Eval.replay_bind hobject).trans ((Eval.replay_bind hfirst).trans ?_)
    exact Eval.replay_bind_of_stop (Access.sliceBound_refused hx)
  | receiver hnamespace =>
    rw [Expr.eval_member hnamespace]
    -- the receiver is no namespace, so the member is one of a value
    exact hoperand _
  | target htarget => exact Eval.replay_bind_of_stop (htarget.refused hx)
  | stepped htarget => exact Eval.replay_bind_of_stop (htarget.refused hx)
  -- the place has been found and read by then, neither of which is undone
  | value hcombine hplace hread =>
    rw [Expr.eval_compound hcombine, List.append_assoc]
    refine (Eval.replay_bind hplace).trans ((Eval.replay_bind hread).trans ?_)
    exact hoperand _

/-- A loop fails at its condition in whatever round this is. -/
theorem Stmt.Comes.refused {body : List Stmt} {n m : Nat}
    (h : Stmt.Comes scope x body n s before m u)
    (hx : ((Engine.level m).expr scope x u).replay after = some (.ok (.error f), t)) :
    ((Engine.level n).cycle scope x body s).replay (before ++ after) =
      some (.error (.fault (f.ofOperand x)), t) := by
  induction h with
  -- the turn that begins the round is over, and the condition comes next
  | first hturn =>
    refine (Eval.replay_bind hturn).trans ?_
    exact Eval.replay_bind_of_stop (Engine.condition_refused hx)
  -- the replies of one whole round stand before those of the round that fails
  | @again n m s s₁ s₂ s₃ u turn test round rest flow hturn htest hround hflow _ ih =>
    simp only [List.append_assoc]
    refine (Eval.replay_bind hturn).trans ((Eval.replay_bind htest).trans ?_)
    refine (Eval.replay_bind hround).trans ?_
    -- a round that has left the loop is not followed by another one
    cases flow with
    | normal | «continue» => exact ih hx
    | «return» | «break» => exact hflow.elim

/-- **A statement fails at its operand,** too. -/
theorem Stmt.Fetches.refused {n m : Nat} {stmt : Stmt}
    (h : Stmt.Fetches scope n stmt s before m x u)
    (hx : ((Engine.level m).expr scope x u).replay after = some (.ok (.error f), t)) :
    (Stmt.run (Engine.level n) scope stmt s).replay (before ++ after) =
      some (.error (.fault (f.ofOperand x)), t) := by
  cases h with
  | @branch s =>
    exact Eval.replay_bind_of_stop (s := s.notified _) (Engine.condition_refused hx)
  | items => exact Engine.operand_bind_refused _ hx
  | condition hcomes => exact hcomes.refused hx

end Refused

/-! ### Faults that are fetched otherwise -/

section Otherwise

variable {span : Span} {place : Place} {target : Expr}

/-- An operator behind a place does not count a fault up. -/
theorem Operators.postfixed_error (op : PostfixOp) (f : Fault) (span : Span) (s : State) :
    Operators.postfixed op (.error f) span s =
      .stop (.fault ⟨.postfixOperand op.text "ERROR", span⟩) s := rfl

/-- No operator of a compound assignment takes a fault on its left. -/
theorem Operators.compound_error {op : AssignOp} {combine : InfixOp}
    (h : op.combine? = some combine) (f : Fault) (v : Value) (span : Span) (s : State) :
    Operators.compound op combine (.error f) v span s =
      .stop (.fault ⟨.compoundOperands "ERROR" op.text (s.typeName v), span⟩) s := by
  have hbinary : Operators.binary combine (.error f) v span s =
      .stop (.fault ⟨.infixOperands "ERROR" combine.text (s.typeName v), span⟩) s := by
    -- no operator takes a fault for a number
    rw [Operators.binary, Arithmetic.promote_eq_none (.inl rfl)]
    cases op with
    | plain => cases h
    | _ =>
      cases h
      rfl
  rw [Operators.compound, Eval.attempt_bind_apply, hbinary]
  rfl

/-- A postfix operator finds a fault in its place. -/
theorem Place.step_error (op : PostfixOp)
    (hplace : (Place.ofExpr E scope target s).replay before = some (.ok place, u))
    (hread : (place.read E scope span u).replay after = some (.ok (.error f), t)) :
    (Expr.eval E scope (.mk (.postfixed op target) span) s).replay (before ++ after) =
      some (.error (.fault ⟨.postfixOperand op.text "ERROR", span⟩), t) := by
  have hstep : Expr.eval E scope (.mk (.postfixed op target) span) =
      Place.ofExpr E scope target >>= fun place => place.read E scope span >>= fun old =>
        Operators.postfixed op old span >>= fun v =>
          place.write E scope span v >>= fun _ => pure old := rfl
  rw [hstep, Eval.replay_bind hplace, Eval.replay_bind_last hread]
  rw [Eval.bind_of_stop (Operators.postfixed_error op f span t)]
  rfl

/-- A compound assignment finds a fault in its place: its operand is evaluated all the same. -/
theorem Place.assign_error {op : AssignOp} {combine : InfixOp} {value : Expr} {v : Value}
    {rest : List (Answer × State)} {w : State} (hcombine : op.combine? = some combine)
    (hplace : (Place.ofExpr E scope target s).replay before = some (.ok place, u))
    (hread : (place.read E scope span u).replay after = some (.ok (.error f), t))
    (hvalue : (E.operand scope value t).replay rest = some (.ok v, w)) :
    (Expr.eval E scope (.mk (.assign op target value) span) s).replay
        (before ++ (after ++ rest)) =
      some (.error (.fault ⟨.compoundOperands "ERROR" op.text (w.typeName v), span⟩), w) := by
  rw [Expr.eval_compound hcombine]
  refine (Eval.replay_bind hplace).trans ((Eval.replay_bind hread).trans ?_)
  -- the operand has been evaluated, and only now are the two combined
  rw [Eval.replay_bind_last hvalue]
  rw [Eval.bind_of_stop (Operators.compound_error hcombine f v span w)]
  rfl

/-- A captured call evaluates its arguments before it looks at what is called. -/
theorem Capture.callable_error {callee : Expr} {args : List Expr} {vs : List Value}
    {callSpan : Span} {otherwise : Cause}
    (hcallee : (E.expr scope callee s).replay before = some (.ok (.error f), u))
    (hargs : (E.exprs scope args u).replay after = some (.ok vs, t)) :
    (Capture.callable E scope (.mk (.call callee args) callSpan) otherwise span s).replay
        (before ++ after) = some (.error (.fault ⟨otherwise, span⟩), t) := by
  have hcall : Capture.call? E scope (.mk (.call callee args) callSpan) =
      E.expr scope callee >>= fun callee => E.exprs scope args >>= fun args =>
        -- neither capturing nor checking what is called stands between the two
        pure (some (callee, args)) := rfl
  rw [Capture.callable, hcall]
  -- that the callee is a fault is seen behind the arguments
  simp only [Eval.bind_assoc]
  refine (Eval.replay_bind hcallee).trans ?_
  exact Eval.replay_bind_last hargs

end Otherwise

/-! ### Errors as operands -/

/-- **Errors are no operands.** At every level, in every state, and whatever the scheduler replies
to the waits on the way:

* an expression one of whose operands has a fault as its value fails at this operand, with the code
  of general faults, in the state in which the operand has been fetched;
* so does a statement, be it in a later round of a loop;
* where the value that a place has is a fault, `++` and `--` fail in the state in which it has been
  read, but with the code for operands of the wrong type;
* a compound assignment still evaluates its operand there, and fails after that: with the same kind
  of code if this is a value, and with the fault of the operand otherwise;
* a call that is captured, to be made later, fails in its own way if what it calls is a fault. -/
theorem Engine.errors_are_no_operands (n : Nat) (scope : Ref .scope) :
    (∀ e s before x u after f t, Expr.Fetches (level n) scope e s before x u →
      ((level n).expr scope x u).replay after = some (.ok (.error f), t) →
      ((level (n + 1)).expr scope e s).replay (before ++ after) =
        some (.error (.fault (f.ofOperand x)), t)) ∧
    (∀ stmt s before m x u after f t, Stmt.Fetches scope n stmt s before m x u →
      ((level m).expr scope x u).replay after = some (.ok (.error f), t) →
      ((level (n + 1)).stmt scope stmt s).replay (before ++ after) =
        some (.error (.fault (f.ofOperand x)), t)) ∧
    (∀ f x, (Fault.ofOperand f x).cause.code = "GENERIC") ∧
    (∀ target s before place u after f t span,
      (Place.ofExpr (level n) scope target s).replay before = some (.ok place, u) →
      (place.read (level n) scope span u).replay after = some (.ok (.error f), t) →
      (∀ op, ∃ g : Fault, g.cause.code = "POSTFIX_OP" ∧
        ((level (n + 1)).expr scope (.mk (.postfixed op target) span) s).replay
          (before ++ after) = some (.error (.fault g), t)) ∧
      ∀ op value rest w, op ≠ .plain →
        (∀ v, ((level n).operand scope value t).replay rest = some (.ok v, w) →
          ∃ g : Fault, g.cause.code = "MOD_ASSIGN_OP" ∧
            ((level (n + 1)).expr scope (.mk (.assign op target value) span) s).replay
              (before ++ (after ++ rest)) = some (.error (.fault g), w)) ∧
        ∀ why, ((level n).operand scope value t).replay rest = some (.error why, w) →
          ((level (n + 1)).expr scope (.mk (.assign op target value) span) s).replay
            (before ++ (after ++ rest)) = some (.error why, w)) ∧
    ∀ callee args s before u f after vs t callSpan otherwise span,
      ((level n).expr scope callee s).replay before = some (.ok (.error f), u) →
      ((level n).exprs scope args u).replay after = some (.ok vs, t) →
      (Capture.callable (level n) scope (.mk (.call callee args) callSpan) otherwise span s).replay
        (before ++ after) = some (.error (.fault ⟨otherwise, span⟩), t) := by
  refine ⟨?_, ?_, Fault.code_ofOperand, ?_, ?_⟩
  -- an operand of an expression
  · intro e s before x u after f t hfetches hx
    exact hfetches.refused hx
  · intro stmt s before m x u after f t hfetches hx
    exact hfetches.refused hx
  -- a fault in the place of a number, which is no operand
  · intro target s before place u after f t span hplace hread
    refine ⟨fun op => ⟨_, rfl, Place.step_error op hplace hread⟩, ?_⟩
    intro op value rest w hop
    obtain ⟨combine, hcombine⟩ : ∃ combine, op.combine? = some combine := by
      cases op with
      | plain => exact absurd rfl hop
      | _ => exact ⟨_, rfl⟩
    constructor
    · intro v hvalue
      exact ⟨_, rfl, Place.assign_error hcombine hplace hread hvalue⟩
    · -- the operand comes before the operator, so its own fault is the one that is seen
      intro why hvalue
      have hassign : (level (n + 1)).expr scope (.mk (.assign op target value) span) s = _ :=
        congrFun (Expr.eval_compound hcombine) s
      rw [hassign]
      refine (Eval.replay_bind hplace).trans ((Eval.replay_bind hread).trans ?_)
      exact Eval.replay_bind_of_stop hvalue
  -- a fault that a captured call is made to
  · intro callee args s before u f after vs t callSpan otherwise span hcallee hargs
    exact Capture.callable_error hcallee hargs

/-- A fault that has been caught. -/
def Fault.divided : Fault := ⟨.divideByZero, .unknown⟩

/-- A handler has bound the fault to the name `e`. -/
def State.handling : State :=
  { State.blank with
    scopes := State.blank.scopes.modify State.root (·.bind "e" (.error .divided)) }

/-- The expression that is the name of the fault. -/
def Expr.handled : Expr := .mk (.name "e") .unknown

/-- The fault in `e + 1`, as the condition of a loop, in `e++`, in `e += 1`, and in `spawn e()`. -/
theorem Engine.errors_are_no_operands_handling :
    ((level 2).expr State.root (.mk (.binary .add .handled (.mk (.int 1) .unknown)) .unknown)
      .handling).replay [] =
        some (.error (.fault (Fault.divided.ofOperand .handled)), .handling) ∧
    ((level 3).stmt State.root (.mk (.while .handled []) .unknown) .handling).replay [] =
        some (.error (.fault (Fault.divided.ofOperand .handled)), .handling) ∧
    (∃ g : Fault, g.cause.code = "POSTFIX_OP" ∧
      ((level 2).expr State.root (.mk (.postfixed .increment .handled) .unknown)
        .handling).replay [] = some (.error (.fault g), .handling)) ∧
    (∃ g : Fault, g.cause.code = "MOD_ASSIGN_OP" ∧
      ((level 2).expr State.root (.mk (.assign .add .handled (.mk (.int 1) .unknown)) .unknown)
        .handling).replay [] = some (.error (.fault g), .handling)) ∧
    (Capture.callable (level 1) State.root (.mk (.call .handled []) .unknown) .badSpawn .unknown
      .handling).replay [] = some (.error (.fault ⟨.badSpawn, .unknown⟩), .handling) := by
  obtain ⟨hexpr, -, -, hplace, hcapture⟩ := errors_are_no_operands 1 State.root
  obtain ⟨-, hstmt, -⟩ := errors_are_no_operands 2 State.root
  -- the name `e` is bound to the fault, and evaluating it changes nothing
  have hname : ((level 1).expr State.root .handled .handling).replay [] =
      some (.ok (.error .divided), .handling) := rfl
  obtain ⟨hstep, hassign⟩ := hplace .handled .handling [] (.name "e") .handling [] .divided
    .handling .unknown rfl rfl
  refine ⟨hexpr _ _ [] _ _ [] _ _ .left hname, ?_, hstep .increment, ?_, ?_⟩
  · exact hstmt _ _ [] 1 _ _ [] _ _ (.condition (.first rfl)) hname
  · exact (hassign .add (.mk (.int 1) .unknown) [] .handling nofun).1 (.int 1) rfl
  · exact hcapture .handled [] _ [] _ _ [] [] _ _ .badSpawn _ hname rfl

/-- **A fault in the place of a number is refused with other codes,** by `e += 1` and by `e++`. -/
theorem Engine.error_in_place :
    (∃ g : Fault, g.cause.code ≠ "GENERIC" ∧
      (level 2).expr State.root (.mk (.assign .add .handled (.mk (.int 1) .unknown)) .unknown)
        .handling = .stop (.fault g) .handling) ∧
    ∃ g : Fault, g.cause.code ≠ "GENERIC" ∧
      (level 2).expr State.root (.mk (.postfixed .increment .handled) .unknown) .handling =
        .stop (.fault g) .handling :=
  ⟨⟨⟨.compoundOperands "ERROR" "+=" "INTEGER", .unknown⟩, by decide, rfl⟩,
    ⟨⟨.postfixOperand "++" "ERROR", .unknown⟩, by decide, rfl⟩⟩

end ScriptEngine
