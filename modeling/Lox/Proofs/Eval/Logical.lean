import Lox.Proofs.Eval.Depth
/-!
# Regrouping `and` and `or`

Without a depth bound, evaluation does not depend on the depth it starts at
(`Expr.eval_none_depth`). A logical node then evaluates its left operand, and if that value decides
the operator (`or` and a truthy value, `and` and a falsy one) the node has that very value and
its right operand is never evaluated; otherwise the node is its right operand
(`Expr.eval_logical`). Sequencing is associative (`Expr.andThen_assoc`), so two nested decisions
of one operator can be regrouped: `(a or b) or c` and `a or (b or c)` run alike, effects, values
and errors included (`interpret_logical_regroup`).
-/

namespace Lox

namespace Expr

/-- **Sequencing is associative.** -/
theorem andThen_assoc {α β γ : Type} (run : Except Fault α × Machine)
    (first : α → Machine → Except Fault β × Machine)
    (second : β → Machine → Except Fault γ × Machine) :
    andThen (andThen run first) second = andThen run fun v m => andThen (first v m) second := by
  rcases run with ⟨f | v, m⟩ <;> rfl

mutual

/-- **Unbounded evaluation forgets the depth.** -/
theorem eval_none_depth (d d' : Nat) (e : Expr) (m : Machine) :
    eval none d e m = eval none d' e m := by
  rw [eval.eq_def none d, eval.eq_def none d', exceeded_none, exceeded_none]
  simp only [Bool.false_eq_true, if_false]
  -- each operand is evaluated one level down on both sides
  match e with
  | missing | vacant _ | literal _ | var _ => rfl
  | grouping inner => exact eval_none_depth (d + 1) (d' + 1) inner m
  | assign name value => simp only [eval_none_depth (d + 1) (d' + 1) value m]
  | unary op operand => simp only [eval_none_depth (d + 1) (d' + 1) operand m]
  | binary left op right =>
    have rightSame := fun m => eval_none_depth (d + 1) (d' + 1) right m
    simp only [eval_none_depth (d + 1) (d' + 1) left m, rightSame]
  | logical left op right =>
    have rightSame := fun m => eval_none_depth (d + 1) (d' + 1) right m
    simp only [eval_none_depth (d + 1) (d' + 1) left m, rightSame]
  | call callee paren args =>
    have argsSame := fun m => evalArgs_none_depth (d + 1) (d' + 1) args m
    simp only [eval_none_depth (d + 1) (d' + 1) callee m, argsSame]

theorem evalArgs_none_depth (d d' : Nat) (args : List Expr) (m : Machine) :
    evalArgs none d args m = evalArgs none d' args m := by
  match args with
  | [] => rfl
  | a :: rest =>
    have restSame := fun m => evalArgs_none_depth d d' rest m
    rw [evalArgs, evalArgs, eval_none_depth d d' a m]
    simp only [restSame]

end

/-- **A logical node, unbounded.** The left operand is evaluated first; a value that decides the
operator is the node's value as it is, and the right operand is evaluated only when the left one
does not decide. -/
theorem eval_logical (d : Nat) (left : Expr) (op : Token) (right : Expr) (m : Machine)
    (logical : op.kind.isLogical = true) :
    eval none d (.logical left op right) m =
      andThen (eval none d left m) fun l m' =>
        if (op.kind == .orWord) == Value.truthy (some l) then (.ok l, m')
        else eval none d right m' := by
  rw [eval.eq_def, exceeded_none]
  have rightSame := fun m => eval_none_depth (d + 1) d right m
  simp only [Bool.false_eq_true, if_false, logical, Bool.not_true, eval_none_depth (d + 1) d left m,
    rightSame]

/-- Two logical nodes of one operator regroup, at every depth. -/
theorem eval_logical_regroup (d : Nat) (a b c : Expr) (op₁ op₂ : Token) (m : Machine)
    (logical : op₁.kind.isLogical = true) (same : op₂.kind = op₁.kind) :
    eval none d (.logical (.logical a op₁ b) op₂ c) m =
      eval none d (.logical a op₁ (.logical b op₂ c)) m := by
  have logical₂ : op₂.kind.isLogical = true := same ▸ logical
  rw [eval_logical d _ op₂ _ m logical₂, eval_logical d a op₁ b m logical,
    eval_logical d a op₁ _ m logical, andThen_assoc]
  -- after `a`, both sides go on from its value and the machine it leaves
  congr 1
  funext l m₁
  by_cases decides : (op₁.kind == .orWord) == Value.truthy (some l)
  · -- `a` decides the inner node, and so the outer one, which keeps its value as it is
    simp only [decides, if_true, andThen, same]
  · simp only [decides, Bool.false_eq_true, if_false]
    rw [eval_logical d b op₂ c m₁ logical₂, same]

end Expr

/-- **`and` and `or` regroup.** Without a depth bound, `(a op b) op c` and `a op (b op c)`, for
one operator `and` or `or`, interpret alike on every machine: the same value or error, the same
native calls and assignments in the same order, the same environment. This rests on how a logical
node evaluates: its right operand only when the value of its left one does not decide it (`or`
and a falsy value, `and` and a truthy one); and otherwise its value is that left value itself, not
a boolean made from it. -/
theorem interpret_logical_regroup (op₁ op₂ : Token) (logical : op₁.kind.isLogical = true)
    (same : op₂.kind = op₁.kind) (a b c : Expr) (m : Machine) :
    m.interpret none (.logical (.logical a op₁ b) op₂ c) =
        m.interpret none (.logical a op₁ (.logical b op₂ c)) ∧
      Expr.eval none 0 (.logical a op₁ b) m =
        Expr.andThen (Expr.eval none 0 a m) fun l m' =>
          if (op₁.kind == .orWord) == Value.truthy (some l) then (.ok l, m')
          else Expr.eval none 0 b m' := by
  refine ⟨?_, Expr.eval_logical 0 a op₁ b m logical⟩
  rw [Machine.interpret, Machine.interpret, Expr.eval_logical_regroup 0 a b c op₁ op₂ m logical same]

/-- An `or` token. -/
def orToken : Token := ⟨.orWord, "or", none, 1, 3⟩

/-- `(nil or false) or 1`, on a machine with no scopes: the falsy values pass the decision on,
and the regrouped tree gives the same run. -/
theorem interpret_logical_regroup_falsy :
    orToken.kind.isLogical = true ∧ orToken.kind = orToken.kind ∧
      ((default : Machine).interpret none
          (.logical (.logical (.literal (some .nil)) orToken (.literal (some (.bool false))))
            orToken (.literal (some (.number 1)))) =
        (default : Machine).interpret none
          (.logical (.literal (some .nil)) orToken
            (.logical (.literal (some (.bool false))) orToken (.literal (some (.number 1))))) ∧
      Expr.eval none 0
          (.logical (.literal (some .nil)) orToken (.literal (some (.bool false)))) default =
        Expr.andThen (Expr.eval none 0 (.literal (some .nil)) default) fun l m' =>
          if (orToken.kind == .orWord) == Value.truthy (some l) then (.ok l, m')
          else Expr.eval none 0 (.literal (some (.bool false))) m') :=
  ⟨rfl, rfl, interpret_logical_regroup orToken orToken rfl rfl _ _ _ default⟩

end Lox
