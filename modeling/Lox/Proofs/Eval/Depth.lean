import Lox.Eval
/-!
# The depth bound of evaluation

A bound of `n` levels stops evaluation at the first node it visits at depth `n` or more (the root
at depth zero, so at level `n + 1`), with the error that the tree is nested deeper than `n`
levels, and no position. Until that visit it does what unbounded evaluation does: the same
values, the same native calls and assignments in the same order, on the same environment.

`Expr.trail` lists the visits of the unbounded evaluation: each node it reaches, nil nodes
included, with its depth and the machine at that moment. `Expr.eval_some` proves that bounded
evaluation is the unbounded one stopped at the first deep visit, by one structural induction whose
sequencing steps all go through `stopAt_andThen`. A tree whose height is within the bound has no
deep visit, so the bound changes nothing for it.

The machine holds no depth: every interpretation starts at the root, so all of this holds of each
interpretation of a session, whatever came before it.
-/

namespace Lox

namespace Expr

/-! ## The visits of an evaluation -/

/-- The visits after a run: those `next` makes from the value and machine the run leaves, none if
it failed. -/
def afterOk {α : Type} (run : Except Fault α × Machine)
    (next : α → Machine → List (Nat × Machine)) : List (Nat × Machine) :=
  match run with
  | (.error _, _) => []
  | (.ok v, m) => next v m

mutual

/-- **The visits of unbounded evaluation.** The nodes that evaluation of `e` at depth `d` from
the machine `m` visits, nil nodes included, in the order it visits them, each with its depth and
the machine it finds there: the node itself, then the nodes of the operands it goes on to. -/
def trail (d : Nat) (e : Expr) (m : Machine) : List (Nat × Machine) :=
  (d, m) :: match e with
    | assign name value => if name.kind ≠ .identifier then [] else trail (d + 1) value m
    | binary left op right =>
      if !op.kind.isBinary then []
      else trail (d + 1) left m ++ afterOk (eval none (d + 1) left m) fun _ m =>
        trail (d + 1) right m
    | logical left op right =>
      if !op.kind.isLogical then []
      else trail (d + 1) left m ++ afterOk (eval none (d + 1) left m) fun l m =>
        if (op.kind == .orWord) == Value.truthy (some l) then [] else trail (d + 1) right m
    | grouping inner => trail (d + 1) inner m
    | unary op operand => if !op.kind.isUnary then [] else trail (d + 1) operand m
    | call callee _ args =>
      trail (d + 1) callee m ++ afterOk (eval none (d + 1) callee m) fun _ m =>
        trailArgs (d + 1) args m
    | literal _ | var _ | missing | vacant _ => []

/-- The visits of the evaluation of a call's arguments at depth `d`. -/
def trailArgs (d : Nat) (args : List Expr) (m : Machine) : List (Nat × Machine) :=
  match args with
  | [] => []
  | a :: rest => trail d a m ++ afterOk (eval none d a m) fun _ m => trailArgs d rest m

end

/-- A run stopped at the first of `visits` at depth `n` or more, if there is one: the error of a
bound of `n` levels, with the machine of that visit. -/
def stopAt {α : Type} (n : Nat) (visits : List (Nat × Machine))
    (run : Except Fault α × Machine) : Except Fault α × Machine :=
  match visits.find? (fun v => n ≤ v.1) with
  | some v => (.error (DepthBound.fault (some n)), v.2)
  | none => run

section Stop

variable {α β : Type} (n : Nat)

@[simp] theorem stopAt_nil (run : Except Fault α × Machine) : stopAt n [] run = run := rfl

theorem stopAt_cons_of_lt {d : Nat} (shallow : d < n) (m : Machine)
    (visits : List (Nat × Machine)) (run : Except Fault α × Machine) :
    stopAt n ((d, m) :: visits) run = stopAt n visits run := by
  simp [stopAt, Nat.not_le.2 shallow]

theorem stopAt_cons_of_le {d : Nat} (deep : n ≤ d) (m : Machine)
    (visits : List (Nat × Machine)) (run : Except Fault α × Machine) :
    stopAt n ((d, m) :: visits) run = (.error (DepthBound.fault (some n)), m) := by
  simp [stopAt, deep]

theorem afterOk_nil (run : Except Fault α × Machine) : afterOk run (fun _ _ => []) = [] := by
  rcases run with ⟨_ | _, _⟩ <;> rfl

/-- **A stop in a sequence.** A run stopped within its first part stops there; otherwise it goes
on as the unbounded run does, and stops within the second part if that part stops. -/
theorem stopAt_andThen (visits : List (Nat × Machine)) (first : Except Fault α × Machine)
    (later : α → Machine → List (Nat × Machine))
    (next next' : α → Machine → Except Fault β × Machine)
    (stops : ∀ v m, next v m = stopAt n (later v m) (next' v m)) :
    andThen (stopAt n visits first) next =
      stopAt n (visits ++ afterOk first later) (andThen first next') := by
  unfold stopAt
  rw [List.find?_append]
  cases found : visits.find? (fun v => n ≤ v.1) with
  | some v => rfl
  | none =>
    rcases first with ⟨f | v, m⟩
    · rfl
    · simp only [Option.none_or, afterOk, andThen]
      exact stops v m

/-- A stop before a step that evaluates nothing. -/
theorem stopAt_andThen_pure (visits : List (Nat × Machine)) (first : Except Fault α × Machine)
    (next : α → Machine → Except Fault β × Machine) :
    andThen (stopAt n visits first) next = stopAt n visits (andThen first next) := by
  rw [stopAt_andThen n visits first (fun _ _ => []) next next fun _ _ => rfl, afterOk_nil,
    List.append_nil]

end Stop

/-! ## Bounded evaluation is unbounded evaluation, stopped -/

theorem exceeded_some (n d : Nat) : DepthBound.exceeded (some n) d = decide (n ≤ d) := rfl

theorem exceeded_none (d : Nat) : DepthBound.exceeded none d = false := rfl

/-- A bound that lets evaluation reach a depth lets it reach every shallower one. -/
theorem exceeded_eq_false_of_le {bound : DepthBound} {d d' : Nat} (shallower : d ≤ d')
    (room : bound.exceeded d' = false) : bound.exceeded d = false := by
  cases bound with
  | none => exact exceeded_none d
  | some n =>
    rw [exceeded_some] at room ⊢
    simp only [decide_eq_false_iff_not, Nat.not_le] at room ⊢
    omega

mutual

/-- **Bounded evaluation stops at the first deep visit.** Evaluation under a bound of `n` levels is
unbounded evaluation stopped at the first node it visits at depth `n` or more. -/
theorem eval_some (n d : Nat) (e : Expr) (m : Machine) :
    eval (some n) d e m = stopAt n (trail d e m) (eval none d e m) := by
  by_cases deep : n ≤ d
  · rw [eval.eq_def (some n) d e m, exceeded_some, if_pos (decide_eq_true deep), trail.eq_def,
      stopAt_cons_of_le n deep]
  · rw [eval.eq_def (some n) d e m, exceeded_some, if_neg (by simpa using deep),
      eval.eq_def none d e m, exceeded_none, if_neg Bool.false_ne_true, trail.eq_def,
      stopAt_cons_of_lt n (by omega)]
    -- each node evaluates its operands in sequence, and each step of the sequence is one stop
    match e with
    | missing | vacant _ | literal _ | var _ => rfl
    | grouping inner => exact eval_some n (d + 1) inner m
    | assign name value =>
      dsimp only
      by_cases named : name.kind ≠ .identifier
      · simp only [if_pos named, stopAt_nil]
      · simp only [if_neg named]
        rw [eval_some n (d + 1) value m]
        exact stopAt_andThen_pure n _ _ _
    | unary op operand =>
      dsimp only
      by_cases other : op.kind.isUnary
      · simp only [other, Bool.not_true, Bool.false_eq_true, if_false]
        rw [eval_some n (d + 1) operand m]
        exact stopAt_andThen_pure n _ _ _
      · simp only [other, Bool.not_false, if_true, stopAt_nil]
    | binary left op right =>
      dsimp only
      by_cases other : op.kind.isBinary
      · simp only [other, Bool.not_true, Bool.false_eq_true, if_false]
        rw [eval_some n (d + 1) left m]
        refine stopAt_andThen n _ _ _ _ _ fun l m => ?_
        rw [eval_some n (d + 1) right m]
        exact stopAt_andThen_pure n _ _ _
      · simp only [other, Bool.not_false, if_true, stopAt_nil]
    | logical left op right =>
      dsimp only
      by_cases other : op.kind.isLogical
      · simp only [other, Bool.not_true, Bool.false_eq_true, if_false]
        rw [eval_some n (d + 1) left m]
        refine stopAt_andThen n _ _ _ _ _ fun l m => ?_
        -- the right operand is evaluated only when the left one does not decide
        by_cases decides : (op.kind == .orWord) == Value.truthy (some l)
        · simp only [decides, if_true, stopAt_nil]
        · simp only [decides, Bool.false_eq_true, if_false]
          exact eval_some n (d + 1) right m
      · simp only [other, Bool.not_false, if_true, stopAt_nil]
    | call callee paren args =>
      dsimp only
      rw [eval_some n (d + 1) callee m]
      refine stopAt_andThen n _ _ _ _ _ fun c m => ?_
      rw [evalArgs_some n (d + 1) args m]
      exact stopAt_andThen_pure n _ _ _

theorem evalArgs_some (n d : Nat) (args : List Expr) (m : Machine) :
    evalArgs (some n) d args m = stopAt n (trailArgs d args m) (evalArgs none d args m) := by
  match args with
  | [] => rfl
  | a :: rest =>
    rw [evalArgs, evalArgs, trailArgs, eval_some n d a m]
    refine stopAt_andThen n _ _ _ _ _ fun v m => ?_
    rw [evalArgs_some n d rest m]
    exact stopAt_andThen_pure n _ _ _

end

/-! ## Trees within the bound -/

mutual

/-- The height of a tree: the number of levels on its longest path from the root, nil nodes
included. -/
def height : Expr → Nat
  | assign _ value => height value + 1
  | binary left _ right | logical left _ right => max (height left) (height right) + 1
  | grouping inner | unary _ inner => height inner + 1
  | call callee _ args => max (height callee) (heightArgs args) + 1
  | literal _ | var _ | missing | vacant _ => 1

/-- The height of the highest of a call's arguments. -/
def heightArgs : List Expr → Nat
  | [] => 0
  | a :: rest => max (height a) (heightArgs rest)

end

theorem height_pos (e : Expr) : 0 < height e := by
  cases e <;> simp [height]

/-- All visits lie above the depth `bound`. -/
def Above (bound : Nat) (visits : List (Nat × Machine)) : Prop :=
  ∀ v ∈ visits, v.1 < bound

theorem Above.nil {bound : Nat} : Above bound [] := nofun

theorem Above.cons {bound d : Nat} {visits : List (Nat × Machine)} (shallow : d < bound)
    (m : Machine) (rest : Above bound visits) : Above bound ((d, m) :: visits) := by
  intro v member
  rcases List.mem_cons.1 member with rfl | later
  · exact shallow
  · exact rest v later

theorem Above.append {bound : Nat} {visits visits' : List (Nat × Machine)}
    (first : Above bound visits) (second : Above bound visits') : Above bound (visits ++ visits') :=
  fun v member => (List.mem_append.1 member).elim (first v) (second v)

theorem Above.afterOk {α : Type} {bound : Nat} (run : Except Fault α × Machine)
    {later : α → Machine → List (Nat × Machine)} (each : ∀ x m, Above bound (later x m)) :
    Above bound (Expr.afterOk run later) := by
  rcases run with ⟨_ | x, m⟩
  · exact Above.nil
  · exact each x m

theorem Above.mono {bound bound' : Nat} {visits : List (Nat × Machine)}
    (above : Above bound visits) (le : bound ≤ bound') : Above bound' visits :=
  fun v member => Nat.lt_of_lt_of_le (above v member) le

mutual

/-- Every visit of a tree of height `h` at depth `d` lies above depth `d + h`. -/
theorem trail_above (d : Nat) (e : Expr) (m : Machine) : Above (d + height e) (trail d e m) := by
  rw [trail.eq_def]
  refine Above.cons (Nat.lt_add_of_pos_right (height_pos e)) m ?_
  -- the operands lie one level lower, in trees one level shorter
  match e with
  | missing | vacant _ | literal _ | var _ => exact Above.nil
  | grouping inner => exact (trail_above (d + 1) inner m).mono (by simp [height]; omega)
  | assign name value =>
    dsimp only
    split
    · exact Above.nil
    · exact (trail_above (d + 1) value m).mono (by simp [height]; omega)
  | unary op operand =>
    dsimp only
    split
    · exact Above.nil
    · exact (trail_above (d + 1) operand m).mono (by simp [height]; omega)
  | binary left op right =>
    dsimp only
    split
    · exact Above.nil
    · refine ((trail_above (d + 1) left m).mono ?_).append (Above.afterOk _ fun _ m' => ?_)
      · simp [height]; omega
      · exact (trail_above (d + 1) right m').mono (by simp [height]; omega)
  | logical left op right =>
    dsimp only
    split
    · exact Above.nil
    · refine ((trail_above (d + 1) left m).mono ?_).append (Above.afterOk _ fun l m' => ?_)
      · simp [height]; omega
      -- the right operand is visited only when the left one does not decide
      · split
        · exact Above.nil
        · exact (trail_above (d + 1) right m').mono (by simp [height]; omega)
  | call callee paren args =>
    dsimp only
    refine ((trail_above (d + 1) callee m).mono ?_).append (Above.afterOk _ fun _ m' => ?_)
    · simp [height]; omega
    · exact (trailArgs_above (d + 1) args m').mono (by simp [height]; omega)

theorem trailArgs_above (d : Nat) (args : List Expr) (m : Machine) :
    Above (d + heightArgs args) (trailArgs d args m) := by
  match args with
  | [] => exact Above.nil
  | a :: rest =>
    rw [trailArgs]
    refine ((trail_above d a m).mono ?_).append (Above.afterOk _ fun _ m' => ?_)
    · simp only [heightArgs]
      exact Nat.add_le_add_left (Nat.le_max_left _ _) d
    · simp only [heightArgs]
      exact (trailArgs_above d rest m').mono (Nat.add_le_add_left (Nat.le_max_right _ _) d)

end

/-- A tree no higher than the bound is evaluated as without the bound. -/
theorem eval_some_of_height_le {n : Nat} {e : Expr} (low : height e ≤ n) (m : Machine) :
    eval (some n) 0 e m = eval none 0 e m := by
  have above : Above n (trail 0 e m) := (trail_above 0 e m).mono (by omega)
  rw [eval_some, stopAt, List.find?_eq_none.2 fun v member => by simpa using above v member]

end Expr

/-! ## Interpreting under a depth limit -/

theorem DepthBound.ofEvaluator_of_pos {maxDepth : Int} (positive : 0 < maxDepth) :
    DepthBound.ofEvaluator maxDepth = some maxDepth.toNat := by
  simp [DepthBound.ofEvaluator, positive]

theorem DepthBound.ofEvaluator_of_nonpos {maxDepth : Int} (off : maxDepth ≤ 0) :
    DepthBound.ofEvaluator maxDepth = none := by
  simp [DepthBound.ofEvaluator]
  omega

/-- **The depth limit of an interpreter.** An interpreter with a positive limit of `maxDepth`
levels behaves as one without a limit (a limit of zero or less), except when the unbounded
evaluation visits a node at level `maxDepth + 1` or deeper: it then stops at the first such
visit, with the machine of that moment (the native calls and assignments made until then) and
the error that the expression is nested deeper than `maxDepth` levels, with no position. A tree
whose height is within the limit never meets it. -/
theorem interpret_depth_limit (maxDepth off : Int) (positive : 0 < maxDepth) (unlimited : off ≤ 0)
    (e : Expr) (s : Machine) :
    s.interpret (DepthBound.ofEvaluator maxDepth) e =
        (match (e.trail 0 s).find? (fun v => maxDepth.toNat ≤ v.1) with
          | some (_, s') =>
            (.error (Problem.nestedDeeperThan maxDepth.toNat).unplaced,
              s'.note (.failed (Problem.nestedDeeperThan maxDepth.toNat).unplaced))
          | none => s.interpret (DepthBound.ofEvaluator off) e) ∧
      (e.height ≤ maxDepth.toNat →
        s.interpret (DepthBound.ofEvaluator maxDepth) e =
          s.interpret (DepthBound.ofEvaluator off) e) := by
  rw [DepthBound.ofEvaluator_of_pos positive, DepthBound.ofEvaluator_of_nonpos unlimited]
  refine ⟨?_, fun low => by rw [Machine.interpret, Expr.eval_some_of_height_le low]; rfl⟩
  rw [Machine.interpret, Expr.eval_some, Expr.stopAt]
  cases (e.trail 0 s).find? (fun v => maxDepth.toNat ≤ v.1) with
  | some v => rfl
  | none => rfl

/-- The limit met at once: a limit of one level and a grouping, whose operand is visited at the
second level, with no environment. -/
theorem interpret_depth_limit_grouping :
    (0 : Int) < 1 ∧ (0 : Int) ≤ 0 ∧
      ((default : Machine).interpret (DepthBound.ofEvaluator 1) (.grouping .missing) =
          (match ((Expr.grouping .missing).trail 0 default).find?
              (fun v => (1 : Int).toNat ≤ v.1) with
            | some (_, s') =>
              (.error (Problem.nestedDeeperThan (1 : Int).toNat).unplaced,
                s'.note (.failed (Problem.nestedDeeperThan (1 : Int).toNat).unplaced))
            | none =>
              (default : Machine).interpret (DepthBound.ofEvaluator 0) (.grouping .missing)) ∧
        ((Expr.grouping .missing).height ≤ (1 : Int).toNat →
          (default : Machine).interpret (DepthBound.ofEvaluator 1) (.grouping .missing) =
            (default : Machine).interpret (DepthBound.ofEvaluator 0) (.grouping .missing))) :=
  ⟨by decide, by decide,
    interpret_depth_limit 1 0 (by decide) (by decide) (.grouping .missing) default⟩

end Lox
