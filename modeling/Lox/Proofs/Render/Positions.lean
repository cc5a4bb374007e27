import Mathlib
import Lox.Proofs.Eval.Depth
/-!
# Printing checks the positions of a tree in pre-order

The printer visits the positions of a tree in pre-order (`Expr.positions`): a node before its
operands, the left operand before the right, the callee before the arguments in order, each
position with its depth (the root at depth zero, so at level one). At each position it checks the
depth bound first, then whether the position holds a hole (`Expr.flaw?`): nothing at all, a node
of some shape that holds nothing, or a literal without its value. The first bad position gives
the error (`DepthBound.firstBad`); with none, the text is the fully parenthesised rendering of
the tree (`Expr.display`). This is `Expr.render_eq`, one induction that follows the printer.

On a tree without holes only the depth can fail, and the deepest position lies at the height of
the tree less one, so such a tree prints exactly when its height is within the bound.
-/

namespace Lox

namespace Expr

/-- What a position holds that a walker refuses whatever its depth: nothing at all, a node of some
shape that holds nothing, or a literal without its value. -/
def flaw? : Expr → Option Problem
  | missing => some .missingExpression
  | vacant shape => some (.vacantNode shape.name)
  | literal none => some .literalWithoutValue
  | _ => none

mutual

/-- **The positions of a tree in pre-order**, from depth `d`: the node, then the positions of its
operands from left to right, a call's callee before its arguments. -/
def positions (d : Nat) (e : Expr) : List (Nat × Expr) :=
  (d, e) :: match e with
    | assign _ value => positions (d + 1) value
    | binary left _ right | logical left _ right =>
      positions (d + 1) left ++ positions (d + 1) right
    | grouping inner | unary _ inner => positions (d + 1) inner
    | call callee _ args => positions (d + 1) callee ++ argsPositions (d + 1) args
    | literal _ | var _ | missing | vacant _ => []

/-- The positions of a call's arguments, all at depth `d`, in order. -/
def argsPositions (d : Nat) : List Expr → List (Nat × Expr)
  | [] => []
  | a :: rest => positions d a ++ argsPositions d rest

end

mutual

/-- **The fully parenthesised rendering** of a tree: `name = v`, `(l op r)`, `(group e)`,
`(op e)`, `(call c a₁ … aₖ)`, a literal's text, a variable's name. Holes show nothing; a tree
with a hole is never printed. -/
def display : Expr → String
  | assign name value => name.lexeme ++ " = " ++ display value
  | binary left op right | logical left op right =>
    "(" ++ display left ++ " " ++ op.lexeme ++ " " ++ display right ++ ")"
  | grouping inner => "(group " ++ display inner ++ ")"
  | unary op operand => "(" ++ op.lexeme ++ " " ++ display operand ++ ")"
  | call callee _ args => "(call " ++ display callee ++ displayArgs args ++ ")"
  | literal value => (value.map Literal.text).getD ""
  | var name => name.lexeme
  | missing | vacant _ => ""

/-- The renderings of a call's arguments, each after a space. -/
def displayArgs : List Expr → String
  | [] => ""
  | a :: rest => " " ++ display a ++ displayArgs rest

end

/-- A tree without holes: no position of it holds one. -/
def Whole (e : Expr) : Prop :=
  ∀ p ∈ e.positions 0, p.2.flaw? = none

end Expr

namespace DepthBound

/-- The fault of a position at depth `d` that holds `e`, if the position is bad: past the bound
first, and otherwise a hole. -/
def check (bound : DepthBound) (d : Nat) (e : Expr) : Option Fault :=
  if bound.exceeded d then some bound.fault else e.flaw?.map Problem.unplaced

/-- The fault of the first bad position of a list. -/
def firstBad (bound : DepthBound) (ps : List (Nat × Expr)) : Option Fault :=
  ps.findSome? fun p => bound.check p.1 p.2

theorem firstBad_append (bound : DepthBound) (ps qs : List (Nat × Expr)) :
    bound.firstBad (ps ++ qs) = (bound.firstBad ps).or (bound.firstBad qs) := by
  simp [firstBad, List.findSome?_append]

theorem firstBad_cons (bound : DepthBound) (d : Nat) (e : Expr) (ps : List (Nat × Expr)) :
    bound.firstBad ((d, e) :: ps) = (bound.check d e).or (bound.firstBad ps) := by
  simp only [firstBad, List.findSome?_cons]
  cases bound.check d e <;> rfl

end DepthBound

namespace Expr

/-! ## Printing is the first bad position, or the rendering -/

/-- Two walks in sequence: the first fault of either, or both texts combined. -/
theorem elim_bind₂ (found₁ found₂ : Option Fault) (s₁ s₂ : String)
    (g : String → String → String) :
    (do
        let a ← found₁.elim (Except.ok s₁) Except.error
        let b ← found₂.elim (Except.ok s₂) Except.error
        pure (g a b) : Except Fault String) =
      (found₁.or found₂).elim (.ok (g s₁ s₂)) .error := by
  cases found₁ <;> cases found₂ <;> rfl

theorem elim_bind (found : Option Fault) (s : String) (g : String → String) :
    (do let a ← found.elim (Except.ok s) Except.error; pure (g a) : Except Fault String) =
      found.elim (.ok (g s)) .error := by
  cases found <;> rfl

mutual

/-- **What printing does.** Printing a tree from depth `d` fails with the fault of its first bad
position in pre-order, and otherwise gives its rendering. -/
theorem render_eq (bound : DepthBound) (d : Nat) (e : Expr) :
    render bound d e = (bound.firstBad (e.positions d)).elim (.ok e.display) .error := by
  rw [render.eq_def, positions.eq_def, DepthBound.firstBad_cons, DepthBound.check]
  by_cases deep : bound.exceeded d
  · simp [deep]
  · simp only [deep, Bool.false_eq_true, if_false]
    -- below the node: a hole is its own first bad position; otherwise its operands decide
    match e with
    | missing | vacant _ | literal none => rfl
    | literal (some _) | var _ => rfl
    | assign name value =>
      simp only [flaw?, Option.map_none, Option.none_or]
      rw [render_eq bound (d + 1) value, elim_bind]
      rfl
    | grouping inner =>
      simp only [flaw?, Option.map_none, Option.none_or]
      rw [render_eq bound (d + 1) inner, elim_bind]
      rfl
    | unary op operand =>
      simp only [flaw?, Option.map_none, Option.none_or]
      rw [render_eq bound (d + 1) operand, elim_bind]
      rfl
    | binary left op right | logical left op right =>
      simp only [flaw?, Option.map_none, Option.none_or, DepthBound.firstBad_append]
      rw [render_eq bound (d + 1) left, render_eq bound (d + 1) right, elim_bind₂]
      rfl
    | call callee paren args =>
      simp only [flaw?, Option.map_none, Option.none_or, DepthBound.firstBad_append]
      rw [render_eq bound (d + 1) callee, renderArgs_eq bound (d + 1) args, elim_bind₂]
      rfl

theorem renderArgs_eq (bound : DepthBound) (d : Nat) (args : List Expr) :
    renderArgs bound d args =
      (bound.firstBad (argsPositions d args)).elim (.ok (displayArgs args)) .error := by
  match args with
  | [] => rfl
  | a :: rest =>
    rw [renderArgs, argsPositions, DepthBound.firstBad_append, render_eq bound d a,
      renderArgs_eq bound d rest, elim_bind₂]
    rfl

end

/-! ## The depths of the positions -/

mutual

/-- Every position of a tree of height `h` from depth `d` lies above depth `d + h`. -/
theorem depth_lt_of_mem_positions {d : Nat} {p : Nat × Expr} (e : Expr)
    (member : p ∈ e.positions d) : p.1 < d + e.height := by
  rw [positions.eq_def, List.mem_cons] at member
  rcases member with rfl | below
  · exact Nat.lt_add_of_pos_right (height_pos e)
  -- the operands lie one level lower, in trees one level shorter; matching on the tree alone,
  -- with the membership reverted, keeps the match small
  revert below
  match e with
  | missing | vacant _ | literal _ | var _ => exact fun below => nomatch below
  | assign _ value =>
    intro below
    have := depth_lt_of_mem_positions value below
    simp only [height]
    omega
  | grouping inner | unary _ inner =>
    intro below
    have := depth_lt_of_mem_positions inner below
    simp only [height]
    omega
  | binary left _ right | logical left _ right =>
    intro below
    rcases List.mem_append.1 below with inLeft | inRight
    · have := depth_lt_of_mem_positions left inLeft
      simp only [height]
      omega
    · have := depth_lt_of_mem_positions right inRight
      simp only [height]
      omega
  | call callee _ args =>
    intro below
    rcases List.mem_append.1 below with inCallee | inArgs
    · have := depth_lt_of_mem_positions callee inCallee
      simp only [height]
      omega
    · have := depth_lt_of_mem_argsPositions args inArgs
      simp only [height]
      omega

theorem depth_lt_of_mem_argsPositions {d : Nat} {p : Nat × Expr} (args : List Expr)
    (member : p ∈ argsPositions d args) : p.1 < d + heightArgs args := by
  match args, member with
  | a :: rest, member =>
    rw [argsPositions, List.mem_append] at member
    rcases member with inHead | inRest
    · have := depth_lt_of_mem_positions a inHead
      simp only [heightArgs]
      omega
    · have := depth_lt_of_mem_argsPositions rest inRest
      simp only [heightArgs]
      omega

end

mutual

/-- A tree of height `h` from depth `d` has a position at depth `d + h - 1`: the end of its longest
path. -/
theorem exists_deepest (d : Nat) (e : Expr) : ∃ p ∈ e.positions d, p.1 + 1 = d + e.height := by
  rw [positions.eq_def]
  match e with
  | literal _ | var _ | missing | vacant _ =>
    exact ⟨(d, _), List.mem_cons_self, by simp [height]⟩
  | assign _ value =>
    obtain ⟨p, member, deepest⟩ := exists_deepest (d + 1) value
    exact ⟨p, List.mem_cons_of_mem _ member, by simp only [height]; omega⟩
  | grouping inner | unary _ inner =>
    obtain ⟨p, member, deepest⟩ := exists_deepest (d + 1) inner
    exact ⟨p, List.mem_cons_of_mem _ member, by simp only [height]; omega⟩
  | binary left _ right | logical left _ right =>
    -- the longest path goes through the higher operand
    rcases Nat.le_total left.height right.height with higher | higher
    · obtain ⟨p, member, deepest⟩ := exists_deepest (d + 1) right
      exact ⟨p, List.mem_cons_of_mem _ (List.mem_append_right _ member),
        by simp only [height]; omega⟩
    · obtain ⟨p, member, deepest⟩ := exists_deepest (d + 1) left
      exact ⟨p, List.mem_cons_of_mem _ (List.mem_append_left _ member),
        by simp only [height]; omega⟩
  | call callee _ args =>
    rcases Nat.le_total callee.height (heightArgs args) with higher | higher
    · obtain ⟨p, member, deepest⟩ := exists_deepest_args (d + 1) args (by
        have := height_pos callee
        omega)
      exact ⟨p, List.mem_cons_of_mem _ (List.mem_append_right _ member),
        by simp only [height]; omega⟩
    · obtain ⟨p, member, deepest⟩ := exists_deepest (d + 1) callee
      exact ⟨p, List.mem_cons_of_mem _ (List.mem_append_left _ member),
        by simp only [height]; omega⟩

theorem exists_deepest_args (d : Nat) (args : List Expr) (nonempty : 0 < heightArgs args) :
    ∃ p ∈ argsPositions d args, p.1 + 1 = d + heightArgs args := by
  match args with
  | a :: rest =>
    rw [argsPositions]
    rcases Nat.le_total a.height (heightArgs rest) with higher | higher
    · obtain ⟨p, member, deepest⟩ := exists_deepest_args d rest (by
        have := height_pos a
        omega)
      exact ⟨p, List.mem_append_right _ member, by simp only [heightArgs]; omega⟩
    · obtain ⟨p, member, deepest⟩ := exists_deepest d a
      exact ⟨p, List.mem_append_left _ member, by simp only [heightArgs]; omega⟩

end

/-- **A tree without holes prints exactly within the bound.** Its only bad positions are those
past the bound, and its deepest position lies at its height less one. -/
theorem firstBad_eq_none_iff {e : Expr} (whole : e.Whole) (bound : DepthBound) :
    bound.firstBad (e.positions 0) = none ↔ ∀ n, bound = some n → e.height ≤ n := by
  have checks : ∀ p ∈ e.positions 0, bound.check p.1 p.2 =
      if bound.exceeded p.1 then some bound.fault else none := by
    intro p member
    simp [DepthBound.check, whole p member]
  rw [DepthBound.firstBad, List.findSome?_eq_none_iff]
  constructor
  · rintro within n rfl
    obtain ⟨p, member, deepest⟩ := exists_deepest 0 e
    have shallow := within p member
    rw [checks p member] at shallow
    simp only [DepthBound.exceeded, ite_eq_right_iff, reduceCtorEq, imp_false,
      decide_eq_true_eq] at shallow
    omega
  · intro within p member
    rw [checks p member]
    cases bound with
    | none => rfl
    | some n =>
      have := depth_lt_of_mem_positions e member
      have := within n rfl
      simp only [DepthBound.exceeded, decide_eq_true_eq]
      rw [if_neg (by omega)]

/-- Printing several trees: each on a line of its own, or the first error. -/
theorem renderAll_eq (bound : DepthBound) (es : List Expr) :
    renderAll bound es =
      (es.mapM (render bound 0)).map fun lines => String.join (lines.map (· ++ "\n")) := by
  induction es with
  | nil => rfl
  | cons e rest ih =>
    rw [renderAll, ih, List.mapM_cons]
    cases render bound 0 e with
    | error f => rfl
    | ok line =>
      cases rest.mapM (render bound 0) with
      | error f => rfl
      | ok lines => simp [Except.map, bind, Except.bind, pure, Except.pure]

/-- **The printer.** A printer with the depth bound `m` (`m` levels when `m` is positive, 1024 when
it is zero, none when it is negative) checks the positions of a tree in pre-order, a node before
its operands, the left operand before the right, the callee before the arguments in order. A
position is bad when it lies past the bound, which gives the error that the tree is nested deeper
than the bound, with no position; or else when it holds a hole: nothing, which is a missing
expression, a node of some shape that holds nothing, or a literal without its value, each a
malformed tree. Printing fails with the fault of the first bad position, and otherwise gives the
fully parenthesised rendering. So a tree without holes prints exactly when its height is within
the bound; and printing several trees gives each on a line of its own, or the first error. -/
theorem print_checks_positions (m : Int) :
    (∀ e : Expr, e.render (DepthBound.ofPrinter m) 0 =
        ((DepthBound.ofPrinter m).firstBad (e.positions 0)).elim (.ok e.display) .error) ∧
    (∀ e : Expr, e.Whole →
        ((∃ text, e.render (DepthBound.ofPrinter m) 0 = .ok text) ↔
          ∀ n, DepthBound.ofPrinter m = some n → e.height ≤ n)) ∧
    ∀ es : List Expr, renderAll (DepthBound.ofPrinter m) es =
      (es.mapM (render (DepthBound.ofPrinter m) 0)).map fun lines =>
        String.join (lines.map (· ++ "\n")) := by
  refine ⟨fun e => render_eq _ 0 e, fun e whole => ?_, renderAll_eq _⟩
  rw [← firstBad_eq_none_iff whole, render_eq]
  cases (DepthBound.ofPrinter m).firstBad (e.positions 0) with
  | none => exact ⟨fun _ => rfl, fun _ => ⟨_, rfl⟩⟩
  | some f => exact ⟨fun ⟨_, printed⟩ => (nomatch printed), fun found => nomatch found⟩

-- two negations of a name print within three levels, and stop at the name within two
example : (unary ⟨.minus, "-", none, 1, 1⟩ (unary ⟨.minus, "-", none, 1, 2⟩
    (var ⟨.identifier, "x", none, 1, 3⟩))).render (DepthBound.ofPrinter 3) 0 =
      .ok "(- (- x))" := by
  rfl

example : (unary ⟨.minus, "-", none, 1, 1⟩ (unary ⟨.minus, "-", none, 1, 2⟩
    (var ⟨.identifier, "x", none, 1, 3⟩))).render (DepthBound.ofPrinter 2) 0 =
      .error (Problem.nestedDeeperThan 2).unplaced := by
  rfl

end Expr

end Lox
