import Lox.Expr.Basic
import Lox.Fault.Problem
/-!
# Writing a tree as fully parenthesised text

Every operation is written in parentheses: `(left op right)` for binary and logical nodes,
`(op operand)` for unary ones, `(group inner)`, `(call callee arg …)`; an assignment is
`name = value`, a variable its name and a literal its text.

The walk checks every position in pre-order, a node before its children. At each position it
first checks the depth bound, then whether the position holds a hole; the first bad position
gives the error.
-/

namespace Lox

/-- A bound on the nesting of a walk: the root is at level one, and a position deeper than the
bound is an error. `none` is no bound. -/
abbrev DepthBound := Option Nat

/-- Whether a position at `depth` (the root at zero) lies beyond the bound. -/
def DepthBound.exceeded (bound : DepthBound) (depth : Nat) : Bool :=
  match bound with
  | some n => decide (n ≤ depth)
  | none => false

/-- The error of going beyond the bound. -/
def DepthBound.fault (bound : DepthBound) : Fault :=
  (Problem.nestedDeeperThan (bound.getD 0)).unplaced

/-- The bound of a printer: `0` asks for the default of 1024 levels, a negative number for none. -/
def DepthBound.ofPrinter (maxDepth : Int) : DepthBound :=
  if maxDepth = 0 then some 1024 else if maxDepth < 0 then none else some maxDepth.toNat

namespace Expr

mutual

/-- **Rendering.** The text of a tree, or the error of its first bad position. -/
def render (bound : DepthBound) (depth : Nat) (e : Expr) : Except Fault String :=
  if bound.exceeded depth then .error bound.fault
  else match e with
    | missing => .error Problem.missingExpression.unplaced
    | vacant shape => .error (Problem.vacantNode shape.name).unplaced
    | assign name value => do
      let v ← render bound (depth + 1) value
      pure (name.lexeme ++ " = " ++ v)
    | binary left op right | logical left op right => do
      let l ← render bound (depth + 1) left
      let r ← render bound (depth + 1) right
      pure ("(" ++ l ++ " " ++ op.lexeme ++ " " ++ r ++ ")")
    | grouping inner => do
      let i ← render bound (depth + 1) inner
      pure ("(group " ++ i ++ ")")
    | unary op operand => do
      let o ← render bound (depth + 1) operand
      pure ("(" ++ op.lexeme ++ " " ++ o ++ ")")
    | call callee _ args => do
      let c ← render bound (depth + 1) callee
      let a ← renderArgs bound (depth + 1) args
      pure ("(call " ++ c ++ a ++ ")")
    | literal none => .error Problem.literalWithoutValue.unplaced
    | literal (some l) => pure l.text
    | var name => pure name.lexeme

/-- The arguments of a call, each after a space. -/
def renderArgs (bound : DepthBound) (depth : Nat) : List Expr → Except Fault String
  | [] => pure ""
  | a :: rest => do
    let x ← render bound depth a
    let r ← renderArgs bound depth rest
    pure (" " ++ x ++ r)

end

/-- Renders each tree on a line of its own, stopping at the first error. -/
def renderAll (bound : DepthBound) : List Expr → Except Fault String
  | [] => pure ""
  | e :: rest => do
    let line ← render bound 0 e
    let more ← renderAll bound rest
    pure (line ++ "\n" ++ more)

end Expr

end Lox
