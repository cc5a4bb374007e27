import Lox.Token.Basic
/-!
# Expression trees

An expression is an assignment, a binary, logical or unary operation, a grouping, a call, a
literal or a variable. A tree built by hand may also hold holes: `missing` where an expression is
absent altogether, and `vacant` for a node of some shape that holds nothing. Walkers of a tree
report a hole as a malformed tree instead of failing in some other way.
-/

namespace Lox

/-- The shapes of expression node. -/
inductive Shape where
  | assign | binary | grouping | literal | logical | unary | call | var
  deriving Repr, DecidableEq, Inhabited

/-- The name of a shape. -/
def Shape.name : Shape → String
  | assign => "Assign" | binary => "Binary" | grouping => "Grouping" | literal => "Literal"
  | logical => "Logical" | unary => "Unary" | call => "Call" | var => "Variable"

/-- The shape with a name. -/
def Shape.ofName? (s : String) : Option Shape :=
  [Shape.assign, .binary, .grouping, .literal, .logical, .unary, .call, .var].find?
    (·.name == s)

/-- An expression tree. -/
inductive Expr where
  /-- `name = value`. -/
  | assign (name : Token) (value : Expr)
  /-- An arithmetic, comparison or equality operation. -/
  | binary (left : Expr) (op : Token) (right : Expr)
  /-- `and` or `or`, which evaluate their right operand only when needed. -/
  | logical (left : Expr) (op : Token) (right : Expr)
  /-- A parenthesised expression. -/
  | grouping (inner : Expr)
  /-- `-` or `!` applied to one operand. -/
  | unary (op : Token) (operand : Expr)
  /-- A call; `paren` is the closing parenthesis, where call errors are raised. -/
  | call (callee : Expr) (paren : Token) (args : List Expr)
  /-- A constant; a literal built by hand may lack its value. -/
  | literal (value : Option Literal)
  /-- A reference to a name. -/
  | var (name : Token)
  /-- No expression at all. -/
  | missing
  /-- A node of some shape that holds nothing. -/
  | vacant (shape : Shape)
  deriving Repr, Inhabited

end Lox
