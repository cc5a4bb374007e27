import Lox.Fault.Basic
/-!
# The problems the language itself reports

Every fault that scanning, parsing, printing or evaluating raises on its own account is one of
these problems. Each has a kind and a message; `Problem.raiseAt` raises it at a token and
`Problem.unplaced` raises it with no position.
-/

namespace Lox

/-- A problem found in source text, in a tree or while evaluating. -/
inductive Problem where
  /-- A character that begins no token. -/
  | unexpectedCharacter (c : Char)
  /-- A string without its closing quote. -/
  | unterminatedString
  /-- A numeral too large for a double. -/
  | invalidNumber (digits : String)
  /-- No expression where one must begin. -/
  | expectExpression
  /-- Tokens left after a whole expression. -/
  | expectEndOfExpression
  /-- A parenthesis opened around an expression and not closed. -/
  | unclosedGroup
  /-- An argument list not closed. -/
  | unclosedArguments
  /-- More than 255 arguments in one call. -/
  | tooManyArguments
  /-- An assignment to something other than a name. -/
  | invalidAssignmentTarget
  /-- More than 256 assignments, unary operators, calls and groups open at once. -/
  | nestedTooDeeply
  /-- No expression where a tree needs one. -/
  | missingExpression
  /-- An empty node of some shape, named by the shape. -/
  | vacantNode (shape : String)
  /-- A literal node without its constant. -/
  | literalWithoutValue
  /-- A tree nested deeper than the bound. -/
  | nestedDeeperThan (levels : Nat)
  /-- An assignment whose target token is not a name. -/
  | targetNotIdentifier
  /-- A variable whose token is not a name. -/
  | variableNotIdentifier
  /-- A binary node with an operator of another class. -/
  | notBinaryOperator
  /-- A logical node with an operator of another class. -/
  | notLogicalOperator
  /-- A unary node with an operator of another class. -/
  | notUnaryOperator
  /-- `+` on operands that are neither two numbers nor two strings. -/
  | addMismatch
  /-- Arithmetic or comparison on operands that are not both numbers. -/
  | operandsNotNumbers
  /-- Negation of something that is not a number. -/
  | operandNotNumber
  /-- A call of a value that is not a function, named by its type. -/
  | notCallable (typeName : String)
  /-- A call with the wrong number of arguments. -/
  | arityMismatch (expected : Int) (given : Nat)
  /-- A name bound in no scope. -/
  | undefinedVariable (name : String)
  /-- The length of something that is not a string, named by its type. -/
  | lengthOfNonString (typeName : String)
  deriving Repr, Inhabited

namespace Problem

/-- The kind of fault a problem raises. -/
def kind : Problem → ErrorKind
  | unexpectedCharacter _ | unterminatedString | invalidNumber _ | expectExpression
  | expectEndOfExpression | unclosedGroup | unclosedArguments | tooManyArguments
  | invalidAssignmentTarget | nestedTooDeeply => .syntaxError
  | missingExpression | vacantNode _ | literalWithoutValue | targetNotIdentifier
  | variableNotIdentifier | notBinaryOperator | notLogicalOperator | notUnaryOperator =>
    .malformedTree
  | nestedDeeperThan _ => .depthExceeded
  | addMismatch | operandsNotNumbers | operandNotNumber | lengthOfNonString _ => .typeError
  | notCallable _ => .notCallable
  | arityMismatch _ _ => .arityMismatch
  | undefinedVariable _ => .undefinedName

/-- The message of a problem. -/
def message : Problem → String
  | unexpectedCharacter c => "unexpected character '" ++ c.toString ++ "'"
  | unterminatedString => "unterminated string"
  | invalidNumber digits => "invalid number '" ++ digits ++ "'"
  | expectExpression => "expect expression"
  | expectEndOfExpression => "expect end of expression"
  | unclosedGroup => "expect ')' after expression"
  | unclosedArguments => "expect ')' after arguments"
  | tooManyArguments => "can't have more than 255 arguments"
  | invalidAssignmentTarget => "invalid assignment target"
  | nestedTooDeeply => "expression nested too deeply"
  | missingExpression => "missing expression"
  | vacantNode shape => "nil " ++ shape ++ " node"
  | literalWithoutValue => "literal without value"
  | nestedDeeperThan levels => "expression nested deeper than " ++ toString levels ++ " levels"
  | targetNotIdentifier => "assignment target must be an identifier"
  | variableNotIdentifier => "variable name must be an identifier"
  | notBinaryOperator => "not a binary operator"
  | notLogicalOperator => "not a logical operator"
  | notUnaryOperator => "not a unary operator"
  | addMismatch => "operands must be two numbers or two strings"
  | operandsNotNumbers => "operands must be numbers"
  | operandNotNumber => "operand must be a number"
  | notCallable typeName => "can only call functions, got " ++ typeName
  | arityMismatch expected given =>
    "expected " ++ toString expected ++ " arguments but got " ++ toString given
  | undefinedVariable name => "undefined variable '" ++ name ++ "'"
  | lengthOfNonString typeName => "len expects a string, got " ++ typeName

/-- The problem raised at a token; a token without a position gives a fault without one. -/
def raiseAt (p : Problem) (t : Token) : Fault :=
  Fault.raise p.kind t (.plain p.message)

/-- The problem raised with no position. -/
def unplaced (p : Problem) : Fault :=
  Fault.unplaced p.kind p.message

end Problem

end Lox
