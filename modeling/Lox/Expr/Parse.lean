import Lox.Expr.Basic
import Lox.Fault.Problem
/-!
# Parsing tokens into an expression

Recursive descent over the grammar, loosest binding first:

```
expression → assignment
assignment → or ( "=" assignment )?
or         → and ( "or" and )*
and        → equality ( "and" equality )*
equality   → comparison ( ( "==" | "!=" ) comparison )*
comparison → term ( ( ">" | ">=" | "<" | "<=" ) term )*
term       → factor ( ( "+" | "-" ) factor )*
factor     → unary ( ( "/" | "*" ) unary )*
unary      → ( "!" | "-" ) unary | call
call       → primary ( "(" arguments? ")" )*
primary    → "true" | "false" | "nil" | NUMBER | STRING | IDENTIFIER | "(" expression ")"
```

A whole input is one expression, then at most one `;`, then the end. Reading stops at the first
`EOF` token, which is never consumed. Most errors are fatal and end the parse; two are recorded
and reading goes on: an assignment to something other than a variable, and an argument beyond
the 255th. Assignments, unary operators, calls and groupings count as open while their operands
are read, and opening one when 256 are open is fatal.

Every function returns the tokens it leaves with a proof that they are no more than it was given;
each recursive call is made on fewer tokens, or on as many at a lower rank of the grammar, which
is the measure that makes the descent total.
-/

namespace Lox

namespace Parse

/-- The most assignments, unary operators, calls and groupings open at once. -/
def maxOpen : Nat := 256

/-- The most arguments of one call. -/
def maxArguments : Nat := 255

/-- The next token; past the end of the list, the end marker. -/
def peek : List Token → Token
  | t :: _ => t
  | [] => Token.endMarker

/-- A phrase read from `ts`: its tree, the tokens after it, and the errors recorded so far. -/
structure Reading (ts : List Token) where
  tree : Expr
  rest : List Token
  le : rest.length ≤ ts.length
  errors : Array Fault

/-- A phrase, or the errors up to and including the fatal one. -/
abbrev Outcome (ts : List Token) := Except (Array Fault) (Reading ts)

/-- A reading of a suffix is a reading of the whole. -/
def Reading.widen {ts ts' : List Token} (r : Reading ts') (h : ts'.length ≤ ts.length) :
    Reading ts :=
  ⟨r.tree, r.rest, Nat.le_trans r.le h, r.errors⟩

/-- An outcome of a suffix is an outcome of the whole. -/
def Outcome.widen {ts ts' : List Token} (o : Outcome ts') (h : ts'.length ≤ ts.length) :
    Outcome ts :=
  match o with
  | .ok r => .ok (r.widen h)
  | .error e => .error e

/-- The operators of a binary precedence level, from `0` (factor) to `5` (or), and whether the
level builds logical nodes. -/
def level : Nat → List TokenKind × Bool
  | 5 => ([.orWord], true)
  | 4 => ([.andWord], true)
  | 3 => ([.equalEqual, .bangEqual], false)
  | 2 => ([.greater, .greaterEqual, .less, .lessEqual], false)
  | 1 => ([.plus, .minus], false)
  | _ => ([.slash, .star], false)

/-- The node of a binary precedence level. -/
def join (n : Nat) (left : Expr) (op : Token) (right : Expr) : Expr :=
  if (level n).2 then .logical left op right else .binary left op right

/-- The fatal error of opening one construct too many, if `opened` are open already. -/
def opening (opened : Nat) (site : Token) (errors : Array Fault) : Option (Array Fault) :=
  if maxOpen < opened + 1 then some (errors.push (Problem.nestedTooDeeply.raiseAt site)) else none

mutual

/-- `assignment → or ( "=" assignment )?` -/
def assignment (ts : List Token) (opened : Nat) (errors : Array Fault) : Outcome ts :=
  match infixChain 5 ts opened errors with
  | .error e => .error e
  | .ok ⟨left, rest, le, errs⟩ => (assignTail left rest opened errs).widen le
termination_by 32 * ts.length + 17

/-- After the left side of an assignment: an `=` and its value, or nothing. -/
def assignTail (left : Expr) (ts : List Token) (opened : Nat) (errors : Array Fault) :
    Outcome ts :=
  match ts with
  | t :: after =>
    if t.kind = .equal then
      match opening opened t errors with
      | some e => .error e
      | none =>
        match assignment after (opened + 1) errors with
        | .error e => .error e
        | .ok ⟨value, rest, le, errs⟩ =>
          match left with
          | .var name => .ok ⟨.assign name value, rest, by simp only [List.length_cons]; omega, errs⟩
          | _ =>
            .ok ⟨left, rest, by simp only [List.length_cons]; omega,
              errs.push (Problem.invalidAssignmentTarget.raiseAt t)⟩
    else .ok ⟨left, t :: after, Nat.le_refl _, errors⟩
  | [] => .ok ⟨left, [], Nat.le_refl _, errors⟩
termination_by 32 * ts.length + 16

/-- A left-associative chain of the operators of level `n`. -/
def infixChain (n : Nat) (ts : List Token) (opened : Nat) (errors : Array Fault) : Outcome ts :=
  match operand n ts opened errors with
  | .error e => .error e
  | .ok ⟨left, rest, le, errs⟩ => (infixTail n left rest opened errs).widen le
termination_by 32 * ts.length + 2 * n + 4

/-- An operand of level `n`: a chain of the next tighter level, or a unary expression. -/
def operand (n : Nat) (ts : List Token) (opened : Nat) (errors : Array Fault) : Outcome ts :=
  match n with
  | 0 => unary ts opened errors
  | k + 1 => infixChain k ts opened errors
termination_by 32 * ts.length + 2 * n + 3

/-- After an operand of level `n`: more operators of the level with their operands. -/
def infixTail (n : Nat) (left : Expr) (ts : List Token) (opened : Nat) (errors : Array Fault) :
    Outcome ts :=
  match ts with
  | t :: after =>
    if (level n).1.contains t.kind then
      match operand n after opened errors with
      | .error e => .error e
      | .ok ⟨right, rest, le, errs⟩ =>
        (infixTail n (join n left t right) rest opened errs).widen (by simp only [List.length_cons]; omega)
    else .ok ⟨left, t :: after, Nat.le_refl _, errors⟩
  | [] => .ok ⟨left, [], Nat.le_refl _, errors⟩
termination_by 32 * ts.length + 2 * n + 3

/-- `unary → ( "!" | "-" ) unary | call` -/
def unary (ts : List Token) (opened : Nat) (errors : Array Fault) : Outcome ts :=
  match ts with
  | t :: after =>
    if t.kind = .bang ∨ t.kind = .minus then
      match opening opened t errors with
      | some e => .error e
      | none =>
        match unary after (opened + 1) errors with
        | .error e => .error e
        | .ok ⟨operand, rest, le, errs⟩ => .ok ⟨.unary t operand, rest, by simp only [List.length_cons]; omega, errs⟩
    else call (t :: after) opened errors
  | [] => call [] opened errors
termination_by 32 * ts.length + 2

/-- `call → primary ( "(" arguments? ")" )*` -/
def call (ts : List Token) (opened : Nat) (errors : Array Fault) : Outcome ts :=
  match primary ts opened errors with
  | .error e => .error e
  | .ok ⟨callee, rest, le, errs⟩ => (callTail callee rest opened errs).widen le
termination_by 32 * ts.length + 1

/-- After a callee: argument lists in parentheses, each making a call of what precedes it. -/
def callTail (callee : Expr) (ts : List Token) (opened : Nat) (errors : Array Fault) :
    Outcome ts :=
  match ts with
  | t :: after =>
    if t.kind = .leftParen then
      match opening opened t errors with
      | some e => .error e
      | none =>
        match argumentList after (opened + 1) errors with
        | .error e => .error e
        | .ok (args, ⟨rest, le⟩, errs) =>
          match rest with
          | p :: more =>
            if p.kind = .rightParen then
              (callTail (.call callee p args) more opened errs).widen (by simp only [List.length_cons] at le ⊢; omega)
            else .error (errs.push (Problem.unclosedArguments.raiseAt p))
          | [] => .error (errs.push (Problem.unclosedArguments.raiseAt Token.endMarker))
    else .ok ⟨callee, t :: after, Nat.le_refl _, errors⟩
  | [] => .ok ⟨callee, [], Nat.le_refl _, errors⟩
termination_by 32 * ts.length
decreasing_by all_goals (simp only [List.length_cons] at *; omega)

/-- The arguments of a call up to its closing parenthesis: none if it follows at once,
otherwise expressions separated by commas. -/
def argumentList (ts : List Token) (opened : Nat) (errors : Array Fault) :
    Except (Array Fault) (List Expr × { r : List Token // r.length ≤ ts.length } × Array Fault) :=
  if (peek ts).kind = .rightParen then .ok ([], ⟨ts, Nat.le_refl _⟩, errors)
  else arguments 0 ts opened errors
termination_by 32 * ts.length + 19

/-- Arguments from the `count`-th on, each followed by a comma or by the end of the list. -/
def arguments (count : Nat) (ts : List Token) (opened : Nat) (errors : Array Fault) :
    Except (Array Fault) (List Expr × { r : List Token // r.length ≤ ts.length } × Array Fault) :=
  let errors :=
    if maxArguments ≤ count then errors.push (Problem.tooManyArguments.raiseAt (peek ts))
    else errors
  match assignment ts opened errors with
  | .error e => .error e
  | .ok ⟨arg, rest, le, errs⟩ =>
    match rest with
    | c :: more =>
      if c.kind = .comma then
        match arguments (count + 1) more opened errs with
        | .error e => .error e
        | .ok (args, ⟨r, hr⟩, errs') => .ok (arg :: args, ⟨r, by simp only [List.length_cons] at le; omega⟩, errs')
      else .ok ([arg], ⟨c :: more, le⟩, errs)
    | [] => .ok ([arg], ⟨[], by simp⟩, errs)
termination_by 32 * ts.length + 18

/-- `primary → "true" | "false" | "nil" | NUMBER | STRING | IDENTIFIER | "(" expression ")"` -/
def primary (ts : List Token) (opened : Nat) (errors : Array Fault) : Outcome ts :=
  match ts with
  | t :: after =>
    let done (e : Expr) : Outcome (t :: after) := .ok ⟨e, after, by simp, errors⟩
    match t.kind with
    | .falseWord => done (.literal (some (.bool false)))
    | .trueWord => done (.literal (some (.bool true)))
    | .nilWord => done (.literal (some .nil))
    | .number | .string => done (.literal t.literal)
    | .identifier => done (.var t)
    | .leftParen =>
      match opening opened t errors with
      | some e => .error e
      | none =>
        match assignment after (opened + 1) errors with
        | .error e => .error e
        | .ok ⟨inner, rest, le, errs⟩ =>
          match rest with
          | p :: more =>
            if p.kind = .rightParen then .ok ⟨.grouping inner, more, by simp only [List.length_cons] at le ⊢; omega, errs⟩
            else .error (errs.push (Problem.unclosedGroup.raiseAt p))
          | [] => .error (errs.push (Problem.unclosedGroup.raiseAt Token.endMarker))
    | _ => .error (errors.push (Problem.expectExpression.raiseAt t))
  | [] => .error (errors.push (Problem.expectExpression.raiseAt Token.endMarker))
termination_by 32 * ts.length

end

/-- The tokens the parser reads: the list up to and including its first `EOF`, or the whole list
followed by the end marker if it has none. -/
def prepare : List Token → List Token
  | [] => [Token.endMarker]
  | t :: rest => if t.kind = .eof then [t] else t :: prepare rest

end Parse

/-- **Parsing.** The expression that spans the tokens up to their first `EOF`, followed by at most
one `;`; or, if anything was wrong, every error found, in order, the fatal one last. -/
def Expr.parse (tokens : List Token) : Except (List Fault) Expr :=
  match Parse.assignment (Parse.prepare tokens) 0 #[] with
  | .error errs => .error errs.toList
  | .ok ⟨tree, rest, _, errs⟩ =>
    let rest := if (Parse.peek rest).kind = .semicolon then rest.tail else rest
    if (Parse.peek rest).kind ≠ .eof then
      .error (errs.push (Problem.expectEndOfExpression.raiseAt (Parse.peek rest))).toList
    else if errs.isEmpty then .ok tree
    else .error errs.toList

end Lox
