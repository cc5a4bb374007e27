import Lox.Expr.Render
import Lox.Native
/-!
# Evaluating expression trees

Evaluation is strictly left to right and stops at the first error. `and` and `or` evaluate their
right operand only when the left one does not decide: `or` returns a truthy left value, `and` a
falsy one, and otherwise both return the right value, never a value converted to a boolean.

Each position of the tree is checked as the printer checks it: first the depth bound, then the
shape. Names, unary, binary and logical operators are checked to be of their class before their
operands are evaluated. Errors that come from the environment or from a native function are given
the position of the token that caused them, unless they have one already.

A machine is the state evaluation reads and changes: the environment, the host's native
functions, and the trace of what happened, which logging may show.

The depth of a position is an argument of evaluation, not a counter kept in the machine: each
child is evaluated one level deeper than its parent, and every interpretation starts at the root,
level zero. So the counter is back where it started after every interpretation, whether it
succeeds or fails, by the form of the definition, and each interpretation of a session has the
whole bound.

Interpreting reads the message of a failed evaluation's fault at once, for the log; a fault whose
message cannot be read (`Fault.readMessage`) then crashes the program (`Machine.run`).
-/

namespace Lox

/-- Something that happened during evaluation. -/
inductive Event where
  /-- A native function was called. -/
  | call (callee : String) (arity : Int)
  /-- A name was assigned. -/
  | assign (name : String)
  /-- Evaluation of a whole tree failed. -/
  | failed (fault : Fault)
  deriving Inhabited

/-- What evaluation reads and changes. -/
structure Machine where
  env : Env
  host : Host
  trace : Array Event := #[]
  deriving Inhabited

namespace Machine

/-- Records an event. -/
def note (m : Machine) (e : Event) : Machine :=
  { m with trace := m.trace.push e }

/-- The scope evaluation starts from: the innermost. -/
def scope (m : Machine) : Nat :=
  m.env.innermost

end Machine

/-- The bound of an evaluation: a positive number of levels, or none for zero or less. -/
def DepthBound.ofEvaluator (maxDepth : Int) : DepthBound :=
  if 0 < maxDepth then some maxDepth.toNat else none

/-- The value of a binary arithmetic or comparison operator on two numbers. -/
def arithmetic (k : TokenKind) (l r : Float) : Value :=
  match k with
  | .minus => .number (l - r)
  | .star => .number (l * r)
  | .slash => .number (l / r)
  | .greater => .bool (l > r)
  | .greaterEqual => .bool (l ≥ r)
  | .less => .bool (l < r)
  | .lessEqual => .bool (l ≤ r)
  | _ => .number (l + r)

/-- The value of a binary operation on two evaluated operands, or its type error. -/
def binaryValue (op : Token) (left right : Value) : Except Fault Value :=
  match op.kind, left, right with
  | .equalEqual, l, r => .ok (.bool (Value.equal (some l) (some r)))
  | .bangEqual, l, r => .ok (.bool (!Value.equal (some l) (some r)))
  | .plus, .str l, .str r => .ok (.str (l ++ r))
  | .plus, .number l, .number r => .ok (.number (l + r))
  | .plus, _, _ => .error (Problem.addMismatch.raiseAt op)
  | k, .number l, .number r => .ok (arithmetic k l r)
  | _, _, _ => .error (Problem.operandsNotNumbers.raiseAt op)

namespace Expr

/-- Continues a run with `next`, given the value and machine it leaves; a failed run stops there,
with its machine. -/
def andThen {α β : Type} (run : Except Fault α × Machine)
    (next : α → Machine → Except Fault β × Machine) : Except Fault β × Machine :=
  match run with
  | (.error f, m) => (.error f, m)
  | (.ok v, m) => next v m

mutual

/-- **Evaluation** of a tree at a depth, the root at zero. -/
def eval (bound : DepthBound) (depth : Nat) (e : Expr) (m : Machine) : Except Fault Value × Machine :=
  if bound.exceeded depth then (.error bound.fault, m)
  else match e with
    | missing => (.error Problem.missingExpression.unplaced, m)
    | vacant shape => (.error (Problem.vacantNode shape.name).unplaced, m)
    | assign name value =>
      if name.kind ≠ .identifier then (.error (Problem.targetNotIdentifier.raiseAt name), m)
      else andThen (eval bound (depth + 1) value m) fun v m =>
        match m.env.assign m.scope name.lexeme (some v) with
        | .error f => (.error (f.withToken name), m)
        | .ok env => (.ok v, { m with env := env }.note (.assign name.lexeme))
    | binary left op right =>
      if !op.kind.isBinary then (.error (Problem.notBinaryOperator.raiseAt op), m)
      else andThen (eval bound (depth + 1) left m) fun l m =>
        andThen (eval bound (depth + 1) right m) fun r m => (binaryValue op l r, m)
    | logical left op right =>
      if !op.kind.isLogical then (.error (Problem.notLogicalOperator.raiseAt op), m)
      else andThen (eval bound (depth + 1) left m) fun l m =>
        if (op.kind == .orWord) == Value.truthy (some l) then (.ok l, m)
        else eval bound (depth + 1) right m
    | grouping inner => eval bound (depth + 1) inner m
    | unary op operand =>
      if !op.kind.isUnary then (.error (Problem.notUnaryOperator.raiseAt op), m)
      else andThen (eval bound (depth + 1) operand m) fun v m =>
        if op.kind = .bang then (.ok (.bool (!Value.truthy (some v))), m)
        else match v with
          | .number x => (.ok (.number (-x)), m)
          | _ => (.error (Problem.operandNotNumber.raiseAt op), m)
    | call callee paren args =>
      andThen (eval bound (depth + 1) callee m) fun c m =>
        andThen (evalArgs bound (depth + 1) args m) fun vs m =>
          match c with
          | .native f =>
            if (vs.length : Int) ≠ f.arity then
              (.error ((Problem.arityMismatch f.arity vs.length).raiseAt paren), m)
            else
              let m := m.note (.call f.text f.arity)
              match m.host.call f vs with
              | (.error fault, host) => (.error (fault.withToken paren), { m with host := host })
              | (.ok result, host) => (.ok (result.getD .nil), { m with host := host })
          | other =>
            (.error ((Problem.notCallable (Value.typeName (some other))).raiseAt paren), m)
    | literal value => (Value.ofLiteral value, m)
    | var name =>
      if name.kind ≠ .identifier then (.error (Problem.variableNotIdentifier.raiseAt name), m)
      else match m.env.lookup m.scope name.lexeme with
        | .error f => (.error (f.withToken name), m)
        | .ok v => (.ok (v.getD .nil), m)

/-- The values of a call's arguments, in order, stopping at the first error. -/
def evalArgs (bound : DepthBound) (depth : Nat) (args : List Expr) (m : Machine) :
    Except Fault (List Value) × Machine :=
  match args with
  | [] => (.ok [], m)
  | a :: rest =>
    andThen (eval bound depth a m) fun v m =>
      andThen (evalArgs bound depth rest m) fun vs m => (.ok (v :: vs), m)

end

end Expr

/-- **Interpreting** a whole tree: its value, or its error, which is also recorded in the trace. -/
def Machine.interpret (m : Machine) (bound : DepthBound) (e : Expr) : Except Fault Value × Machine :=
  match e.eval bound 0 m with
  | (.error f, m) => (.error f, m.note (.failed f))
  | (.ok v, m) => (.ok v, m)

/-- **Interpreting as the program does**: the message of the fault of a failed evaluation is read
as soon as it is returned, so a fault whose message cannot be read crashes the program. -/
def Machine.run (m : Machine) (bound : DepthBound) (e : Expr) :
    Except Crash (Except Fault Value × Machine) :=
  match m.interpret bound e with
  | (.error f, m') => f.readMessage.map fun _ => (.error f, m')
  | done => .ok done

end Lox
