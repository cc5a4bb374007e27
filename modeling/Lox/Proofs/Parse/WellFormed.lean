import Mathlib
import Lox.Proofs.Parse.Complete
/-!
# Parsed trees are well formed

A tree is well formed when it holds no hole and a value in every literal, every operator is of
its node's class, every assigned or read name is an identifier token, and every token in it
satisfies a condition on tokens, such as lying at or after some line (`Expr.WellFormed`).

Every phrase of the strict grammar builds only such trees from tokens that carry their constants
(`Assignment.wellFormed`), one lemma for each rule, by a recursion that follows the derivation;
and the parser reads only phrases of the strict grammar, so every tree it returns is well formed
with the tokens it read (`parse_wellFormed`).
-/

namespace Lox

mutual

/-- **Well-formed trees.** No hole anywhere and a value in every literal; every operator of its
node's class and every assigned or read name an identifier token; and every token of the tree
satisfies `placed`. -/
def Expr.WellFormed (placed : Token → Prop) : Expr → Prop
  | .assign name value => name.kind = .identifier ∧ placed name ∧ value.WellFormed placed
  | .binary left op right =>
    op.kind.isBinary = true ∧ placed op ∧ left.WellFormed placed ∧ right.WellFormed placed
  | .logical left op right =>
    op.kind.isLogical = true ∧ placed op ∧ left.WellFormed placed ∧ right.WellFormed placed
  | .grouping inner => inner.WellFormed placed
  | .unary op operand => op.kind.isUnary = true ∧ placed op ∧ operand.WellFormed placed
  | .call callee paren args =>
    placed paren ∧ callee.WellFormed placed ∧ Expr.ArgsWellFormed placed args
  | .literal value => value.isSome = true
  | .var name => name.kind = .identifier ∧ placed name
  | .missing | .vacant _ => False

/-- Every argument is well formed. -/
def Expr.ArgsWellFormed (placed : Token → Prop) : List Expr → Prop
  | [] => True
  | arg :: args => arg.WellFormed placed ∧ Expr.ArgsWellFormed placed args

end

/-- A token of a number or a string carries its constant. -/
def Token.Carries (t : Token) : Prop :=
  t.kind = .number ∨ t.kind = .string → t.literal.isSome = true

namespace Grammar

variable {placed : Token → Prop}

/-- Every token of `ts` but an end carries its constant and satisfies `placed`. -/
def Supplies (placed : Token → Prop) (ts : List Token) : Prop :=
  ∀ t ∈ ts, t.kind ≠ .eof → t.Carries ∧ placed t

theorem Supplies.head {t : Token} {ts : List Token} (supplied : Supplies placed (t :: ts))
    (notEnd : t.kind ≠ .eof) : t.Carries ∧ placed t :=
  supplied t List.mem_cons_self notEnd

theorem Supplies.tail {t : Token} {ts : List Token} (supplied : Supplies placed (t :: ts)) :
    Supplies placed ts :=
  fun u member => supplied u (List.mem_cons_of_mem t member)

theorem Supplies.of_consumes {ts rest : List Token} (supplied : Supplies placed ts)
    (taken : Consumes ts rest) : Supplies placed rest := by
  obtain ⟨body, rfl, -⟩ := taken
  exact fun u member => supplied u (List.mem_append_right body member)

theorem operators_isBinary : ∀ n < 4, ∀ k ∈ operators n, k.isBinary = true := by
  decide

theorem operators_isLogical : ∀ n, 4 ≤ n → ∀ k ∈ operators n, k.isLogical = true
  | 4, _ => by decide
  | _ + 5, _ => by simp [operators, TokenKind.isLogical]

/-- The node of a binary level over an operator of the level is of its class. -/
theorem node_wellFormed {n : Nat} {left right : Expr} {op : Token}
    (member : op.kind ∈ operators n) (placedOp : placed op) (leftWf : left.WellFormed placed)
    (rightWf : right.WellFormed placed) : (node n left op right).WellFormed placed := by
  unfold node
  split
  · next logical => exact ⟨operators_isLogical n logical _ member, placedOp, leftWf, rightWf⟩
  · next binary =>
    exact ⟨operators_isBinary n (by omega) _ member, placedOp, leftWf, rightWf⟩

mutual

/-- **Parsed trees are well formed.** The tree of a phrase of the strict grammar is well formed
with the tokens it is read from. -/
theorem Assignment.wellFormed {ts : List Token} {e : Expr} {rest : List Token} :
    Assignment false ts e rest → Supplies placed ts → e.WellFormed placed
  | .lone chain, supplied => chain.wellFormed supplied
  | .assign named _ value, supplied =>
    ⟨named, (supplied.head (by simp [named])).2, value.wellFormed supplied.tail.tail⟩
  | .retarget lenient _ _ _ _, _ => nomatch lenient

theorem Chain.wellFormed {n : Nat} {ts : List Token} {e : Expr} {rest : List Token} :
    Chain false n ts e rest → Supplies placed ts → e.WellFormed placed
  | .chain operand links, supplied =>
    links.wellFormed (operand.wellFormed supplied) (supplied.of_consumes operand.consumes)

theorem Operand.wellFormed {n : Nat} {ts : List Token} {e : Expr} {rest : List Token} :
    Operand false n ts e rest → Supplies placed ts → e.WellFormed placed
  | .unary phrase, supplied => phrase.wellFormed supplied
  | .chain lower, supplied => lower.wellFormed supplied

theorem Links.wellFormed {n : Nat} {left : Expr} {ts : List Token} {e : Expr}
    {rest : List Token} : Links false n left ts e rest → left.WellFormed placed →
      Supplies placed ts → e.WellFormed placed
  | .done, leftWf, _ => leftWf
  | .link member operand tail, leftWf, supplied =>
    tail.wellFormed
      (node_wellFormed member
        (supplied.head fun isEnd => eof_not_mem_operators n (isEnd ▸ member)).2 leftWf
        (operand.wellFormed supplied.tail))
      (supplied.tail.of_consumes operand.consumes)

theorem Unary.wellFormed {ts : List Token} {e : Expr} {rest : List Token} :
    Unary false ts e rest → Supplies placed ts → e.WellFormed placed
  | .op kind operand, supplied =>
    ⟨by rcases kind with kind | kind <;> simp [kind, TokenKind.isUnary],
      (supplied.head (by rcases kind with kind | kind <;> simp [kind])).2,
      operand.wellFormed supplied.tail⟩
  | .call calls, supplied => calls.wellFormed supplied

theorem Calls.wellFormed {ts : List Token} {e : Expr} {rest : List Token} :
    Calls false ts e rest → Supplies placed ts → e.WellFormed placed
  | .calls primary suffixes, supplied =>
    suffixes.wellFormed (primary.wellFormed supplied) (supplied.of_consumes primary.consumes)

theorem Suffixes.wellFormed {callee : Expr} {ts : List Token} {e : Expr} {rest : List Token} :
    Suffixes false callee ts e rest → callee.WellFormed placed → Supplies placed ts →
      e.WellFormed placed
  | .done, calleeWf, _ => calleeWf
  | .empty _ isClose tail, calleeWf, supplied =>
    tail.wellFormed ⟨(supplied.tail.head (by simp [isClose])).2, calleeWf, trivial⟩
      supplied.tail.tail
  | .call _ listed isClose tail, calleeWf, supplied =>
    -- the closing parenthesis comes after the arguments
    have closing := supplied.tail.of_consumes listed.consumes
    tail.wellFormed
      ⟨(closing.head (by simp [isClose])).2, calleeWf, listed.wellFormed supplied.tail⟩
      closing.tail

theorem Arguments.wellFormed {ts : List Token} {args : List Expr} {rest : List Token} :
    Arguments false ts args rest → Supplies placed ts → Expr.ArgsWellFormed placed args
  | .last phrase, supplied => ⟨phrase.wellFormed supplied, trivial⟩
  | .cons phrase _ more, supplied =>
    ⟨phrase.wellFormed supplied, more.wellFormed (supplied.of_consumes phrase.consumes).tail⟩

theorem Primary.wellFormed {ts : List Token} {e : Expr} {rest : List Token} :
    Primary false ts e rest → Supplies placed ts → e.WellFormed placed
  | .falseWord _, _ | .trueWord _, _ | .nilWord _, _ => rfl
  | .number kind, supplied => (supplied.head (by simp [kind])).1 (.inl kind)
  | .string kind, supplied => (supplied.head (by simp [kind])).1 (.inr kind)
  | .identifier kind, supplied => ⟨kind, (supplied.head (by simp [kind])).2⟩
  | .group _ inner _, supplied => inner.wellFormed supplied.tail

end

/-- The parser reads the given tokens, and the end marker if they have no end. -/
theorem mem_prepare {ts : List Token} {t : Token} (member : t ∈ Parse.prepare ts) :
    t ∈ ts ∨ t = Token.endMarker := by
  induction ts with
  | nil => simpa [Parse.prepare] using member
  | cons u ts ih =>
    unfold Parse.prepare at member
    split at member
    · simp_all
    · rcases List.mem_cons.1 member with rfl | later
      · exact .inl List.mem_cons_self
      · rcases ih later with inside | marker
        · exact .inl (List.mem_cons_of_mem u inside)
        · exact .inr marker

theorem Supplies.prepare {ts : List Token} (supplied : Supplies placed ts) :
    Supplies placed (Parse.prepare ts) := by
  intro t member notEnd
  rcases mem_prepare member with inside | rfl
  · exact supplied t inside notEnd
  · exact absurd rfl notEnd

/-- **A parsed tree is well formed** with the tokens it is parsed from. -/
theorem parse_wellFormed {tokens : List Token} {tree : Expr}
    (parsed : Expr.parse tokens = .ok tree) (supplied : Supplies placed tokens) :
    tree.WellFormed placed := by
  unfold Expr.parse at parsed
  split at parsed
  · cases parsed
  · next tree' rest le errs read =>
    dsimp only at parsed
    generalize (if (Parse.peek rest).kind = .semicolon then rest.tail else rest) = left at parsed
    split at parsed
    · cases parsed
    · split at parsed
      · next clean =>
        cases parsed
        obtain ⟨phrase, -⟩ :=
          Parse.assignment_sound read (by simp only [Array.isEmpty_iff] at clean; simp [clean])
        exact phrase.wellFormed supplied.prepare
      · cases parsed

end Grammar

end Lox
