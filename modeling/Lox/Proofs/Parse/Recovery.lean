import Lox.Proofs.Parse.Complete
import Lox.Proofs.Parse.Loose
/-!
# The errors a parse records, and where

The parser reads on past two problems, and records each as it meets it: an assignment to
something other than a name, and an argument past the 255th of a call. This module says which
faults a reading records, at which token and in which order, as a grammar of its own
(`Recovery.Assignment` and its companions). It is the lenient grammar with the room of
`Derives` and one more index, the list of faults the phrase records:

* an assignment to a target that is not a name records, after the faults of the target and of
  the value, the invalid target at its `=`; so where assignments nest, the inner one's fault
  comes first;
* an argument of a call, counted from zero, records too many arguments at its first token when
  its number is 255 or more, before the faults of the argument itself;
* every other phrase records the faults of its parts, left to right.

The parser reads every such phrase to its tree and records exactly its faults, after those it
had (`assignment_recovers` and its companions), and every utterance of the unrestricted grammar is
such a phrase (`Derives.readable`). Together (`parse_recovers`): for every input that is an
utterance within the limit of open constructs, the parse fails with exactly the faults of its
reading, in that order, or returns its tree when there are none.
-/

namespace Lox

namespace Grammar

namespace Recovery

/-- What the argument numbered `count`, counted from zero, records before its own faults when it
begins at `t`: too many arguments from number 255 on, nothing before. -/
def overflow (count : Nat) (t : Token) : List Fault :=
  if Parse.maxArguments ≤ count then [Problem.tooManyArguments.raiseAt t] else []

mutual

/-- `assignment → or ( "=" assignment )?`, with at most `room` constructs open at once, recording
the faults `errs`. The value of an assignment to a name is assigned; before any other target it is
read and left out of the tree, and the invalid target is recorded at the `=` after everything
else. -/
inductive Assignment : Nat → List Token → Expr → List Fault → List Token → Prop where
  | lone {room ts e errs rest} : Chain room 5 ts e errs rest → Assignment room ts e errs rest
  | assign {room ts name e₁ eq after value e₂ rest} :
      Chain room 5 ts (.var name) e₁ (eq :: after) → eq.kind = .equal → 0 < room →
      Assignment (room - 1) after value e₂ rest →
      Assignment room ts (.assign name value) (e₁ ++ e₂) rest
  | retarget {room ts target e₁ eq after value e₂ rest} :
      Chain room 5 ts target e₁ (eq :: after) → (∀ name, target ≠ .var name) →
      eq.kind = .equal → 0 < room → Assignment (room - 1) after value e₂ rest →
      Assignment room ts target (e₁ ++ e₂ ++ [Problem.invalidAssignmentTarget.raiseAt eq]) rest

/-- Binary level `n`: an operand, then operators of the level each with its operand. -/
inductive Chain : Nat → Nat → List Token → Expr → List Fault → List Token → Prop where
  | chain {room n ts first e₁ mid e e₂ rest} : Operand room n ts first e₁ mid →
      Links room n first mid e e₂ rest → Chain room n ts e (e₁ ++ e₂) rest

/-- An operand of binary level `n`: the level below, or a unary phrase below level `0`. -/
inductive Operand : Nat → Nat → List Token → Expr → List Fault → List Token → Prop where
  | unary {room ts e errs rest} : Unary room ts e errs rest → Operand room 0 ts e errs rest
  | chain {room n ts e errs rest} : Chain room n ts e errs rest →
      Operand room (n + 1) ts e errs rest

/-- After a phrase `left` of level `n`: operators of the level each with its operand. -/
inductive Links : Nat → Nat → Expr → List Token → Expr → List Fault → List Token → Prop where
  | done {room n e rest} : Links room n e rest e [] rest
  | link {room n left op after right e₁ mid e e₂ rest} : op.kind ∈ operators n →
      Operand room n after right e₁ mid → Links room n (node n left op right) mid e e₂ rest →
      Links room n left (op :: after) e (e₁ ++ e₂) rest

/-- `unary → ( "!" | "-" ) unary | call` -/
inductive Unary : Nat → List Token → Expr → List Fault → List Token → Prop where
  | op {room t after e errs rest} : t.kind = .bang ∨ t.kind = .minus → 0 < room →
      Unary (room - 1) after e errs rest → Unary room (t :: after) (.unary t e) errs rest
  | call {room ts e errs rest} : Calls room ts e errs rest → Unary room ts e errs rest

/-- `call → primary ( "(" arguments? ")" )*` -/
inductive Calls : Nat → List Token → Expr → List Fault → List Token → Prop where
  | calls {room ts callee e₁ mid e e₂ rest} : Primary room ts callee e₁ mid →
      Suffixes room callee mid e e₂ rest → Calls room ts e (e₁ ++ e₂) rest

/-- After a callee: argument lists in parentheses, each counting its arguments from zero. -/
inductive Suffixes : Nat → Expr → List Token → Expr → List Fault → List Token → Prop where
  | done {room e rest} : Suffixes room e rest e [] rest
  | empty {room callee lp rp mid e errs rest} : lp.kind = .leftParen → rp.kind = .rightParen →
      0 < room → Suffixes room (.call callee rp []) mid e errs rest →
      Suffixes room callee (lp :: rp :: mid) e errs rest
  | call {room callee lp after args e₁ rp mid e e₂ rest} : lp.kind = .leftParen → 0 < room →
      Arguments (room - 1) 0 after args e₁ (rp :: mid) → rp.kind = .rightParen →
      Suffixes room (.call callee rp args) mid e e₂ rest →
      Suffixes room callee (lp :: after) e (e₁ ++ e₂) rest

/-- The arguments from number `count` on, separated by commas. -/
inductive Arguments : Nat → Nat → List Token → List Expr → List Fault → List Token → Prop where
  | last {room count ts arg errs rest} : Assignment room ts arg errs rest →
      Arguments room count ts [arg] (overflow count (Parse.peek ts) ++ errs) rest
  | cons {room count ts arg e₁ comma after args e₂ rest} :
      Assignment room ts arg e₁ (comma :: after) → comma.kind = .comma →
      Arguments room (count + 1) after args e₂ rest →
      Arguments room count ts (arg :: args) (overflow count (Parse.peek ts) ++ e₁ ++ e₂) rest

/-- `primary → "true" | "false" | "nil" | NUMBER | STRING | IDENTIFIER | "(" assignment ")"` -/
inductive Primary : Nat → List Token → Expr → List Fault → List Token → Prop where
  | falseWord {room t rest} : t.kind = .falseWord →
      Primary room (t :: rest) (.literal (some (.bool false))) [] rest
  | trueWord {room t rest} : t.kind = .trueWord →
      Primary room (t :: rest) (.literal (some (.bool true))) [] rest
  | nilWord {room t rest} : t.kind = .nilWord →
      Primary room (t :: rest) (.literal (some .nil)) [] rest
  | number {room t rest} : t.kind = .number → Primary room (t :: rest) (.literal t.literal) [] rest
  | string {room t rest} : t.kind = .string → Primary room (t :: rest) (.literal t.literal) [] rest
  | identifier {room t rest} : t.kind = .identifier → Primary room (t :: rest) (.var t) [] rest
  | group {room lp after e errs rp rest} : lp.kind = .leftParen → 0 < room →
      Assignment (room - 1) after e errs (rp :: rest) → rp.kind = .rightParen →
      Primary room (lp :: after) (.grouping e) errs rest

end

/-! ## Forgetting the faults

Without its faults and its room, a phrase is one of the lenient grammar, and what is known of
those (where they begin, what they take) holds of it. -/

mutual

theorem Assignment.lenient {room : Nat} {ts : List Token} {e : Expr} {errs : List Fault}
    {rest : List Token} : Assignment room ts e errs rest → Grammar.Assignment true ts e rest
  | .lone chain => .lone chain.lenient
  | .assign chain isEqual _ value => by
    obtain ⟨rfl, named⟩ := chain.lenient.of_var
    exact .assign named isEqual value.lenient
  | .retarget chain other isEqual _ value =>
    .retarget rfl chain.lenient other isEqual value.lenient

theorem Chain.lenient {room n : Nat} {ts : List Token} {e : Expr} {errs : List Fault}
    {rest : List Token} : Chain room n ts e errs rest → Grammar.Chain true n ts e rest
  | .chain operand links => .chain operand.lenient links.lenient

theorem Operand.lenient {room n : Nat} {ts : List Token} {e : Expr} {errs : List Fault}
    {rest : List Token} : Operand room n ts e errs rest → Grammar.Operand true n ts e rest
  | .unary phrase => .unary phrase.lenient
  | .chain lower => .chain lower.lenient

theorem Links.lenient {room n : Nat} {left : Expr} {ts : List Token} {e : Expr}
    {errs : List Fault} {rest : List Token} :
    Links room n left ts e errs rest → Grammar.Links true n left ts e rest
  | .done => .done
  | .link member operand tail => .link member operand.lenient tail.lenient

theorem Unary.lenient {room : Nat} {ts : List Token} {e : Expr} {errs : List Fault}
    {rest : List Token} : Unary room ts e errs rest → Grammar.Unary true ts e rest
  | .op isUnary _ operand => .op isUnary operand.lenient
  | .call calls => .call calls.lenient

theorem Calls.lenient {room : Nat} {ts : List Token} {e : Expr} {errs : List Fault}
    {rest : List Token} : Calls room ts e errs rest → Grammar.Calls true ts e rest
  | .calls primary suffixes => .calls primary.lenient suffixes.lenient

theorem Suffixes.lenient {room : Nat} {callee : Expr} {ts : List Token} {e : Expr}
    {errs : List Fault} {rest : List Token} :
    Suffixes room callee ts e errs rest → Grammar.Suffixes true callee ts e rest
  | .done => .done
  | .empty isOpen isClose _ tail => .empty isOpen isClose tail.lenient
  | .call isOpen _ listed isClose tail => .call isOpen listed.lenient isClose tail.lenient

theorem Arguments.lenient {room count : Nat} {ts : List Token} {args : List Expr}
    {errs : List Fault} {rest : List Token} :
    Arguments room count ts args errs rest → Grammar.Arguments true ts args rest
  | .last phrase => .last phrase.lenient
  | .cons phrase isComma more => .cons phrase.lenient isComma more.lenient

theorem Primary.lenient {room : Nat} {ts : List Token} {e : Expr} {errs : List Fault}
    {rest : List Token} : Primary room ts e errs rest → Grammar.Primary true ts e rest
  | .falseWord kind => .falseWord kind
  | .trueWord kind => .trueWord kind
  | .nilWord kind => .nilWord kind
  | .number kind => .number kind
  | .string kind => .string kind
  | .identifier kind => .identifier kind
  | .group isOpen _ inner isClose => .group isOpen inner.lenient isClose

end

/-- **Recovered sentences.** The tokens are one assignment phrase within the parser's limit of
open constructs, with tree `e` and recording the faults `errs`, then its ending. -/
def Sentence (ts : List Token) (e : Expr) (errs : List Fault) : Prop :=
  ∃ rest, Assignment Parse.maxOpen ts e errs rest ∧ Ending rest

/-! ## Every phrase of the unrestricted grammar is read with some faults -/

/-- What a phrase `body` of kind `s` within `room` promises, whatever tokens follow it: a reading
with some tree and faults. A tail is read after the phrase it continues, and an argument list may
be empty. -/
def Readable : Phrase → Nat → List Token → Prop
  | .assignment, room, body => ∀ rest, ∃ e errs, Assignment room (body ++ rest) e errs rest
  | .assignTail, room, body => ∀ ts left e₁ rest, Chain room 5 ts left e₁ (body ++ rest) →
      ∃ e errs, Assignment room ts e errs rest
  | .infixChain n, room, body => ∀ rest, ∃ e errs, Chain room n (body ++ rest) e errs rest
  | .operand n, room, body => ∀ rest, ∃ e errs, Operand room n (body ++ rest) e errs rest
  | .infixTail n, room, body =>
    ∀ left rest, ∃ e errs, Links room n left (body ++ rest) e errs rest
  | .unary, room, body => ∀ rest, ∃ e errs, Unary room (body ++ rest) e errs rest
  | .call, room, body => ∀ rest, ∃ e errs, Calls room (body ++ rest) e errs rest
  | .callTail, room, body =>
    ∀ callee rest, ∃ e errs, Suffixes room callee (body ++ rest) e errs rest
  | .argumentList, room, body =>
    body = [] ∨ ∀ rest, ∃ args errs, Arguments room 0 (body ++ rest) args errs rest
  | .arguments, room, body =>
    ∀ count rest, ∃ args errs, Arguments room count (body ++ rest) args errs rest
  | .primary, room, body => ∀ rest, ∃ e errs, Primary room (body ++ rest) e errs rest

end Recovery

/-- Every phrase of the unrestricted grammar has a reading with faults: the faults are what
reading it records, whichever targets and argument counts it has. -/
theorem Derives.readable {s : Phrase} {room : Nat} {body : List Token}
    (phrase : Derives s room body) : Recovery.Readable s room body := by
  induction phrase with
  | @assignment room b₁ b₂ _ _ left tail =>
    intro rest
    obtain ⟨target, e₁, chain⟩ := left (b₂ ++ rest)
    rw [List.append_assoc]
    exact tail _ target e₁ rest chain
  | keep => exact fun ts left e₁ rest chain => ⟨left, e₁, .lone chain⟩
  | assign isEqual roomy _ value =>
    intro ts left e₁ rest chain
    obtain ⟨v, e₂, assigned⟩ := value rest
    -- the reading is an assignment exactly when the left side is a name
    by_cases named : ∃ name, left = .var name
    · obtain ⟨name, rfl⟩ := named
      exact ⟨_, _, .assign chain isEqual roomy assigned⟩
    · exact ⟨_, _, .retarget chain (fun name same => named ⟨name, same⟩) isEqual roomy assigned⟩
  | @infixChain n room b₁ b₂ _ _ operand tail =>
    intro rest
    obtain ⟨first, e₁, read⟩ := operand (b₂ ++ rest)
    obtain ⟨e, e₂, links⟩ := tail first rest
    rw [List.append_assoc]
    exact ⟨e, _, .chain read links⟩
  | unaryOperand _ inner =>
    intro rest
    obtain ⟨e, errs, read⟩ := inner rest
    exact ⟨e, errs, .unary read⟩
  | chainOperand _ inner =>
    intro rest
    obtain ⟨e, errs, read⟩ := inner rest
    exact ⟨e, errs, .chain read⟩
  | stop => exact fun left rest => ⟨left, [], .done⟩
  | @link n room op b₁ b₂ member _ _ operand tail =>
    intro left rest
    obtain ⟨right, e₁, read⟩ := operand (b₂ ++ rest)
    obtain ⟨e, e₂, links⟩ := tail (node n left op right) rest
    rw [List.cons_append, List.append_assoc]
    exact ⟨e, _, .link member read links⟩
  | negate isUnary roomy _ operand =>
    intro rest
    obtain ⟨e, errs, read⟩ := operand rest
    exact ⟨_, errs, .op isUnary roomy read⟩
  | call _ inner =>
    intro rest
    obtain ⟨e, errs, read⟩ := inner rest
    exact ⟨e, errs, .call read⟩
  | @callee room b₁ b₂ _ _ primary tail =>
    intro rest
    obtain ⟨callee, e₁, read⟩ := primary (b₂ ++ rest)
    obtain ⟨e, e₂, suffixes⟩ := tail callee rest
    rw [List.append_assoc]
    exact ⟨e, _, .calls read suffixes⟩
  | uncalled => exact fun callee rest => ⟨callee, [], .done⟩
  | @suffix room lp b₁ rp b₂ isOpen roomy _ isClose _ args tail =>
    intro callee rest
    rcases args with rfl | listed
    · obtain ⟨e, errs, suffixes⟩ := tail (.call callee rp []) rest
      exact ⟨e, errs, .empty isOpen isClose roomy suffixes⟩
    · obtain ⟨args, e₁, read⟩ := listed (rp :: (b₂ ++ rest))
      obtain ⟨e, e₂, suffixes⟩ := tail (.call callee rp args) rest
      have tokens : lp :: (b₁ ++ rp :: b₂) ++ rest = lp :: (b₁ ++ rp :: (b₂ ++ rest)) := by simp
      rw [tokens]
      exact ⟨e, _, .call isOpen roomy read isClose suffixes⟩
  | noArguments => exact .inl rfl
  | someArguments _ inner => exact .inr (inner 0)
  | lastArgument _ inner =>
    intro count rest
    obtain ⟨arg, errs, read⟩ := inner rest
    exact ⟨[arg], _, .last read⟩
  | @nextArgument room b₁ comma b₂ _ isComma _ first others =>
    intro count rest
    obtain ⟨arg, e₁, read⟩ := first (comma :: (b₂ ++ rest))
    obtain ⟨args, e₂, more⟩ := others (count + 1) rest
    rw [List.append_assoc, List.cons_append]
    exact ⟨arg :: args, _, .cons read isComma more⟩
  | leaf isLeaf =>
    intro rest
    simp only [leafKinds, List.mem_cons, List.not_mem_nil, or_false] at isLeaf
    rcases isLeaf with kind | kind | kind | kind | kind | kind
    · exact ⟨_, _, .falseWord kind⟩
    · exact ⟨_, _, .trueWord kind⟩
    · exact ⟨_, _, .nilWord kind⟩
    · exact ⟨_, _, .number kind⟩
    · exact ⟨_, _, .string kind⟩
    · exact ⟨_, _, .identifier kind⟩
  | @group room lp b rp isOpen roomy _ isClose inner =>
    intro rest
    obtain ⟨e, errs, read⟩ := inner (rp :: rest)
    have tokens : lp :: (b ++ [rp]) ++ rest = lp :: (b ++ rp :: rest) := by simp
    rw [tokens]
    exact ⟨_, errs, .group isOpen roomy read isClose⟩

/-- Every utterance within the parser's limit is a recovered sentence. -/
theorem Utterance.recovered {ts : List Token} (utterance : Utterance Parse.maxOpen ts) :
    ∃ e errs, Recovery.Sentence ts e errs := by
  obtain ⟨body, ending, rfl, phrase, ended⟩ := utterance
  obtain ⟨e, errs, read⟩ := phrase.readable ending
  exact ⟨e, errs, ending, read, ended⟩

end Grammar

namespace Parse

open Grammar

/-! ## Recording -/

/-- The faults recorded before, then `errs`. -/
def record (errors : Array Fault) (errs : List Fault) : Array Fault :=
  (errors.toList ++ errs).toArray

@[simp] theorem record_nil (errors : Array Fault) : record errors [] = errors := by
  simp [record]

@[simp] theorem record_record (errors : Array Fault) (e₁ e₂ : List Fault) :
    record (record errors e₁) e₂ = record errors (e₁ ++ e₂) := by
  simp [record]

theorem push_record (errors : Array Fault) (errs : List Fault) (f : Fault) :
    (record errors errs).push f = record errors (errs ++ [f]) := by
  simp [record]

/-- The parser's check before an argument records what `Recovery.overflow` says. -/
theorem overflow_record (count : Nat) (t : Token) (errors : Array Fault) :
    (if maxArguments ≤ count then errors.push (Problem.tooManyArguments.raiseAt t) else errors) =
      record errors (Recovery.overflow count t) := by
  unfold Recovery.overflow
  split
  · apply Array.ext'
    simp [record]
  · simp

/-! ## Every phrase is read with its faults -/

mutual

theorem assignment_recovers {room : Nat} {ts : List Token} {e : Expr} {errs : List Fault}
    {rest : List Token} (phrase : Recovery.Assignment room ts e errs rest)
    (closes : ClosesAssignment (peek rest).kind) {opened : Nat} (fits : opened + room ≤ maxOpen)
    (errors : Array Fault) :
    ∃ le, assignment ts opened errors = .ok ⟨e, rest, le, record errors errs⟩ := by
  cases phrase with
  | lone chain =>
    obtain ⟨le, chained⟩ := infixChain_recovers (Nat.le_refl 5) chain closes.1 fits errors
    refine ⟨le, ?_⟩
    rw [assignment, chained]
    simp only [assignTail_of_ne closes.2]
    rfl
  | @assign _ _ name e₁ eq after value e₂ _ chain isEqual roomy assigned =>
    obtain ⟨le, chained⟩ := infixChain_recovers (Nat.le_refl 5) chain
      (by simp only [peek, isEqual]; decide) fits errors
    have shorter : after.length < ts.length := by simp only [List.length_cons] at le; omega
    obtain ⟨le', valued⟩ := assignment_recovers assigned closes
      (show opened + 1 + (room - 1) ≤ maxOpen by omega) (record errors e₁)
    refine ⟨by omega, ?_⟩
    rw [assignment, chained]
    simp only [assignTail, isEqual, if_true]
    rw [opening_eq_none.2 (by omega)]
    simp only [valued, record_record]
    rfl
  | @retarget _ _ target e₁ eq after value e₂ _ chain other isEqual roomy assigned =>
    obtain ⟨le, chained⟩ := infixChain_recovers (Nat.le_refl 5) chain
      (by simp only [peek, isEqual]; decide) fits errors
    have shorter : after.length < ts.length := by simp only [List.length_cons] at le; omega
    obtain ⟨le', valued⟩ := assignment_recovers assigned closes
      (show opened + 1 + (room - 1) ≤ maxOpen by omega) (record errors e₁)
    refine ⟨by omega, ?_⟩
    rw [assignment, chained]
    simp only [assignTail, isEqual, if_true]
    rw [opening_eq_none.2 (by omega)]
    -- the target is no name, which `other` tells the match: its value is dropped and the `=`
    -- blamed
    simp only [valued, push_record, record_record]
    rfl
termination_by 32 * ts.length + 17
decreasing_by all_goals (subst_vars; omega)

theorem infixChain_recovers {n : Nat} (bound : n ≤ 5) {room : Nat} {ts : List Token} {e : Expr}
    {errs : List Fault} {rest : List Token} (phrase : Recovery.Chain room n ts e errs rest)
    (closes : Closes (n + 1) (peek rest).kind) {opened : Nat} (fits : opened + room ≤ maxOpen)
    (errors : Array Fault) :
    ∃ le, infixChain n ts opened errors = .ok ⟨e, rest, le, record errors errs⟩ := by
  cases phrase with
  | @chain _ _ _ first e₁ mid _ e₂ _ operand links =>
    obtain ⟨le, read⟩ :=
      operand_recovers bound operand (links.lenient.closes_head bound closes) fits errors
    obtain ⟨le', tail⟩ := infixTail_recovers bound links closes fits (record errors e₁)
    refine ⟨Nat.le_trans le' le, ?_⟩
    rw [infixChain, read]
    simp only [tail, record_record]
    rfl
termination_by 32 * ts.length + 2 * n + 4
decreasing_by all_goals (subst_vars; omega)

theorem operand_recovers {n : Nat} (bound : n ≤ 5) {room : Nat} {ts : List Token} {e : Expr}
    {errs : List Fault} {rest : List Token} (phrase : Recovery.Operand room n ts e errs rest)
    (closes : Closes n (peek rest).kind) {opened : Nat} (fits : opened + room ≤ maxOpen)
    (errors : Array Fault) :
    ∃ le, operand n ts opened errors = .ok ⟨e, rest, le, record errors errs⟩ := by
  cases phrase with
  | unary phrase =>
    rw [operand]
    exact unary_recovers phrase closes fits errors
  | chain lower =>
    rw [operand]
    exact infixChain_recovers (by omega) lower closes fits errors
termination_by 32 * ts.length + 2 * n + 3
decreasing_by all_goals (subst_vars; omega)

theorem infixTail_recovers {n : Nat} (bound : n ≤ 5) {room : Nat} {left : Expr}
    {ts : List Token} {e : Expr} {errs : List Fault} {rest : List Token}
    (phrase : Recovery.Links room n left ts e errs rest)
    (closes : Closes (n + 1) (peek rest).kind) {opened : Nat} (fits : opened + room ≤ maxOpen)
    (errors : Array Fault) :
    ∃ le, infixTail n left ts opened errors = .ok ⟨e, rest, le, record errors errs⟩ := by
  cases phrase with
  | done =>
    refine ⟨Nat.le_refl _, ?_⟩
    rw [record_nil]
    refine infixTail_of_not_mem ?_
    rw [level_fst_eq bound]
    exact closes.2 n (Nat.lt_succ_self n)
  | @link _ _ _ op after right e₁ mid _ e₂ _ member operand tail =>
    obtain ⟨le, read⟩ :=
      operand_recovers bound operand (tail.lenient.closes_head bound closes) fits errors
    obtain ⟨le', more⟩ := infixTail_recovers bound tail closes fits (record errors e₁)
    refine ⟨by simp only [List.length_cons]; omega, ?_⟩
    rw [infixTail]
    simp only [level_fst_eq bound, List.contains_iff_mem, member, if_true, read, join_eq bound,
      more, record_record]
    rfl
termination_by 32 * ts.length + 2 * n + 3
decreasing_by all_goals (subst_vars; (try simp only [List.length_cons]); omega)

theorem unary_recovers {room : Nat} {ts : List Token} {e : Expr} {errs : List Fault}
    {rest : List Token} (phrase : Recovery.Unary room ts e errs rest)
    (closes : Closes 0 (peek rest).kind) {opened : Nat} (fits : opened + room ≤ maxOpen)
    (errors : Array Fault) :
    ∃ le, unary ts opened errors = .ok ⟨e, rest, le, record errors errs⟩ := by
  cases phrase with
  | op isUnary roomy operand =>
    obtain ⟨le, read⟩ := unary_recovers operand closes
      (show opened + 1 + (room - 1) ≤ maxOpen by omega) errors
    refine ⟨by simp only [List.length_cons]; omega, ?_⟩
    simp only [unary, isUnary, if_true]
    rw [opening_eq_none.2 (by omega)]
    simp only [read]
  | call calls =>
    -- a call begins with the first token of a primary phrase, which is no unary operator
    have notUnary : ¬((peek ts).kind = .bang ∨ (peek ts).kind = .minus) := by
      have first := calls.lenient.starts
      rintro (isUnary | isUnary) <;> simp [isUnary, primaryFirst] at first
    obtain ⟨le, read⟩ := call_recovers calls closes fits errors
    refine ⟨le, ?_⟩
    unfold unary
    split
    · next t after =>
      simp only [peek] at notUnary
      simp only [notUnary, if_false]
      exact read
    · exact read
termination_by 32 * ts.length + 2
decreasing_by all_goals (subst_vars; (try simp only [List.length_cons]); omega)

theorem call_recovers {room : Nat} {ts : List Token} {e : Expr} {errs : List Fault}
    {rest : List Token} (phrase : Recovery.Calls room ts e errs rest)
    (closes : Closes 0 (peek rest).kind) {opened : Nat} (fits : opened + room ≤ maxOpen)
    (errors : Array Fault) :
    ∃ le, call ts opened errors = .ok ⟨e, rest, le, record errors errs⟩ := by
  cases phrase with
  | @calls _ _ callee e₁ mid _ e₂ _ primary suffixes =>
    obtain ⟨le, read⟩ := primary_recovers primary fits errors
    obtain ⟨le', tail⟩ := callTail_recovers suffixes closes fits (record errors e₁)
    refine ⟨Nat.le_trans le' le, ?_⟩
    rw [call, read]
    simp only [tail, record_record]
    rfl
termination_by 32 * ts.length + 1
decreasing_by all_goals (subst_vars; omega)

theorem callTail_recovers {room : Nat} {callee : Expr} {ts : List Token} {e : Expr}
    {errs : List Fault} {rest : List Token} (phrase : Recovery.Suffixes room callee ts e errs rest)
    (closes : Closes 0 (peek rest).kind) {opened : Nat} (fits : opened + room ≤ maxOpen)
    (errors : Array Fault) :
    ∃ le, callTail callee ts opened errors = .ok ⟨e, rest, le, record errors errs⟩ := by
  cases phrase with
  | done =>
    refine ⟨Nat.le_refl _, ?_⟩
    rw [record_nil]
    exact callTail_of_ne closes.1
  | empty isOpen isClose roomy tail =>
    obtain ⟨le, more⟩ := callTail_recovers tail closes fits errors
    refine ⟨by simp only [List.length_cons]; omega, ?_⟩
    simp only [callTail, isOpen, if_true]
    rw [opening_eq_none.2 (by omega)]
    simp only [argumentList, peek, isClose, if_true, more]
    rfl
  | @call _ _ lp after args e₁ rp mid _ e₂ _ isOpen roomy listed isClose tail =>
    obtain ⟨le, read⟩ := argumentList_recovers listed (by simp only [peek, isClose])
      (show opened + 1 + (room - 1) ≤ maxOpen by omega) errors
    -- the closing parenthesis is taken, so the calls after it read fewer tokens
    have shorter := Nat.lt_of_lt_of_le (Nat.lt_succ_self _) le
    obtain ⟨le', more⟩ := callTail_recovers tail closes fits (record errors e₁)
    refine ⟨by simp only [List.length_cons]; omega, ?_⟩
    simp only [callTail, isOpen, if_true]
    rw [opening_eq_none.2 (by omega)]
    simp only [read, isClose, if_true, more, record_record]
    rfl
termination_by 32 * ts.length
decreasing_by all_goals (subst_vars; (try simp only [List.length_cons]); omega)

theorem argumentList_recovers {room : Nat} {ts : List Token} {args : List Expr}
    {errs : List Fault} {rest : List Token} (phrase : Recovery.Arguments room 0 ts args errs rest)
    (closes : (peek rest).kind = .rightParen) {opened : Nat} (fits : opened + room ≤ maxOpen)
    (errors : Array Fault) :
    ∃ le, argumentList ts opened errors = .ok (args, ⟨rest, le⟩, record errors errs) := by
  have notClose : (peek ts).kind ≠ .rightParen := by
    intro isClose
    have first := phrase.lenient.starts
    simp [isClose, phraseFirst, primaryFirst] at first
  obtain ⟨le, read⟩ := arguments_recovers 0 phrase closes fits errors
  refine ⟨le, ?_⟩
  rw [argumentList]
  simp only [notClose, if_false]
  exact read
termination_by 32 * ts.length + 19
decreasing_by all_goals omega

theorem arguments_recovers (count : Nat) {room : Nat} {ts : List Token} {args : List Expr}
    {errs : List Fault} {rest : List Token}
    (phrase : Recovery.Arguments room count ts args errs rest)
    (closes : (peek rest).kind = .rightParen) {opened : Nat} (fits : opened + room ≤ maxOpen)
    (errors : Array Fault) :
    ∃ le, arguments count ts opened errors = .ok (args, ⟨rest, le⟩, record errors errs) := by
  cases phrase with
  | last assigns =>
    obtain ⟨le, read⟩ := assignment_recovers assigns (by rw [closes]; decide) fits
      (record errors (Recovery.overflow count (peek ts)))
    refine ⟨le, ?_⟩
    unfold arguments
    simp only [overflow_record, read, record_record]
    split
    · next c more =>
      simp only [peek] at closes
      simp [closes]
    · rfl
  | @cons _ _ _ arg e₁ comma after args e₂ _ assigns isComma more =>
    obtain ⟨le, read⟩ := assignment_recovers assigns (by simp only [peek, isComma]; decide) fits
      (record errors (Recovery.overflow count (peek ts)))
    have shorter := Nat.lt_of_lt_of_le (Nat.lt_succ_self _) le
    obtain ⟨le', others⟩ := arguments_recovers (count + 1) more closes fits
      (record errors (Recovery.overflow count (peek ts) ++ e₁))
    refine ⟨by omega, ?_⟩
    unfold arguments
    simp only [overflow_record, read, isComma, if_true, others, record_record, List.append_assoc]
termination_by 32 * ts.length + 18
decreasing_by all_goals (subst_vars; omega)

theorem primary_recovers {room : Nat} {ts : List Token} {e : Expr} {errs : List Fault}
    {rest : List Token} (phrase : Recovery.Primary room ts e errs rest) {opened : Nat}
    (fits : opened + room ≤ maxOpen) (errors : Array Fault) :
    ∃ le, primary ts opened errors = .ok ⟨e, rest, le, record errors errs⟩ := by
  cases phrase with
  | falseWord kind | trueWord kind | nilWord kind | number kind | string kind
  | identifier kind => exact ⟨by simp, by simp only [primary, kind, record_nil]⟩
  | group isOpen roomy inner isClose =>
    obtain ⟨le, read⟩ := assignment_recovers inner (by simp only [peek, isClose]; decide)
      (show opened + 1 + (room - 1) ≤ maxOpen by omega) errors
    refine ⟨by simp only [List.length_cons] at le ⊢; omega, ?_⟩
    simp only [primary, isOpen]
    rw [opening_eq_none.2 (by omega)]
    simp only [read, isClose, if_true]
termination_by 32 * ts.length
decreasing_by all_goals (subst_vars; (try simp only [List.length_cons]); omega)

end

/-! ## Whole inputs -/

/-- **The faults of a parse.** When the tokens up to their first `EOF` are a recovered sentence,
the parse reports exactly the faults of that reading, in its order and at its tokens, and returns
its tree when there are none. -/
theorem parse_of_sentence {tokens : List Token} {tree : Expr} {errs : List Fault}
    (sentence : Recovery.Sentence (prepare tokens) tree errs) :
    Expr.parse tokens = if errs.isEmpty then .ok tree else .error errs := by
  obtain ⟨rest, phrase, ending⟩ := sentence
  obtain ⟨body, last, prepared, lastEnd, noEnd⟩ := prepare_eq tokens
  obtain ⟨mid, rfl, midNoEnd⟩ := phrase.lenient.consumes.rest_eq prepared lastEnd noEnd
  obtain ⟨le, read⟩ := assignment_recovers phrase ending.closes (Nat.le_of_eq (Nat.zero_add _)) #[]
  have atEnd := (ending_iff lastEnd midNoEnd).1 ending
  unfold Expr.parse
  rw [read]
  simp only [atEnd, ne_eq, not_true_eq_false, if_false]
  by_cases clean : errs = [] <;> simp [record, clean]

/-- **Recovery.** For every input whose tokens are an utterance within the parser's limit of open
constructs, the parse reports exactly the faults of its recovered reading, in that order and at
those tokens: each invalid target at its `=` after the faults inside the assignment, each
argument from the 256th on at its first token before the faults inside it. With no such fault,
the parse returns the tree. -/
theorem parse_recovers (tokens : List Token) (utterance : Utterance maxOpen (prepare tokens)) :
    ∃ tree errs, Recovery.Sentence (prepare tokens) tree errs ∧
      Expr.parse tokens = if errs.isEmpty then .ok tree else .error errs := by
  obtain ⟨tree, errs, sentence⟩ := utterance.recovered
  exact ⟨tree, errs, sentence, parse_of_sentence sentence⟩

end Parse

end Lox
