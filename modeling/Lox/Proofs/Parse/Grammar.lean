import Lox.Expr.Parse
/-!
# The grammar of expressions

The language of expressions as a grammar of its own, with one relation for each nonterminal. A
relation holds of a token list, the tree of the phrase at its head, and the tokens after that
phrase, so `Assignment lenient ts e rest` says that `ts` begins with an assignment phrase whose
tree is `e`, followed by `rest`.

```
assignment → IDENTIFIER "=" assignment | or
or         → and ( "or" and )*
and        → equality ( "and" equality )*
equality   → comparison ( ( "==" | "!=" ) comparison )*
comparison → term ( ( ">" | ">=" | "<" | "<=" ) term )*
term       → factor ( ( "+" | "-" ) factor )*
factor     → unary ( ( "/" | "*" ) unary )*
unary      → ( "!" | "-" ) unary | call
call       → primary ( "(" ( assignment ( "," assignment )* )? ")" )*
primary    → "true" | "false" | "nil" | NUMBER | STRING | IDENTIFIER | "(" assignment ")"
```

The binary levels are numbered from `0` (factor) up to `5` (or), and each builds its nodes from
the left. The `lenient` grammar also lets any `or` phrase stand before `=`: its value is read, but
the tree is the left side alone. A sentence is an assignment, at most one `;`, and `EOF`.

Beside the grammar stand the two limits of the parser, as measures of a tree: how many
assignments, unary operations, calls and groupings are open at once while it is read
(`Expr.nesting`), and whether every call has few enough arguments (`Expr.callsWithin`). Last
come the tokens that can follow a complete phrase of each level (`Closes`).
-/

namespace Lox

mutual

/-- The most assignments, unary operations, calls and groupings that are open at once while the
tree is read from its tokens. An assignment, a unary operation and a grouping are open around
their operand; a call is open around its arguments but not around its callee. -/
def Expr.nesting : Expr → Nat
  | .assign _ value => value.nesting + 1
  | .binary left _ right | .logical left _ right => max left.nesting right.nesting
  | .grouping inner | .unary _ inner => inner.nesting + 1
  | .call callee _ args => max callee.nesting (Expr.argsNesting args + 1)
  | .literal _ | .var _ | .missing | .vacant _ => 0

/-- The largest nesting of a list of arguments, `0` for none. -/
def Expr.argsNesting : List Expr → Nat
  | [] => 0
  | arg :: args => max arg.nesting (Expr.argsNesting args)

end

mutual

/-- Whether every call in the tree has at most `k` arguments. -/
def Expr.callsWithin (k : Nat) : Expr → Bool
  | .assign _ inner | .grouping inner | .unary _ inner => inner.callsWithin k
  | .binary left _ right | .logical left _ right => left.callsWithin k && right.callsWithin k
  | .call callee _ args =>
    decide (args.length ≤ k) && callee.callsWithin k && Expr.argsCallsWithin k args
  | .literal _ | .var _ | .missing | .vacant _ => true

/-- Whether every call in a list of arguments has at most `k` arguments. -/
def Expr.argsCallsWithin (k : Nat) : List Expr → Bool
  | [] => true
  | arg :: args => arg.callsWithin k && Expr.argsCallsWithin k args

end

namespace Grammar

/-- The operators of the binary levels, from `0` (`/`, `*`) up to `5` (`or`). -/
def operators : Nat → List TokenKind
  | 0 => [.slash, .star]
  | 1 => [.plus, .minus]
  | 2 => [.greater, .greaterEqual, .less, .lessEqual]
  | 3 => [.equalEqual, .bangEqual]
  | 4 => [.andWord]
  | _ => [.orWord]

/-- The node of a binary level: `and` and `or` make logical nodes, the other levels binary ones. -/
def node (n : Nat) (left : Expr) (op : Token) (right : Expr) : Expr :=
  if 4 ≤ n then .logical left op right else .binary left op right

mutual

/-- `assignment → IDENTIFIER "=" assignment | or`. With `lenient`, any `or` phrase other than a
lone name may stand before `=`; its value is read and left out of the tree. -/
inductive Assignment (lenient : Bool) : List Token → Expr → List Token → Prop where
  | lone {ts e rest} : Chain lenient 5 ts e rest → Assignment lenient ts e rest
  | assign {name eq after value rest} : name.kind = .identifier → eq.kind = .equal →
      Assignment lenient after value rest →
      Assignment lenient (name :: eq :: after) (.assign name value) rest
  | retarget {ts target eq after value rest} : lenient = true →
      Chain lenient 5 ts target (eq :: after) → (∀ name, target ≠ .var name) →
      eq.kind = .equal → Assignment lenient after value rest → Assignment lenient ts target rest

/-- Binary level `n`: an operand, then operators of the level each with its operand. -/
inductive Chain (lenient : Bool) : Nat → List Token → Expr → List Token → Prop where
  | chain {n ts first mid e rest} : Operand lenient n ts first mid →
      Links lenient n first mid e rest → Chain lenient n ts e rest

/-- An operand of binary level `n`: the level below, or a unary phrase below level `0`. -/
inductive Operand (lenient : Bool) : Nat → List Token → Expr → List Token → Prop where
  | unary {ts e rest} : Unary lenient ts e rest → Operand lenient 0 ts e rest
  | chain {n ts e rest} : Chain lenient n ts e rest → Operand lenient (n + 1) ts e rest

/-- After a phrase `left` of level `n`: operators of the level each with its operand, every one
joined to what precedes it. -/
inductive Links (lenient : Bool) :
    Nat → Expr → List Token → Expr → List Token → Prop where
  | done {n e rest} : Links lenient n e rest e rest
  | link {n left op after right mid e rest} : op.kind ∈ operators n →
      Operand lenient n after right mid → Links lenient n (node n left op right) mid e rest →
      Links lenient n left (op :: after) e rest

/-- `unary → ( "!" | "-" ) unary | call` -/
inductive Unary (lenient : Bool) : List Token → Expr → List Token → Prop where
  | op {t after e rest} : t.kind = .bang ∨ t.kind = .minus → Unary lenient after e rest →
      Unary lenient (t :: after) (.unary t e) rest
  | call {ts e rest} : Calls lenient ts e rest → Unary lenient ts e rest

/-- `call → primary ( "(" arguments? ")" )*` -/
inductive Calls (lenient : Bool) : List Token → Expr → List Token → Prop where
  | calls {ts callee mid e rest} : Primary lenient ts callee mid →
      Suffixes lenient callee mid e rest → Calls lenient ts e rest

/-- After a callee: argument lists in parentheses, each making a call of what precedes it. -/
inductive Suffixes (lenient : Bool) : Expr → List Token → Expr → List Token → Prop where
  | done {e rest} : Suffixes lenient e rest e rest
  | empty {callee lp rp mid e rest} : lp.kind = .leftParen → rp.kind = .rightParen →
      Suffixes lenient (.call callee rp []) mid e rest →
      Suffixes lenient callee (lp :: rp :: mid) e rest
  | call {callee lp after args rp mid e rest} : lp.kind = .leftParen →
      Arguments lenient after args (rp :: mid) → rp.kind = .rightParen →
      Suffixes lenient (.call callee rp args) mid e rest →
      Suffixes lenient callee (lp :: after) e rest

/-- `arguments → assignment ( "," assignment )*` -/
inductive Arguments (lenient : Bool) : List Token → List Expr → List Token → Prop where
  | last {ts arg rest} : Assignment lenient ts arg rest → Arguments lenient ts [arg] rest
  | cons {ts arg comma after args rest} : Assignment lenient ts arg (comma :: after) →
      comma.kind = .comma → Arguments lenient after args rest →
      Arguments lenient ts (arg :: args) rest

/-- `primary → "true" | "false" | "nil" | NUMBER | STRING | IDENTIFIER | "(" assignment ")"` -/
inductive Primary (lenient : Bool) : List Token → Expr → List Token → Prop where
  | falseWord {t rest} : t.kind = .falseWord →
      Primary lenient (t :: rest) (.literal (some (.bool false))) rest
  | trueWord {t rest} : t.kind = .trueWord →
      Primary lenient (t :: rest) (.literal (some (.bool true))) rest
  | nilWord {t rest} : t.kind = .nilWord → Primary lenient (t :: rest) (.literal (some .nil)) rest
  | number {t rest} : t.kind = .number → Primary lenient (t :: rest) (.literal t.literal) rest
  | string {t rest} : t.kind = .string → Primary lenient (t :: rest) (.literal t.literal) rest
  | identifier {t rest} : t.kind = .identifier → Primary lenient (t :: rest) (.var t) rest
  | group {lp after e rp rest} : lp.kind = .leftParen →
      Assignment lenient after e (rp :: rest) → rp.kind = .rightParen →
      Primary lenient (lp :: after) (.grouping e) rest

end

/-- The end of an input: `EOF`, or `;` and then `EOF`. -/
def Ending : List Token → Prop
  | [t] => t.kind = .eof
  | [s, t] => s.kind = .semicolon ∧ t.kind = .eof
  | _ => False

/-- **Sentences.** The token list is one assignment phrase with tree `e`, then its ending. -/
def Sentence (lenient : Bool) (ts : List Token) (e : Expr) : Prop :=
  ∃ rest, Assignment lenient ts e rest ∧ Ending rest

/-- Whether a token of kind `k` ends every phrase of the binary levels below `n`: it is no
operator of those levels and no opening parenthesis, which would go on with a call. Below level
`0` stand the unary phrases. -/
def Closes (n : Nat) (k : TokenKind) : Prop :=
  k ≠ .leftParen ∧ ∀ j < n, k ∉ operators j

/-- Whether a token of kind `k` ends every assignment phrase before it. -/
def ClosesAssignment (k : TokenKind) : Prop :=
  Closes 6 k ∧ k ≠ .equal

instance (n : Nat) (k : TokenKind) : Decidable (Closes n k) :=
  inferInstanceAs (Decidable (_ ∧ _))

instance (k : TokenKind) : Decidable (ClosesAssignment k) :=
  inferInstanceAs (Decidable (_ ∧ _))

/-- A tree the parser can read while `opened` constructs are open around it: it opens no more
than the rest of the budget of `Parse.maxOpen`, and no call in it has more than
`Parse.maxArguments` arguments. -/
def Fits (opened : Nat) (e : Expr) : Prop :=
  e.nesting ≤ Parse.maxOpen - opened ∧ e.callsWithin Parse.maxArguments = true

/-! ## The measures of a tree -/

theorem argsNesting_le_iff {args : List Expr} {k : Nat} :
    Expr.argsNesting args ≤ k ↔ ∀ arg ∈ args, arg.nesting ≤ k := by
  induction args with
  | nil => simp [Expr.argsNesting]
  | cons arg args ih =>
    simp only [Expr.argsNesting, Nat.max_le, ih, List.mem_cons, forall_eq_or_imp]

theorem argsCallsWithin_iff {args : List Expr} {k : Nat} :
    Expr.argsCallsWithin k args = true ↔ ∀ arg ∈ args, arg.callsWithin k = true := by
  induction args with
  | nil => simp [Expr.argsCallsWithin]
  | cons arg args ih => simp [Expr.argsCallsWithin, ih]

section Fits

variable {opened : Nat}

/-- One more construct open takes one unit of the budget. -/
theorem budget_succ {n : Nat} :
    n + 1 ≤ Parse.maxOpen - opened ↔
      opened < Parse.maxOpen ∧ n ≤ Parse.maxOpen - (opened + 1) := by
  omega

theorem fits_node {n : Nat} {left right : Expr} {op : Token} :
    Fits opened (node n left op right) ↔ Fits opened left ∧ Fits opened right := by
  unfold node
  split <;> simp only [Fits, Expr.nesting, Expr.callsWithin, Nat.max_le, Bool.and_eq_true,
    and_and_and_comm]

theorem fits_assign {name : Token} {value : Expr} :
    Fits opened (.assign name value) ↔ opened < Parse.maxOpen ∧ Fits (opened + 1) value := by
  simp only [Fits, Expr.nesting, Expr.callsWithin, budget_succ, and_assoc]

theorem fits_unary {op : Token} {operand : Expr} :
    Fits opened (.unary op operand) ↔ opened < Parse.maxOpen ∧ Fits (opened + 1) operand := by
  simp only [Fits, Expr.nesting, Expr.callsWithin, budget_succ, and_assoc]

theorem fits_grouping {inner : Expr} :
    Fits opened (.grouping inner) ↔ opened < Parse.maxOpen ∧ Fits (opened + 1) inner := by
  simp only [Fits, Expr.nesting, Expr.callsWithin, budget_succ, and_assoc]

/-- A call fits when its callee does, and its arguments, each one construct deeper, are few
enough and fit. -/
theorem fits_call {callee : Expr} {rp : Token} {args : List Expr} :
    Fits opened (.call callee rp args) ↔ Fits opened callee ∧ opened < Parse.maxOpen ∧
      args.length ≤ Parse.maxArguments ∧ ∀ arg ∈ args, Fits (opened + 1) arg := by
  simp only [Fits, Expr.nesting, Expr.callsWithin, Nat.max_le, budget_succ, argsNesting_le_iff,
    Bool.and_eq_true, decide_eq_true_eq, argsCallsWithin_iff]
  constructor
  · rintro ⟨⟨nests, within, deeper⟩, ⟨count, calls⟩, argsCalls⟩
    exact ⟨⟨nests, calls⟩, within, count,
      fun arg member => ⟨deeper arg member, argsCalls arg member⟩⟩
  · rintro ⟨⟨nests, calls⟩, within, count, argsFit⟩
    exact ⟨⟨nests, within, fun arg member => (argsFit arg member).1⟩, ⟨count, calls⟩,
      fun arg member => (argsFit arg member).2⟩

theorem fits_literal {value : Option Literal} : Fits opened (.literal value) := by
  simp [Fits, Expr.nesting, Expr.callsWithin]

theorem fits_var {name : Token} : Fits opened (.var name) := by
  simp [Fits, Expr.nesting, Expr.callsWithin]

end Fits

/-! ## Inversion -/

variable {lenient : Bool}

theorem node_ne_var (n : Nat) (left : Expr) (op : Token) (right : Expr) (name : Token) :
    node n left op right ≠ .var name := by
  unfold node
  split <;> simp

/-- After its links, a phrase is the phrase it started from, with no tokens taken, or a node of
the level. -/
theorem Links.eq_or_joined {n : Nat} {left : Expr} {ts : List Token} {e : Expr}
    {rest : List Token} :
    Links lenient n left ts e rest → (e = left ∧ ts = rest) ∨ ∃ l op r, e = node n l op r
  | .done => .inl ⟨rfl, rfl⟩
  | .link _ _ tail =>
    match tail.eq_or_joined with
    | .inl ⟨same, _⟩ => .inr ⟨_, _, _, same⟩
    | .inr joined => .inr joined

/-- After its argument lists, a callee is itself, with no tokens taken, or a call. -/
theorem Suffixes.eq_or_call {callee : Expr} {ts : List Token} {e : Expr} {rest : List Token} :
    Suffixes lenient callee ts e rest →
      (e = callee ∧ ts = rest) ∨ ∃ c rp args, e = .call c rp args
  | .done => .inl ⟨rfl, rfl⟩
  | .empty _ _ tail =>
    match tail.eq_or_call with
    | .inl ⟨same, _⟩ => .inr ⟨_, _, _, same⟩
    | .inr called => .inr called
  | .call _ _ _ tail =>
    match tail.eq_or_call with
    | .inl ⟨same, _⟩ => .inr ⟨_, _, _, same⟩
    | .inr called => .inr called

/-- A phrase of a binary level whose tree is a variable is that one name. -/
theorem Chain.of_var : ∀ {n : Nat} {ts : List Token} {name : Token} {rest : List Token},
    Chain lenient n ts (.var name) rest → ts = name :: rest ∧ name.kind = .identifier
  | _, _, _, _, .chain operand links => by
    rcases links.eq_or_joined with ⟨rfl, rfl⟩ | ⟨_, _, _, joined⟩
    · cases operand with
      | unary phrase =>
        cases phrase with
        | call calls =>
          obtain ⟨primary, suffixes⟩ := calls
          rcases suffixes.eq_or_call with ⟨rfl, rfl⟩ | ⟨_, _, _, called⟩
          · cases primary with
            | identifier named => exact ⟨rfl, named⟩
          · cases called
      | chain lower => exact lower.of_var
    · exact absurd joined.symm (node_ne_var _ _ _ _ _)

/-! ## Where phrases begin and what they take -/

/-- The kinds of token a primary phrase begins with: a literal, a name or an opening
parenthesis. -/
def primaryFirst : List TokenKind :=
  [.falseWord, .trueWord, .nilWord, .number, .string, .identifier, .leftParen]

/-- The kinds of token any phrase begins with: those of a primary phrase, and the unary
operators. -/
def phraseFirst : List TokenKind :=
  .bang :: .minus :: primaryFirst

theorem Primary.starts {ts : List Token} {e : Expr} {rest : List Token} :
    Primary lenient ts e rest → (Parse.peek ts).kind ∈ primaryFirst
  | .falseWord kind | .trueWord kind | .nilWord kind | .number kind | .string kind
  | .identifier kind | .group kind _ _ => by simp [primaryFirst, Parse.peek, kind]

theorem Calls.starts {ts : List Token} {e : Expr} {rest : List Token} :
    Calls lenient ts e rest → (Parse.peek ts).kind ∈ primaryFirst
  | .calls primary _ => primary.starts

theorem Unary.starts {ts : List Token} {e : Expr} {rest : List Token} :
    Unary lenient ts e rest → (Parse.peek ts).kind ∈ phraseFirst
  | .op kind _ => by rcases kind with kind | kind <;> simp [phraseFirst, Parse.peek, kind]
  | .call calls => List.mem_cons_of_mem _ (List.mem_cons_of_mem _ calls.starts)

mutual

theorem Chain.starts {n : Nat} {ts : List Token} {e : Expr} {rest : List Token} :
    Chain lenient n ts e rest → (Parse.peek ts).kind ∈ phraseFirst
  | .chain operand _ => operand.starts

theorem Operand.starts {n : Nat} {ts : List Token} {e : Expr} {rest : List Token} :
    Operand lenient n ts e rest → (Parse.peek ts).kind ∈ phraseFirst
  | .unary phrase => phrase.starts
  | .chain lower => lower.starts

end

theorem Assignment.starts {ts : List Token} {e : Expr} {rest : List Token} :
    Assignment lenient ts e rest → (Parse.peek ts).kind ∈ phraseFirst
  | .lone chain | .retarget _ chain _ _ _ => chain.starts
  | .assign named _ _ => by simp [phraseFirst, primaryFirst, Parse.peek, named]

theorem Arguments.starts {ts : List Token} {args : List Expr} {rest : List Token} :
    Arguments lenient ts args rest → (Parse.peek ts).kind ∈ phraseFirst
  | .last phrase | .cons phrase _ _ => phrase.starts

theorem eof_not_mem_operators (n : Nat) : TokenKind.eof ∉ operators n := by
  unfold operators
  split <;> simp

/-- `ts` is `body` followed by `rest`, and `body` holds no `EOF`. -/
def Consumes (ts rest : List Token) : Prop :=
  ∃ body, ts = body ++ rest ∧ ∀ t ∈ body, t.kind ≠ .eof

theorem Consumes.refl (ts : List Token) : Consumes ts ts :=
  ⟨[], rfl, by simp⟩

theorem Consumes.trans {a b c : List Token} (first : Consumes a b) (second : Consumes b c) :
    Consumes a c := by
  obtain ⟨x, rfl, noEnd⟩ := first
  obtain ⟨y, rfl, noEnd'⟩ := second
  refine ⟨x ++ y, by rw [List.append_assoc], ?_⟩
  intro t member
  rcases List.mem_append.mp member with early | late
  · exact noEnd t early
  · exact noEnd' t late

theorem Consumes.cons {t : Token} {ts rest : List Token} (notEnd : t.kind ≠ .eof)
    (taken : Consumes ts rest) : Consumes (t :: ts) rest := by
  obtain ⟨x, rfl, noEnd⟩ := taken
  refine ⟨t :: x, rfl, ?_⟩
  intro u member
  rcases List.mem_cons.mp member with rfl | later
  · exact notEnd
  · exact noEnd u later

mutual

/-- A phrase takes a prefix of its tokens and never an `EOF`. -/
theorem Assignment.consumes {ts : List Token} {e : Expr} {rest : List Token} :
    Assignment lenient ts e rest → Consumes ts rest
  | .lone chain => chain.consumes
  | .assign named isEqual value =>
    .cons (by simp [named]) (.cons (by simp [isEqual]) value.consumes)
  | .retarget _ chain _ isEqual value =>
    chain.consumes.trans (.cons (by simp [isEqual]) value.consumes)

theorem Chain.consumes {n : Nat} {ts : List Token} {e : Expr} {rest : List Token} :
    Chain lenient n ts e rest → Consumes ts rest
  | .chain operand links => operand.consumes.trans links.consumes

theorem Operand.consumes {n : Nat} {ts : List Token} {e : Expr} {rest : List Token} :
    Operand lenient n ts e rest → Consumes ts rest
  | .unary phrase => phrase.consumes
  | .chain lower => lower.consumes

theorem Links.consumes {n : Nat} {left : Expr} {ts : List Token} {e : Expr}
    {rest : List Token} : Links lenient n left ts e rest → Consumes ts rest
  | .done => .refl _
  | .link member operand tail =>
    .cons (fun isEnd => eof_not_mem_operators n (isEnd ▸ member))
      (operand.consumes.trans tail.consumes)

theorem Unary.consumes {ts : List Token} {e : Expr} {rest : List Token} :
    Unary lenient ts e rest → Consumes ts rest
  | .op kind operand => .cons (by rcases kind with kind | kind <;> simp [kind]) operand.consumes
  | .call calls => calls.consumes

theorem Calls.consumes {ts : List Token} {e : Expr} {rest : List Token} :
    Calls lenient ts e rest → Consumes ts rest
  | .calls primary suffixes => primary.consumes.trans suffixes.consumes

theorem Suffixes.consumes {callee : Expr} {ts : List Token} {e : Expr} {rest : List Token} :
    Suffixes lenient callee ts e rest → Consumes ts rest
  | .done => .refl _
  | .empty isOpen isClose tail =>
    .cons (by simp [isOpen]) (.cons (by simp [isClose]) tail.consumes)
  | .call isOpen listed isClose tail =>
    .cons (by simp [isOpen]) (listed.consumes.trans (.cons (by simp [isClose]) tail.consumes))

theorem Arguments.consumes {ts : List Token} {args : List Expr} {rest : List Token} :
    Arguments lenient ts args rest → Consumes ts rest
  | .last phrase => phrase.consumes
  | .cons phrase isComma more =>
    phrase.consumes.trans (.cons (by simp [isComma]) more.consumes)

theorem Primary.consumes {ts : List Token} {e : Expr} {rest : List Token} :
    Primary lenient ts e rest → Consumes ts rest
  | .falseWord kind | .trueWord kind | .nilWord kind | .number kind | .string kind
  | .identifier kind => .cons (by simp [kind]) (.refl _)
  | .group isOpen inner isClose =>
    .cons (by simp [isOpen]) (inner.consumes.trans (.cons (by simp [isClose]) (.refl _)))

end

/-! ## Tokens that end a phrase -/

theorem Closes.mono {m n : Nat} {k : TokenKind} (le : m ≤ n) (closes : Closes n k) :
    Closes m k :=
  ⟨closes.1, fun j lt => closes.2 j (Nat.lt_of_lt_of_le lt le)⟩

/-- An operator of a level ends the phrases of the levels below it. -/
theorem closes_of_mem_operators : ∀ {n : Nat} {k : TokenKind}, n ≤ 5 → k ∈ operators n →
    Closes n k
  | 0, _, _, member | 1, _, _, member | 2, _, _, member | 3, _, _, member | 4, _, _, member
  | 5, _, _, member => by
    simp only [operators, List.mem_cons, List.not_mem_nil, or_false] at member
    rcases member with rfl | rfl | rfl | rfl <;> decide
  | _ + 6, _, bound, _ => absurd bound (by omega)

/-- The token after an operand of level `n` ends the phrases below `n`: it is the next operator
of the level, or the token after the whole chain. -/
theorem Links.closes_head {n : Nat} {left : Expr} {ts : List Token} {e : Expr}
    {rest : List Token} (bound : n ≤ 5) :
    Links lenient n left ts e rest → Closes (n + 1) (Parse.peek rest).kind →
      Closes n (Parse.peek ts).kind
  | .done, closes => closes.mono (Nat.le_succ n)
  | .link member _ _, _ => closes_of_mem_operators bound member

/-- The tree a chain builds fits if its end result does. -/
theorem Links.fits_start {n : Nat} {left : Expr} {ts : List Token} {e : Expr}
    {rest : List Token} {opened : Nat} :
    Links false n left ts e rest → Fits opened e → Fits opened left
  | .done, fits => fits
  | .link _ _ tail, fits => (fits_node.1 (tail.fits_start fits)).1

/-- The callee of a chain of calls fits if the whole chain does. -/
theorem Suffixes.fits_start {callee : Expr} {ts : List Token} {e : Expr} {rest : List Token}
    {opened : Nat} : Suffixes false callee ts e rest → Fits opened e → Fits opened callee
  | .done, fits => fits
  | .empty _ _ tail, fits => (fits_call.1 (tail.fits_start fits)).1
  | .call _ _ _ tail, fits => (fits_call.1 (tail.fits_start fits)).1

/-- A unary phrase, alone, is a phrase of every binary level. -/
theorem Chain.ofUnary {ts : List Token} {e : Expr} {rest : List Token}
    (phrase : Unary false ts e rest) : ∀ n, Chain false n ts e rest
  | 0 => .chain (.unary phrase) .done
  | n + 1 => .chain (.chain (Chain.ofUnary phrase n)) .done

/-- A lone name is a phrase of every binary level. -/
theorem Chain.ofName {name : Token} (named : name.kind = .identifier) (rest : List Token)
    (n : Nat) : Chain false n (name :: rest) (.var name) rest :=
  Chain.ofUnary (.call (.calls (.identifier named) .done)) n

/-- What a phrase leaves of the tokens the parser reads still ends with their `EOF`. -/
theorem Consumes.rest_eq {ts rest body : List Token} {last : Token}
    (taken : Consumes ts rest) (whole : ts = body ++ [last]) (lastEnd : last.kind = .eof)
    (noEnd : ∀ t ∈ body, t.kind ≠ .eof) :
    ∃ mid, rest = mid ++ [last] ∧ ∀ t ∈ mid, t.kind ≠ .eof := by
  obtain ⟨front, rfl, frontNoEnd⟩ := taken
  rcases List.append_eq_append_iff.mp whole with ⟨mid, rfl, rfl⟩ | ⟨extra, rfl, ends⟩
  · exact ⟨mid, rfl, fun t member => noEnd t (List.mem_append_right _ member)⟩
  · -- the phrase would have taken the `EOF` itself
    cases extra with
    | nil => exact ⟨[], by simpa using ends.symm, by simp⟩
    | cons x extra =>
      simp only [List.cons_append, List.cons.injEq] at ends
      obtain ⟨rfl, -⟩ := ends
      exact absurd lastEnd (frontNoEnd last (by simp))

/-- The end of an input ends the assignment phrase before it. -/
theorem Ending.closes {rest : List Token} (ending : Ending rest) :
    ClosesAssignment (Parse.peek rest).kind := by
  match rest, ending with
  | [_], isEnd =>
    simp only [Ending] at isEnd
    simp only [Parse.peek, isEnd]
    decide
  | [_, _], ⟨isSemicolon, _⟩ =>
    simp only [Parse.peek, isSemicolon]
    decide

end Grammar

end Lox
