import Lox.Proofs.Parse.Grammar
/-!
# The unrestricted grammar and its budget

The grammar the parser follows before it checks its limits: any `or` phrase may stand before
`=`, a call may have any number of arguments, and nothing bounds the nesting. Its phrases are
named after the reading functions of the parser, one for each (`Phrase`), and
`Derives s room body` says that the tokens `body` are one phrase of `s` in which never more than
`room` assignments, unary operations, calls and groupings are open at once. Each of these four
constructs needs one unit of room and leaves one less to what it encloses, as the parser counts
them.

A token list is an `Utterance` within a budget when it is an assignment phrase within it, then its
ending; a prefix is `Viable` when some tokens complete it to an utterance. Without a budget, that
is with some room, these are the sentences and prefixes of the unrestricted grammar.
-/

namespace Lox.Grammar

/-- The phrases of the unrestricted grammar, one for each reading function of the parser. The
tails are what follows a left side, an operand or a callee. -/
inductive Phrase where
  | assignment
  | assignTail
  | infixChain (n : Nat)
  | operand (n : Nat)
  | infixTail (n : Nat)
  | unary
  | call
  | callTail
  | argumentList
  | arguments
  | primary
  deriving DecidableEq

/-- The kinds of token that are a primary phrase alone. -/
def leafKinds : List TokenKind :=
  [.falseWord, .trueWord, .nilWord, .number, .string, .identifier]

/-- The kinds of token that open a construct: an assignment, a unary operation, a call or a
grouping. -/
def openerKinds : List TokenKind :=
  [.equal, .bang, .minus, .leftParen]

/-- **The unrestricted grammar.** `Derives s room body`: the tokens `body` are one phrase of `s`,
with at most `room` assignments, unary operations, calls and groupings open at once. -/
inductive Derives : Phrase → Nat → List Token → Prop where
  | assignment {room b₁ b₂} :
      Derives (.infixChain 5) room b₁ → Derives .assignTail room b₂ →
      Derives .assignment room (b₁ ++ b₂)
  | keep {room} : Derives .assignTail room []
  | assign {room eq b} : eq.kind = .equal → 0 < room → Derives .assignment (room - 1) b →
      Derives .assignTail room (eq :: b)
  | infixChain {n room b₁ b₂} :
      Derives (.operand n) room b₁ → Derives (.infixTail n) room b₂ →
      Derives (.infixChain n) room (b₁ ++ b₂)
  | unaryOperand {room b} : Derives .unary room b → Derives (.operand 0) room b
  | chainOperand {n room b} : Derives (.infixChain n) room b → Derives (.operand (n + 1)) room b
  | stop {n room} : Derives (.infixTail n) room []
  | link {n room op b₁ b₂} : op.kind ∈ operators n → Derives (.operand n) room b₁ →
      Derives (.infixTail n) room b₂ → Derives (.infixTail n) room (op :: (b₁ ++ b₂))
  | negate {room t b} : (t.kind = .bang ∨ t.kind = .minus) → 0 < room →
      Derives .unary (room - 1) b → Derives .unary room (t :: b)
  | call {room b} : Derives .call room b → Derives .unary room b
  | callee {room b₁ b₂} : Derives .primary room b₁ → Derives .callTail room b₂ →
      Derives .call room (b₁ ++ b₂)
  | uncalled {room} : Derives .callTail room []
  | suffix {room lp b₁ rp b₂} : lp.kind = .leftParen → 0 < room →
      Derives .argumentList (room - 1) b₁ → rp.kind = .rightParen →
      Derives .callTail room b₂ →
      Derives .callTail room (lp :: (b₁ ++ rp :: b₂))
  | noArguments {room} : Derives .argumentList room []
  | someArguments {room b} : Derives .arguments room b → Derives .argumentList room b
  | lastArgument {room b} : Derives .assignment room b → Derives .arguments room b
  | nextArgument {room b₁ comma b₂} : Derives .assignment room b₁ → comma.kind = .comma →
      Derives .arguments room b₂ → Derives .arguments room (b₁ ++ comma :: b₂)
  | leaf {room t} : t.kind ∈ leafKinds → Derives .primary room [t]
  | group {room lp b rp} : lp.kind = .leftParen → 0 < room →
      Derives .assignment (room - 1) b →
      rp.kind = .rightParen → Derives .primary room (lp :: (b ++ [rp]))

/-- **Utterances.** The token list is one assignment phrase within the budget, then its ending. -/
def Utterance (room : Nat) (ts : List Token) : Prop :=
  ∃ body ending, ts = body ++ ending ∧ Derives .assignment room body ∧ Ending ending

/-- **Viable prefixes.** Some tokens complete the prefix to an utterance within the budget. -/
def Viable (room : Nat) (pre : List Token) : Prop :=
  ∃ more, Utterance room (pre ++ more)

namespace Derives

/-- No phrase takes an `EOF`. -/
theorem noEnd {s : Phrase} {room : Nat} {body : List Token} (phrase : Derives s room body) :
    ∀ t ∈ body, t.kind ≠ .eof := by
  induction phrase with
  | keep | stop | uncalled | noArguments => simp
  | assignment _ _ left tail | infixChain _ _ left tail | callee _ _ left tail =>
    intro t member
    rcases List.mem_append.mp member with inLeft | inTail
    · exact left t inLeft
    · exact tail t inTail
  | unaryOperand _ inner | chainOperand _ inner | call _ inner | someArguments _ inner
  | lastArgument _ inner => exact inner
  | assign isEqual _ _ value =>
    intro t member
    rcases List.mem_cons.mp member with rfl | inValue
    · simp [isEqual]
    · exact value t inValue
  | link member _ _ operand tail =>
    intro t inBody
    rcases List.mem_cons.mp inBody with rfl | inBody
    · exact fun isEnd => eof_not_mem_operators _ (isEnd ▸ member)
    rcases List.mem_append.mp inBody with inOperand | inTail
    · exact operand t inOperand
    · exact tail t inTail
  | negate isOp _ _ operand =>
    intro t member
    rcases List.mem_cons.mp member with rfl | inOperand
    · rcases isOp with isOp | isOp <;> simp [isOp]
    · exact operand t inOperand
  | suffix isOpen _ _ isClose _ args tail =>
    intro t member
    simp only [List.mem_cons, List.mem_append] at member
    rcases member with rfl | inArgs | rfl | inTail
    · simp [isOpen]
    · exact args t inArgs
    · simp [isClose]
    · exact tail t inTail
  | nextArgument _ isComma _ first others =>
    intro t member
    simp only [List.mem_append, List.mem_cons] at member
    rcases member with inFirst | rfl | inOthers
    · exact first t inFirst
    · simp [isComma]
    · exact others t inOthers
  | leaf isLeaf =>
    intro t member
    rw [List.mem_singleton.mp member]
    intro isEnd
    simp [isEnd, leafKinds] at isLeaf
  | group isOpen _ _ isClose inner =>
    intro t member
    simp only [List.mem_cons, List.mem_append, List.not_mem_nil, or_false] at member
    rcases member with rfl | inInner | rfl
    · simp [isOpen]
    · exact inner t inInner
    · simp [isClose]

/-- A phrase within a budget is within every larger one. -/
theorem mono {s : Phrase} {room : Nat} {body : List Token} (phrase : Derives s room body) :
    ∀ {room'}, room ≤ room' → Derives s room' body := by
  induction phrase with
  | keep => exact fun _ => keep
  | stop => exact fun _ => stop
  | uncalled => exact fun _ => uncalled
  | noArguments => exact fun _ => noArguments
  | leaf isLeaf => exact fun _ => leaf isLeaf
  | assignment _ _ left tail => exact fun le => assignment (left le) (tail le)
  | infixChain _ _ left tail => exact fun le => infixChain (left le) (tail le)
  | callee _ _ left tail => exact fun le => callee (left le) (tail le)
  | unaryOperand _ inner => exact fun le => unaryOperand (inner le)
  | chainOperand _ inner => exact fun le => chainOperand (inner le)
  | call _ inner => exact fun le => call (inner le)
  | someArguments _ inner => exact fun le => someArguments (inner le)
  | lastArgument _ inner => exact fun le => lastArgument (inner le)
  | link member _ _ operand tail => exact fun le => link member (operand le) (tail le)
  | nextArgument _ isComma _ first others =>
    exact fun le => nextArgument (first le) isComma (others le)
  -- the four openers hand one unit less to what they enclose, whatever the budget
  | assign isEqual room _ value =>
    exact fun le => assign isEqual (by omega) (value (by omega))
  | negate isOp room _ operand =>
    exact fun le => negate isOp (by omega) (operand (by omega))
  | suffix isOpen room _ isClose _ args tail =>
    exact fun le => suffix isOpen (by omega) (args (by omega)) isClose (tail le)
  | group isOpen room _ isClose inner =>
    exact fun le => group isOpen (by omega) (inner (by omega)) isClose

end Derives

theorem Viable.mono {room room' : Nat} {pre : List Token} (viable : Viable room pre)
    (le : room ≤ room') : Viable room' pre := by
  obtain ⟨more, body, ending, whole, phrase, ending'⟩ := viable
  exact ⟨more, body, ending, whole, phrase.mono le, ending'⟩

/-! ## Where phrases begin and what closes them -/

/-- The phrases that always take a token: all but the tails and the argument list. -/
def Phrase.Solid : Phrase → Prop
  | .assignment | .infixChain _ | .operand _ | .unary | .call | .arguments | .primary => True
  | _ => False

/-- A call begins with a literal, a name or an opening parenthesis. -/
theorem Derives.call_starts {room : Nat} {body : List Token} (phrase : Derives .call room body) :
    ∃ t more, body = t :: more ∧ t.kind ∈ primaryFirst := by
  obtain _ | _ | _ | _ | _ | _ | _ | _ | _ | _ | ⟨callee, _⟩ := phrase
  cases callee with
  | leaf isLeaf =>
    refine ⟨_, _, rfl, ?_⟩
    simp only [leafKinds, List.mem_cons, List.not_mem_nil, or_false] at isLeaf
    rcases isLeaf with kind | kind | kind | kind | kind | kind <;> simp [kind, primaryFirst]
  | group isOpen _ _ _ => exact ⟨_, _, rfl, by simp [isOpen, primaryFirst]⟩

/-- A solid phrase begins with a token that can begin an expression. -/
theorem Derives.starts {s : Phrase} {room : Nat} {body : List Token} (phrase : Derives s room body)
    (solid : s.Solid) : ∃ t more, body = t :: more ∧ t.kind ∈ phraseFirst := by
  induction phrase with
  | keep | stop | uncalled | noArguments | assign | link | suffix | someArguments =>
    simp [Phrase.Solid] at solid
  | assignment _ _ left _ | infixChain _ _ left _ =>
    obtain ⟨t, more, rfl, first⟩ := left trivial
    exact ⟨t, _, rfl, first⟩
  | unaryOperand _ inner | chainOperand _ inner | lastArgument _ inner => exact inner trivial
  | nextArgument _ _ _ first _ =>
    obtain ⟨t, more, rfl, starts⟩ := first trivial
    exact ⟨t, _, rfl, starts⟩
  | negate isOp _ _ _ =>
    refine ⟨_, _, rfl, ?_⟩
    rcases isOp with isOp | isOp <;> simp [isOp, phraseFirst]
  | call calls _ =>
    obtain ⟨t, more, rfl, first⟩ := calls.call_starts
    exact ⟨t, more, rfl, List.mem_cons_of_mem _ (List.mem_cons_of_mem _ first)⟩
  | callee primary tail _ _ =>
    obtain ⟨t, more, whole, first⟩ := (Derives.callee primary tail).call_starts
    exact ⟨t, more, whole, List.mem_cons_of_mem _ (List.mem_cons_of_mem _ first)⟩
  | leaf isLeaf =>
    refine ⟨_, _, rfl, ?_⟩
    simp only [leafKinds, List.mem_cons, List.not_mem_nil, or_false] at isLeaf
    rcases isLeaf with kind | kind | kind | kind | kind | kind <;>
      simp [kind, phraseFirst, primaryFirst]
  | group isOpen _ _ _ => exact ⟨_, _, rfl, by simp [isOpen, phraseFirst, primaryFirst]⟩

/-- What may follow a left side: the `=` of an assignment, or what closes the whole. -/
theorem Derives.closes_left {room : Nat} {body rest : List Token}
    (tail : Derives .assignTail room body) (closes : ClosesAssignment (Parse.peek rest).kind) :
    Closes 6 (Parse.peek (body ++ rest)).kind := by
  cases tail with
  | keep => exact closes.1
  | assign isEqual _ _ => simp only [List.cons_append, Parse.peek, isEqual]; decide

/-- What may follow an operand of level `n`: the next operator of the level, or what closes the
whole chain. -/
theorem Derives.closes_operand {n room : Nat} {body rest : List Token} (bound : n ≤ 5)
    (tail : Derives (.infixTail n) room body) (closes : Closes (n + 1) (Parse.peek rest).kind) :
    Closes n (Parse.peek (body ++ rest)).kind := by
  cases tail with
  | stop => exact closes.mono (Nat.le_succ n)
  | link member _ _ => exact closes_of_mem_operators bound member

/-! ## Prefixes of phrases -/

/-- A `nil`: the shortest expression. -/
def nilWord : Token := ⟨.nilWord, "nil", none, 0, 0⟩

/-- A closing parenthesis. -/
def closeParen : Token := ⟨.rightParen, ")", none, 0, 0⟩

/-- The tokens `pre` begin a phrase of `s` within the room: some tokens complete them to one. -/
def Begins (s : Phrase) (room : Nat) (pre : List Token) : Prop :=
  ∃ more, Derives s room (pre ++ more)

namespace Derives

/-- A unary phrase is an operand and a chain of every level. -/
theorem chain_of_unary {room : Nat} {body : List Token} (phrase : Derives .unary room body) :
    ∀ n, Derives (.infixChain n) room body
  | 0 => by simpa using infixChain (unaryOperand phrase) stop
  | n + 1 => by simpa using infixChain (chainOperand (chain_of_unary phrase n)) stop

/-- A unary phrase is an assignment phrase. -/
theorem assignment_of_unary {room : Nat} {body : List Token} (phrase : Derives .unary room body) :
    Derives .assignment room body := by
  simpa using assignment (phrase.chain_of_unary 5) keep

theorem nil_unary (room : Nat) : Derives .unary room [nilWord] :=
  call (by simpa using callee (leaf (show nilWord.kind ∈ leafKinds by decide)) uncalled)

end Derives

namespace Begins

variable {s : Phrase} {room : Nat} {pre : List Token}

theorem of_derives {body : List Token} (phrase : Derives s room body) : Begins s room body :=
  ⟨[], by simpa using phrase⟩

theorem mono (begun : Begins s room pre) {room' : Nat} (le : room ≤ room') : Begins s room' pre :=
  let ⟨more, phrase⟩ := begun
  ⟨more, phrase.mono le⟩

/-- Nothing yet begins every phrase: a `nil` or nothing completes it. -/
theorem nil : ∀ (s : Phrase) (room : Nat), Begins s room []
  | .assignment, room => ⟨_, (Derives.nil_unary room).assignment_of_unary⟩
  | .assignTail, _ => ⟨[], .keep⟩
  | .infixChain n, room => ⟨_, (Derives.nil_unary room).chain_of_unary n⟩
  | .operand 0, room => ⟨_, .unaryOperand (Derives.nil_unary room)⟩
  | .operand (n + 1), room => ⟨_, .chainOperand ((Derives.nil_unary room).chain_of_unary n)⟩
  | .infixTail _, _ => ⟨[], .stop⟩
  | .unary, room => ⟨_, Derives.nil_unary room⟩
  | .call, room => ⟨[nilWord], by
      simpa using Derives.callee (.leaf (show nilWord.kind ∈ leafKinds by decide)) .uncalled⟩
  | .callTail, _ => ⟨[], .uncalled⟩
  | .argumentList, _ => ⟨[], .noArguments⟩
  | .arguments, room => ⟨_, .lastArgument (Derives.nil_unary room).assignment_of_unary⟩
  | .primary, _ => ⟨[nilWord], .leaf (by decide)⟩

/-! Each way a phrase is built carries a begun part to a begun whole: a first part begun alone,
or a first part whole and a later part begun. -/

theorem assignment_left (left : Begins (.infixChain 5) room pre) : Begins .assignment room pre :=
  let ⟨more, phrase⟩ := left
  ⟨more, by simpa using Derives.assignment phrase .keep⟩

theorem assignment_right {b : List Token} (left : Derives (.infixChain 5) room b)
    (tail : Begins .assignTail room pre) : Begins .assignment room (b ++ pre) :=
  let ⟨more, phrase⟩ := tail
  ⟨more, by simpa using Derives.assignment left phrase⟩

theorem assign {eq : Token} (isEqual : eq.kind = .equal) (roomy : 0 < room)
    (value : Begins .assignment (room - 1) pre) : Begins .assignTail room (eq :: pre) :=
  let ⟨more, phrase⟩ := value
  ⟨more, Derives.assign isEqual roomy phrase⟩

theorem infixChain_left {n : Nat} (left : Begins (.operand n) room pre) :
    Begins (.infixChain n) room pre :=
  let ⟨more, phrase⟩ := left
  ⟨more, by simpa using Derives.infixChain phrase .stop⟩

theorem infixChain_right {n : Nat} {b : List Token} (left : Derives (.operand n) room b)
    (tail : Begins (.infixTail n) room pre) : Begins (.infixChain n) room (b ++ pre) :=
  let ⟨more, phrase⟩ := tail
  ⟨more, by simpa using Derives.infixChain left phrase⟩

theorem unaryOperand (inner : Begins .unary room pre) : Begins (.operand 0) room pre :=
  let ⟨more, phrase⟩ := inner
  ⟨more, .unaryOperand phrase⟩

theorem chainOperand {n : Nat} (inner : Begins (.infixChain n) room pre) :
    Begins (.operand (n + 1)) room pre :=
  let ⟨more, phrase⟩ := inner
  ⟨more, .chainOperand phrase⟩

theorem link_left {n : Nat} {op : Token} (member : op.kind ∈ operators n)
    (right : Begins (.operand n) room pre) : Begins (.infixTail n) room (op :: pre) :=
  let ⟨more, phrase⟩ := right
  ⟨more, by simpa using Derives.link member phrase .stop⟩

theorem link_right {n : Nat} {op : Token} {b : List Token} (member : op.kind ∈ operators n)
    (right : Derives (.operand n) room b) (tail : Begins (.infixTail n) room pre) :
    Begins (.infixTail n) room (op :: (b ++ pre)) :=
  let ⟨more, phrase⟩ := tail
  ⟨more, by simpa using Derives.link member right phrase⟩

theorem negate {t : Token} (isUnary : t.kind = .bang ∨ t.kind = .minus) (roomy : 0 < room)
    (operand : Begins .unary (room - 1) pre) : Begins .unary room (t :: pre) :=
  let ⟨more, phrase⟩ := operand
  ⟨more, Derives.negate isUnary roomy phrase⟩

theorem call (inner : Begins .call room pre) : Begins .unary room pre :=
  let ⟨more, phrase⟩ := inner
  ⟨more, .call phrase⟩

theorem callee_left (callee : Begins .primary room pre) : Begins .call room pre :=
  let ⟨more, phrase⟩ := callee
  ⟨more, by simpa using Derives.callee phrase .uncalled⟩

theorem callee_right {b : List Token} (callee : Derives .primary room b)
    (tail : Begins .callTail room pre) : Begins .call room (b ++ pre) :=
  let ⟨more, phrase⟩ := tail
  ⟨more, by simpa using Derives.callee callee phrase⟩

theorem suffix_left {lp : Token} (isOpen : lp.kind = .leftParen) (roomy : 0 < room)
    (args : Begins .argumentList (room - 1) pre) : Begins .callTail room (lp :: pre) :=
  let ⟨more, phrase⟩ := args
  ⟨more ++ [closeParen], by
    simpa using
      Derives.suffix isOpen roomy phrase (show closeParen.kind = .rightParen from rfl) .uncalled⟩

theorem suffix_right {lp rp : Token} {b : List Token} (isOpen : lp.kind = .leftParen)
    (roomy : 0 < room) (args : Derives .argumentList (room - 1) b)
    (isClose : rp.kind = .rightParen) (tail : Begins .callTail room pre) :
    Begins .callTail room (lp :: (b ++ rp :: pre)) :=
  let ⟨more, phrase⟩ := tail
  ⟨more, by simpa using Derives.suffix isOpen roomy args isClose phrase⟩

theorem someArguments (inner : Begins .arguments room pre) : Begins .argumentList room pre :=
  let ⟨more, phrase⟩ := inner
  ⟨more, .someArguments phrase⟩

theorem lastArgument (first : Begins .assignment room pre) : Begins .arguments room pre :=
  let ⟨more, phrase⟩ := first
  ⟨more, .lastArgument phrase⟩

theorem nextArgument {comma : Token} {b : List Token} (first : Derives .assignment room b)
    (isComma : comma.kind = .comma) (others : Begins .arguments room pre) :
    Begins .arguments room (b ++ comma :: pre) :=
  let ⟨more, phrase⟩ := others
  ⟨more, by simpa using Derives.nextArgument first isComma phrase⟩

theorem group {lp : Token} (isOpen : lp.kind = .leftParen) (roomy : 0 < room)
    (inner : Begins .assignment (room - 1) pre) : Begins .primary room (lp :: pre) :=
  let ⟨more, phrase⟩ := inner
  ⟨more ++ [closeParen], by
    simpa using Derives.group isOpen roomy phrase (show closeParen.kind = .rightParen from rfl)⟩

end Begins

end Lox.Grammar
