import Lox.Proofs.Parse.Sound
/-!
# The parser reads every sentence of the grammar

The converse of soundness: a phrase of the strict grammar that fits the parser's limits, and
is followed by a token that ends it, is read whole, to exactly that tree, and without a new
error (`assignment_complete`). The token after a phrase matters because the descent is greedy:
it reads on as long as the next token can continue what it has, so a phrase is read as the
grammar has it only when the next token closes it (`Grammar.Closes`).

The two directions give the main statement (`parse_eq_ok_iff`): the parser returns a tree, and
no error, exactly for the token lists that are a sentence of the strict grammar whose tree fits
the limits, and the tree it returns is that sentence's.
-/

namespace Lox.Parse

open Grammar

/-! ## Where the descent stops -/

theorem assignTail_of_ne {left : Expr} {ts : List Token} {opened : Nat} {errors : Array Fault}
    (other : (peek ts).kind ≠ .equal) :
    assignTail left ts opened errors = .ok ⟨left, ts, Nat.le_refl _, errors⟩ := by
  unfold assignTail
  split
  · next t after => simp only [peek] at other; simp [other]
  · rfl

theorem infixTail_of_not_mem {n : Nat} {left : Expr} {ts : List Token} {opened : Nat}
    {errors : Array Fault} (other : (peek ts).kind ∉ (level n).1) :
    infixTail n left ts opened errors = .ok ⟨left, ts, Nat.le_refl _, errors⟩ := by
  unfold infixTail
  split
  · next t after => simp only [peek] at other; simp [other]
  · rfl

theorem callTail_of_ne {callee : Expr} {ts : List Token} {opened : Nat} {errors : Array Fault}
    (other : (peek ts).kind ≠ .leftParen) :
    callTail callee ts opened errors = .ok ⟨callee, ts, Nat.le_refl _, errors⟩ := by
  unfold callTail
  split
  · next t after => simp only [peek] at other; simp [other]
  · rfl

/-! ## Completeness -/

mutual

theorem assignment_complete {ts : List Token} {e : Expr} {rest : List Token}
    (phrase : Assignment false ts e rest) (closes : ClosesAssignment (peek rest).kind)
    {opened : Nat} (fits : Fits opened e) (errors : Array Fault) :
    ∃ le, assignment ts opened errors = .ok ⟨e, rest, le, errors⟩ := by
  cases phrase with
  | lone chain =>
    obtain ⟨le, chained⟩ := infixChain_complete (Nat.le_refl 5) chain closes.1 fits errors
    refine ⟨le, ?_⟩
    rw [assignment, chained]
    simp only [assignTail_of_ne closes.2]
    rfl
  | @assign name eq after value rest named isEqual value =>
    obtain ⟨room, valueFits⟩ := fits_assign.1 fits
    obtain ⟨le, chained⟩ :=
      infixChain_complete (Nat.le_refl 5) (Chain.ofName named (eq :: after) 5)
      (by simp only [peek, isEqual]; decide) fits_var errors
    obtain ⟨le', valued⟩ := assignment_complete value closes valueFits errors
    refine ⟨by simp only [List.length_cons]; omega, ?_⟩
    rw [assignment, chained]
    simp only [assignTail, isEqual, if_true]
    rw [opening_eq_none.2 room]
    simp only [valued]
    rfl
  | retarget lenient => cases lenient
termination_by 32 * ts.length + 17
decreasing_by all_goals (subst_vars; (try simp only [List.length_cons]); omega)

theorem infixChain_complete {n : Nat} (bound : n ≤ 5) {ts : List Token} {e : Expr}
    {rest : List Token} (phrase : Chain false n ts e rest)
    (closes : Closes (n + 1) (peek rest).kind)
    {opened : Nat} (fits : Fits opened e) (errors : Array Fault) :
    ∃ le, infixChain n ts opened errors = .ok ⟨e, rest, le, errors⟩ := by
  obtain ⟨operand, links⟩ := phrase
  obtain ⟨le, read⟩ :=
    operand_complete bound operand (links.closes_head bound closes) (links.fits_start fits) errors
  obtain ⟨le', tail⟩ := infixTail_complete bound links closes fits errors
  refine ⟨Nat.le_trans le' le, ?_⟩
  rw [infixChain, read]
  simp only [tail]
  rfl
termination_by 32 * ts.length + 2 * n + 4
decreasing_by all_goals (subst_vars; omega)

theorem operand_complete {n : Nat} (bound : n ≤ 5) {ts : List Token} {e : Expr}
    {rest : List Token} (phrase : Operand false n ts e rest) (closes : Closes n (peek rest).kind)
    {opened : Nat} (fits : Fits opened e) (errors : Array Fault) :
    ∃ le, operand n ts opened errors = .ok ⟨e, rest, le, errors⟩ := by
  cases phrase with
  | unary phrase =>
    rw [operand]
    exact unary_complete phrase closes fits errors
  | chain lower =>
    rw [operand]
    exact infixChain_complete (by omega) lower closes fits errors
termination_by 32 * ts.length + 2 * n + 3
decreasing_by all_goals (subst_vars; omega)

theorem infixTail_complete {n : Nat} (bound : n ≤ 5) {left : Expr} {ts : List Token} {e : Expr}
    {rest : List Token} (phrase : Links false n left ts e rest)
    (closes : Closes (n + 1) (peek rest).kind) {opened : Nat} (fits : Fits opened e)
    (errors : Array Fault) :
    ∃ le, infixTail n left ts opened errors = .ok ⟨e, rest, le, errors⟩ := by
  cases phrase with
  | done =>
    refine ⟨Nat.le_refl _, infixTail_of_not_mem ?_⟩
    rw [level_fst_eq bound]
    exact closes.2 n (Nat.lt_succ_self n)
  | link member operand tail =>
    obtain ⟨-, rightFits⟩ := fits_node.1 (tail.fits_start fits)
    obtain ⟨le, read⟩ :=
      operand_complete bound operand (tail.closes_head bound closes) rightFits errors
    obtain ⟨le', more⟩ := infixTail_complete bound tail closes fits errors
    refine ⟨by simp only [List.length_cons]; omega, ?_⟩
    rw [infixTail]
    simp only [level_fst_eq bound, List.contains_iff_mem, member, if_true, read, join_eq bound,
      more]
    rfl
termination_by 32 * ts.length + 2 * n + 3
decreasing_by all_goals (subst_vars; (try simp only [List.length_cons]); omega)

theorem unary_complete {ts : List Token} {e : Expr} {rest : List Token}
    (phrase : Unary false ts e rest) (closes : Closes 0 (peek rest).kind) {opened : Nat}
    (fits : Fits opened e) (errors : Array Fault) :
    ∃ le, unary ts opened errors = .ok ⟨e, rest, le, errors⟩ := by
  cases phrase with
  | op isUnary operand =>
    obtain ⟨room, operandFits⟩ := fits_unary.1 fits
    obtain ⟨le, read⟩ := unary_complete operand closes operandFits errors
    refine ⟨by simp only [List.length_cons]; omega, ?_⟩
    simp only [unary, isUnary, if_true]
    rw [opening_eq_none.2 room]
    simp only [read]
  | call calls =>
    -- a call begins with the first token of a primary phrase, which is no unary operator
    have notUnary : ¬((peek ts).kind = .bang ∨ (peek ts).kind = .minus) := by
      have first := calls.starts
      rintro (isUnary | isUnary) <;> simp [isUnary, primaryFirst] at first
    obtain ⟨le, read⟩ := call_complete calls closes fits errors
    refine ⟨le, ?_⟩
    unfold unary
    split
    · next t after =>
      simp only [peek] at notUnary
      simp only [notUnary, if_false]
      exact read
    · exact read
termination_by 32 * ts.length + 2
decreasing_by all_goals (subst_vars; (try simp only [List.length_cons]); omega)

theorem call_complete {ts : List Token} {e : Expr} {rest : List Token}
    (phrase : Calls false ts e rest) (closes : Closes 0 (peek rest).kind) {opened : Nat}
    (fits : Fits opened e) (errors : Array Fault) :
    ∃ le, call ts opened errors = .ok ⟨e, rest, le, errors⟩ := by
  obtain ⟨primary, suffixes⟩ := phrase
  obtain ⟨le, read⟩ := primary_complete primary (suffixes.fits_start fits) errors
  obtain ⟨le', tail⟩ := callTail_complete suffixes closes fits errors
  refine ⟨Nat.le_trans le' le, ?_⟩
  rw [call, read]
  simp only [tail]
  rfl
termination_by 32 * ts.length + 1
decreasing_by all_goals (subst_vars; omega)

theorem callTail_complete {callee : Expr} {ts : List Token} {e : Expr} {rest : List Token}
    (phrase : Suffixes false callee ts e rest) (closes : Closes 0 (peek rest).kind)
    {opened : Nat} (fits : Fits opened e) (errors : Array Fault) :
    ∃ le, callTail callee ts opened errors = .ok ⟨e, rest, le, errors⟩ := by
  cases phrase with
  | done => exact ⟨Nat.le_refl _, callTail_of_ne closes.1⟩
  | empty isOpen isClose tail =>
    obtain ⟨-, room, -, -⟩ := fits_call.1 (tail.fits_start fits)
    obtain ⟨le, more⟩ := callTail_complete tail closes fits errors
    refine ⟨by simp only [List.length_cons]; omega, ?_⟩
    simp only [callTail, isOpen, if_true]
    rw [opening_eq_none.2 room]
    simp only [argumentList, peek, isClose, if_true, more]
    rfl
  | call isOpen listed isClose tail =>
    obtain ⟨-, room, count, argsFit⟩ := fits_call.1 (tail.fits_start fits)
    obtain ⟨le, read⟩ :=
      argumentList_complete listed (by simp only [peek, isClose]) count argsFit errors
    -- the closing parenthesis is taken, so the calls after it read fewer tokens
    have shorter := Nat.lt_of_lt_of_le (Nat.lt_succ_self _) le
    obtain ⟨le', more⟩ := callTail_complete tail closes fits errors
    refine ⟨by simp only [List.length_cons]; omega, ?_⟩
    simp only [callTail, isOpen, if_true]
    rw [opening_eq_none.2 room]
    simp only [read, isClose, if_true, more]
    rfl
termination_by 32 * ts.length
decreasing_by all_goals (subst_vars; (try simp only [List.length_cons]); omega)

theorem argumentList_complete {ts : List Token} {args : List Expr} {rest : List Token}
    (phrase : Arguments false ts args rest) (closes : (peek rest).kind = .rightParen)
    (count : args.length ≤ maxArguments) {opened : Nat} (fits : ∀ arg ∈ args, Fits opened arg)
    (errors : Array Fault) :
    ∃ le, argumentList ts opened errors = .ok (args, ⟨rest, le⟩, errors) := by
  have notClose : (peek ts).kind ≠ .rightParen := by
    intro isClose
    have first := phrase.starts
    simp [isClose, phraseFirst, primaryFirst] at first
  obtain ⟨le, read⟩ := arguments_complete 0 phrase closes (by omega) fits errors
  refine ⟨le, ?_⟩
  rw [argumentList]
  simp only [notClose, if_false]
  exact read
termination_by 32 * ts.length + 19
decreasing_by all_goals omega

theorem arguments_complete (count : Nat) {ts : List Token} {args : List Expr} {rest : List Token}
    (phrase : Arguments false ts args rest) (closes : (peek rest).kind = .rightParen)
    (within : count + args.length ≤ maxArguments) {opened : Nat}
    (fits : ∀ arg ∈ args, Fits opened arg) (errors : Array Fault) :
    ∃ le, arguments count ts opened errors = .ok (args, ⟨rest, le⟩, errors) := by
  cases phrase with
  | last assigns =>
    obtain ⟨le, read⟩ := assignment_complete assigns (by rw [closes]; decide)
      (fits _ (List.mem_singleton_self _)) errors
    refine ⟨le, ?_⟩
    simp only [List.length_singleton] at within
    unfold arguments
    simp only [show ¬ maxArguments ≤ count by omega, if_false, read]
    split
    · next c more =>
      simp only [peek] at closes
      simp [closes]
    · rfl
  | cons assigns isComma more =>
    obtain ⟨le, read⟩ := assignment_complete assigns (by simp only [peek, isComma]; decide)
      (fits _ List.mem_cons_self) errors
    have shorter := Nat.lt_of_lt_of_le (Nat.lt_succ_self _) le
    simp only [List.length_cons] at within
    obtain ⟨le', others⟩ := arguments_complete (count + 1) more closes (by omega)
      (fun arg member => fits arg (List.mem_cons_of_mem _ member)) errors
    refine ⟨by omega, ?_⟩
    unfold arguments
    simp only [show ¬ maxArguments ≤ count by omega, if_false, read, isComma, if_true, others]
termination_by 32 * ts.length + 18
decreasing_by all_goals (subst_vars; omega)

theorem primary_complete {ts : List Token} {e : Expr} {rest : List Token}
    (phrase : Primary false ts e rest) {opened : Nat} (fits : Fits opened e)
    (errors : Array Fault) :
    ∃ le, primary ts opened errors = .ok ⟨e, rest, le, errors⟩ := by
  cases phrase with
  | falseWord kind | trueWord kind | nilWord kind | number kind | string kind
  | identifier kind => exact ⟨by simp, by simp only [primary, kind]⟩
  | group isOpen inner isClose =>
    obtain ⟨room, innerFits⟩ := fits_grouping.1 fits
    obtain ⟨le, read⟩ :=
      assignment_complete inner (by simp only [peek, isClose]; decide) innerFits errors
    refine ⟨by simp only [List.length_cons] at le ⊢; omega, ?_⟩
    simp only [primary, isOpen]
    rw [opening_eq_none.2 room]
    simp only [read, isClose, if_true]
termination_by 32 * ts.length
decreasing_by all_goals (subst_vars; (try simp only [List.length_cons]); omega)

end

/-! ## Whole inputs -/

/-- The tokens the parser reads end with their only `EOF`. -/
theorem prepare_eq (tokens : List Token) :
    ∃ body last,
      prepare tokens = body ++ [last] ∧ last.kind = .eof ∧ ∀ t ∈ body, t.kind ≠ .eof := by
  induction tokens with
  | nil => exact ⟨[], Token.endMarker, rfl, rfl, by simp⟩
  | cons t tokens ih =>
    by_cases isEnd : t.kind = .eof
    · exact ⟨[], t, by simp [prepare, isEnd], isEnd, by simp⟩
    · obtain ⟨body, last, prepared, lastEnd, noEnd⟩ := ih
      refine ⟨t :: body, last, by simp [prepare, isEnd, prepared], lastEnd, ?_⟩
      intro u member
      rcases List.mem_cons.mp member with rfl | later
      · exact isEnd
      · exact noEnd u later

/-- After a phrase, the parser takes one `;` if there is one and then wants the end: the tokens
left are an ending exactly when that finds the `EOF`. -/
theorem ending_iff {mid : List Token} {last : Token} (lastEnd : last.kind = .eof)
    (noEnd : ∀ t ∈ mid, t.kind ≠ .eof) :
    Ending (mid ++ [last]) ↔ (peek (if (peek (mid ++ [last])).kind = .semicolon then
      (mid ++ [last]).tail else mid ++ [last])).kind = .eof := by
  match mid, noEnd with
  | [], _ => simp [Ending, peek, lastEnd]
  | [m], noEnd =>
    have mNotEnd := noEnd m (by simp)
    by_cases isSemicolon : m.kind = .semicolon <;>
      simp [Ending, peek, isSemicolon, lastEnd, mNotEnd]
  | m :: m' :: more, noEnd =>
    have mNotEnd := noEnd m (by simp)
    have m'NotEnd := noEnd m' (by simp)
    by_cases isSemicolon : m.kind = .semicolon <;>
      simp [Ending, peek, isSemicolon, mNotEnd, m'NotEnd]

/-- **Parsing accepts exactly the sentences.** The parser returns a tree, and no error, exactly
when the tokens up to their first `EOF` are a sentence of the strict grammar with that tree, and
the tree fits the parser's limits: at most 256 assignments, unary operations, calls and
groupings open at once, and at most 255 arguments in a call. -/
theorem parse_eq_ok_iff (tokens : List Token) (tree : Expr) :
    Expr.parse tokens = .ok tree ↔
      Sentence false (prepare tokens) tree ∧ tree.nesting ≤ 256 ∧
        tree.callsWithin 255 = true := by
  obtain ⟨body, last, prepared, lastEnd, noEnd⟩ := prepare_eq tokens
  constructor
  · intro parsed
    unfold Expr.parse at parsed
    split at parsed
    · cases parsed
    · next tree' rest le errs read =>
      dsimp only at parsed
      generalize after : (if (peek rest).kind = .semicolon then rest.tail else rest) = left
        at parsed
      split at parsed
      · cases parsed
      · next atEnd =>
        split at parsed
        · next clean =>
          cases parsed
          obtain ⟨phrase, fits⟩ :=
            assignment_sound read (by simp only [Array.isEmpty_iff] at clean; simp [clean])
          obtain ⟨mid, rfl, midNoEnd⟩ := phrase.consumes.rest_eq prepared lastEnd noEnd
          refine ⟨⟨_, phrase, (ending_iff lastEnd midNoEnd).2 ?_⟩, ?_, fits.2⟩
          · rw [after]
            simpa using atEnd
          · simpa [Fits, maxOpen] using fits.1
        · cases parsed
  · rintro ⟨⟨rest, phrase, ending⟩, nests, calls⟩
    obtain ⟨mid, rfl, midNoEnd⟩ := phrase.consumes.rest_eq prepared lastEnd noEnd
    obtain ⟨le, read⟩ :=
      assignment_complete phrase ending.closes
        (show Fits 0 tree from ⟨by simpa [maxOpen] using nests, calls⟩) #[]
    have atEnd := (ending_iff lastEnd midNoEnd).1 ending
    unfold Expr.parse
    rw [read]
    simp only [atEnd, ne_eq, not_true_eq_false, if_false, Array.isEmpty_empty, if_true]

end Lox.Parse
