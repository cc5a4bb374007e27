import Lox.Proofs.Parse.Complete
import Lox.Proofs.Parse.Loose
/-!
# The parser recognises the unrestricted grammar

The parser set against the unrestricted grammar and the budget of open constructs it counts,
with the recorded errors left aside. Three facts are proved, each by a descent that follows the
parser's own:

* what any reading function reads is a phrase of its kind, within the room the parser has left
  (`assignment_derives`);
* a phrase followed by a token that closes it is read whole, unless it needs more room than is
  left, and then the reading stops at the construct one too many (`assignment_reads`);
* a reading depends on no token past the one after what it read (`assignment_local`).
-/

namespace Lox.Parse

open Grammar

/-! ## What the parser reads is a phrase -/

theorem splits_trans {ts rest rest' b₁ b₂ : List Token} (first : ts = b₁ ++ rest)
    (second : rest = b₂ ++ rest') : ts = (b₁ ++ b₂) ++ rest' := by
  rw [first, second, List.append_assoc]

mutual

theorem assignment_derives {ts : List Token} {opened : Nat} {errors : Array Fault} {r : Reading ts}
    (parsed : assignment ts opened errors = .ok r) :
    ∃ body, ts = body ++ r.rest ∧ Derives .assignment (maxOpen - opened) body := by
  rw [assignment] at parsed
  split at parsed
  · cases parsed
  · next left rest le errs chained =>
    obtain ⟨r', tail, rfl⟩ := Outcome.widen_eq_ok parsed
    obtain ⟨b₁, first, leftPhrase⟩ := infixChain_derives (Nat.le_refl 5) chained
    obtain ⟨b₂, second, tailPhrase⟩ := assignTail_derives tail
    exact ⟨b₁ ++ b₂, splits_trans first second, .assignment leftPhrase tailPhrase⟩
termination_by 32 * ts.length + 17
decreasing_by all_goals (subst_vars; omega)

theorem assignTail_derives {left : Expr} {ts : List Token} {opened : Nat} {errors : Array Fault}
    {r : Reading ts} (parsed : assignTail left ts opened errors = .ok r) :
    ∃ body, ts = body ++ r.rest ∧ Derives .assignTail (maxOpen - opened) body := by
  unfold assignTail at parsed
  split at parsed
  · next t after =>
    split at parsed
    · next isEqual =>
      split at parsed
      · cases parsed
      · next room =>
        have roomy := opening_eq_none.1 room
        split at parsed
        · cases parsed
        · next value rest le errs valued =>
          obtain ⟨b, whole, valuePhrase⟩ := assignment_derives valued
          have assigns : Derives .assignTail (maxOpen - opened) (t :: b) :=
            .assign isEqual (by omega) (by rwa [Nat.sub_sub])
          -- a left side that is not a name records an error, but the phrase is the same
          split at parsed <;> (cases parsed; exact ⟨t :: b, congrArg (t :: ·) whole, assigns⟩)
    · cases parsed
      exact ⟨[], rfl, .keep⟩
  · cases parsed
    exact ⟨[], rfl, .keep⟩
termination_by 32 * ts.length + 16
decreasing_by all_goals (subst_vars; (try simp only [List.length_cons]); omega)

theorem infixChain_derives {n : Nat} (bound : n ≤ 5) {ts : List Token} {opened : Nat}
    {errors : Array Fault} {r : Reading ts} (parsed : infixChain n ts opened errors = .ok r) :
    ∃ body, ts = body ++ r.rest ∧ Derives (.infixChain n) (maxOpen - opened) body := by
  rw [infixChain] at parsed
  split at parsed
  · cases parsed
  · next left rest le errs first =>
    obtain ⟨r', tail, rfl⟩ := Outcome.widen_eq_ok parsed
    obtain ⟨b₁, first, leftPhrase⟩ := operand_derives bound first
    obtain ⟨b₂, second, tailPhrase⟩ := infixTail_derives bound tail
    exact ⟨b₁ ++ b₂, splits_trans first second, .infixChain leftPhrase tailPhrase⟩
termination_by 32 * ts.length + 2 * n + 4
decreasing_by all_goals (subst_vars; omega)

theorem operand_derives {n : Nat} (bound : n ≤ 5) {ts : List Token} {opened : Nat}
    {errors : Array Fault} {r : Reading ts} (parsed : operand n ts opened errors = .ok r) :
    ∃ body, ts = body ++ r.rest ∧ Derives (.operand n) (maxOpen - opened) body := by
  unfold operand at parsed
  split at parsed
  · obtain ⟨body, whole, phrase⟩ := unary_derives parsed
    exact ⟨body, whole, .unaryOperand phrase⟩
  · obtain ⟨body, whole, phrase⟩ := infixChain_derives (by omega) parsed
    exact ⟨body, whole, .chainOperand phrase⟩
termination_by 32 * ts.length + 2 * n + 3
decreasing_by all_goals (subst_vars; omega)

theorem infixTail_derives {n : Nat} (bound : n ≤ 5) {left : Expr} {ts : List Token} {opened : Nat}
    {errors : Array Fault} {r : Reading ts} (parsed : infixTail n left ts opened errors = .ok r) :
    ∃ body, ts = body ++ r.rest ∧ Derives (.infixTail n) (maxOpen - opened) body := by
  unfold infixTail at parsed
  split at parsed
  · next t after =>
    split at parsed
    · next isOperator =>
      split at parsed
      · cases parsed
      · next right rest le errs read =>
        obtain ⟨r', tail, rfl⟩ := Outcome.widen_eq_ok parsed
        obtain ⟨b₁, first, rightPhrase⟩ := operand_derives bound read
        obtain ⟨b₂, second, tailPhrase⟩ := infixTail_derives bound tail
        have member : t.kind ∈ operators n := by
          simpa [level_fst_eq bound] using isOperator
        exact ⟨t :: (b₁ ++ b₂), congrArg (t :: ·) (splits_trans first second),
          .link member rightPhrase tailPhrase⟩
    · cases parsed
      exact ⟨[], rfl, .stop⟩
  · cases parsed
    exact ⟨[], rfl, .stop⟩
termination_by 32 * ts.length + 2 * n + 3
decreasing_by all_goals (subst_vars; (try simp only [List.length_cons]); omega)

theorem unary_derives {ts : List Token} {opened : Nat} {errors : Array Fault} {r : Reading ts}
    (parsed : unary ts opened errors = .ok r) :
    ∃ body, ts = body ++ r.rest ∧ Derives .unary (maxOpen - opened) body := by
  unfold unary at parsed
  split at parsed
  · next t after =>
    split at parsed
    · next isUnary =>
      split at parsed
      · cases parsed
      · next room =>
        split at parsed
        · cases parsed
        · next operand rest le errs read =>
          cases parsed
          obtain ⟨b, whole, operandPhrase⟩ := unary_derives read
          have roomy := opening_eq_none.1 room
          exact ⟨t :: b, congrArg (t :: ·) whole,
            .negate isUnary (by omega) (by rwa [Nat.sub_sub])⟩
    · obtain ⟨body, whole, phrase⟩ := call_derives parsed
      exact ⟨body, whole, .call phrase⟩
  · obtain ⟨body, whole, phrase⟩ := call_derives parsed
    exact ⟨body, whole, .call phrase⟩
termination_by 32 * ts.length + 2
decreasing_by all_goals (subst_vars; (try simp only [List.length_cons]); omega)

theorem call_derives {ts : List Token} {opened : Nat} {errors : Array Fault} {r : Reading ts}
    (parsed : call ts opened errors = .ok r) :
    ∃ body, ts = body ++ r.rest ∧ Derives .call (maxOpen - opened) body := by
  rw [call] at parsed
  split at parsed
  · cases parsed
  · next callee rest le errs read =>
    obtain ⟨r', tail, rfl⟩ := Outcome.widen_eq_ok parsed
    obtain ⟨b₁, first, calleePhrase⟩ := primary_derives read
    obtain ⟨b₂, second, tailPhrase⟩ := callTail_derives tail
    exact ⟨b₁ ++ b₂, splits_trans first second, .callee calleePhrase tailPhrase⟩
termination_by 32 * ts.length + 1
decreasing_by all_goals (subst_vars; omega)

theorem callTail_derives {callee : Expr} {ts : List Token} {opened : Nat} {errors : Array Fault}
    {r : Reading ts} (parsed : callTail callee ts opened errors = .ok r) :
    ∃ body, ts = body ++ r.rest ∧ Derives .callTail (maxOpen - opened) body := by
  unfold callTail at parsed
  split at parsed
  · next t after =>
    split at parsed
    · next isOpen =>
      split at parsed
      · cases parsed
      · next room =>
        split at parsed
        · cases parsed
        · next args rest le errs listed =>
          split at parsed
          · next p more bound =>
            split at parsed
            · next isClose =>
              obtain ⟨r', tail, rfl⟩ := Outcome.widen_eq_ok parsed
              have shorter := Nat.lt_of_lt_of_le (Nat.lt_succ_self _) bound
              obtain ⟨b₁, first, argsPhrase⟩ := argumentList_derives listed
              obtain ⟨b₂, second, tailPhrase⟩ := callTail_derives tail
              have roomy := opening_eq_none.1 room
              refine ⟨t :: (b₁ ++ p :: b₂),
                congrArg (t :: ·) (splits_trans first (congrArg (p :: ·) second)), ?_⟩
              exact .suffix isOpen (by omega) (by rwa [Nat.sub_sub]) isClose tailPhrase
            · cases parsed
          · cases parsed
    · cases parsed
      exact ⟨[], rfl, .uncalled⟩
  · cases parsed
    exact ⟨[], rfl, .uncalled⟩
termination_by 32 * ts.length
decreasing_by all_goals (subst_vars; (try simp only [List.length_cons]); omega)

theorem argumentList_derives {ts : List Token} {opened : Nat} {errors : Array Fault}
    {args : List Expr} {rest : { r : List Token // r.length ≤ ts.length }} {errs : Array Fault}
    (parsed : argumentList ts opened errors = .ok (args, rest, errs)) :
    ∃ body, ts = body ++ rest.1 ∧ Derives .argumentList (maxOpen - opened) body := by
  unfold argumentList at parsed
  split at parsed
  · cases parsed
    exact ⟨[], rfl, .noArguments⟩
  · obtain ⟨body, whole, phrase⟩ := arguments_derives parsed
    exact ⟨body, whole, .someArguments phrase⟩
termination_by 32 * ts.length + 19
decreasing_by all_goals omega

theorem arguments_derives {count : Nat} {ts : List Token} {opened : Nat} {errors : Array Fault}
    {args : List Expr} {rest : { r : List Token // r.length ≤ ts.length }} {errs : Array Fault}
    (parsed : arguments count ts opened errors = .ok (args, rest, errs)) :
    ∃ body, ts = body ++ rest.1 ∧ Derives .arguments (maxOpen - opened) body := by
  unfold arguments at parsed
  dsimp only at parsed
  split at parsed
  · cases parsed
  · next arg rest le errs first =>
    obtain ⟨b₁, whole, firstPhrase⟩ := assignment_derives first
    split at parsed
    · next c more bound =>
      have shorter := Nat.lt_of_lt_of_le (Nat.lt_succ_self _) bound
      split at parsed
      · next isComma =>
        split at parsed
        · cases parsed
        · next args rest' le' others =>
          cases parsed
          obtain ⟨b₂, second, othersPhrase⟩ := arguments_derives others
          exact ⟨b₁ ++ c :: b₂, splits_trans whole (congrArg (c :: ·) second),
            .nextArgument firstPhrase isComma othersPhrase⟩
      · cases parsed
        exact ⟨b₁, whole, .lastArgument firstPhrase⟩
    · cases parsed
      exact ⟨b₁, whole, .lastArgument firstPhrase⟩
termination_by 32 * ts.length + 18
decreasing_by all_goals (subst_vars; omega)

theorem primary_derives {ts : List Token} {opened : Nat} {errors : Array Fault} {r : Reading ts}
    (parsed : primary ts opened errors = .ok r) :
    ∃ body, ts = body ++ r.rest ∧ Derives .primary (maxOpen - opened) body := by
  unfold primary at parsed
  split at parsed
  · next t after =>
    dsimp only at parsed
    split at parsed
    case h_7 isOpen =>
      split at parsed
      · cases parsed
      · next room =>
        split at parsed
        · cases parsed
        · next inner rest le errs grouped =>
          split at parsed
          · next p more bound =>
            split at parsed
            · next isClose =>
              cases parsed
              obtain ⟨b, whole, innerPhrase⟩ := assignment_derives grouped
              have roomy := opening_eq_none.1 room
              refine ⟨t :: (b ++ [p]), congrArg (t :: ·) (splits_trans whole rfl), ?_⟩
              exact .group isOpen (by omega) (by rwa [Nat.sub_sub]) isClose
            · cases parsed
          · cases parsed
    case h_8 => cases parsed
    all_goals
      cases parsed
      exact ⟨[t], rfl, .leaf (by simp [leafKinds, *])⟩
  · cases parsed
termination_by 32 * ts.length
decreasing_by all_goals (subst_vars; (try simp only [List.length_cons]); omega)

end

/-! ## Every phrase is read, up to the budget -/

/-- The reading went through, up to `rest`. -/
def Reads {ts : List Token} (o : Outcome ts) (rest : List Token) : Prop :=
  ∃ r, o = .ok r ∧ r.rest = rest

/-- The reading of an argument list went through, up to `rest`. -/
def ReadsArguments {ts : List Token}
    (o : Except (Array Fault)
      (List Expr × { r : List Token // r.length ≤ ts.length } × Array Fault))
    (rest : List Token) : Prop :=
  ∃ args r errs, o = .ok (args, r, errs) ∧ r.1 = rest

/-- The reading stopped at one construct too many: its last error says so. -/
def Overflows {α : Type} (o : Except (Array Fault) α) : Prop :=
  ∃ (errs : Array Fault) (t : Token), o = .error (errs.push (Problem.nestedTooDeeply.raiseAt t))

theorem Reads.widen {ts ts' : List Token} {o : Outcome ts'} {rest : List Token}
    (read : Reads o rest) (h : ts'.length ≤ ts.length) : Reads (o.widen h) rest := by
  obtain ⟨r, rfl, rfl⟩ := read
  exact ⟨r.widen h, rfl, rfl⟩

theorem Overflows.widen {ts ts' : List Token} {o : Outcome ts'} (stopped : Overflows o)
    (h : ts'.length ≤ ts.length) : Overflows (o.widen h) := by
  obtain ⟨errs, t, rfl⟩ := stopped
  exact ⟨errs, t, rfl⟩

theorem opening_eq_some {opened : Nat} {site : Token} {errors : Array Fault}
    (full : maxOpen ≤ opened) :
    opening opened site errors = some (errors.push (Problem.nestedTooDeeply.raiseAt site)) := by
  unfold opening
  simp only [ite_eq_left_iff, Nat.not_lt, reduceCtorEq, imp_false, Nat.not_le]
  omega

mutual

theorem assignment_reads {room : Nat} {body : List Token} (phrase : Derives .assignment room body)
    {rest : List Token} (closes : ClosesAssignment (peek rest).kind) (opened : Nat)
    (errors : Array Fault) :
    Reads (assignment (body ++ rest) opened errors) rest ∨
      maxOpen < opened + room ∧ Overflows (assignment (body ++ rest) opened errors) := by
  cases phrase with
  | assignment left tail =>
    rw [List.append_assoc, assignment]
    rcases infixChain_reads (Nat.le_refl 5) left (tail.closes_left closes) opened errors with
      ⟨⟨left', mid, le, errs⟩, read, rfl⟩ | ⟨deep, errs, t, stopped⟩
    · rw [read]
      rcases assignTail_reads tail closes left' opened errs with read' | ⟨deep, stopped⟩
      · exact .inl (read'.widen le)
      · exact .inr ⟨deep, stopped.widen le⟩
    · rw [stopped]
      exact .inr ⟨deep, errs, t, rfl⟩
termination_by 32 * (body ++ rest).length + 17
decreasing_by all_goals (subst_vars; simp +arith)

theorem assignTail_reads {room : Nat} {body : List Token} (phrase : Derives .assignTail room body)
    {rest : List Token} (closes : ClosesAssignment (peek rest).kind) (left : Expr) (opened : Nat)
    (errors : Array Fault) :
    Reads (assignTail left (body ++ rest) opened errors) rest ∨
      maxOpen < opened + room ∧ Overflows (assignTail left (body ++ rest) opened errors) := by
  cases phrase with
  | keep => exact .inl ⟨_, assignTail_of_ne closes.2, rfl⟩
  | assign isEqual roomy value =>
    simp only [List.cons_append, assignTail, isEqual, if_true]
    by_cases room : opened < maxOpen
    · rw [opening_eq_none.2 room]
      rcases assignment_reads value closes (opened + 1) errors with
        ⟨⟨value', mid, le, errs⟩, read, same⟩ | ⟨deep, errs, t, stopped⟩
      · simp only [read]
        -- a left side that is not a name records an error and reads on
        left
        split <;> exact ⟨_, rfl, same⟩
      · simp only [stopped]
        exact .inr ⟨by omega, errs, t, rfl⟩
    · rw [opening_eq_some (by omega)]
      exact .inr ⟨by omega, errors, _, rfl⟩
termination_by 32 * (body ++ rest).length + 16
decreasing_by all_goals (subst_vars; simp +arith)

theorem infixChain_reads {n : Nat} (bound : n ≤ 5) {room : Nat} {body : List Token}
    (phrase : Derives (.infixChain n) room body) {rest : List Token}
    (closes : Closes (n + 1) (peek rest).kind) (opened : Nat) (errors : Array Fault) :
    Reads (infixChain n (body ++ rest) opened errors) rest ∨
      maxOpen < opened + room ∧ Overflows (infixChain n (body ++ rest) opened errors) := by
  cases phrase with
  | infixChain operand tail =>
    rw [List.append_assoc, infixChain]
    rcases operand_reads bound operand (tail.closes_operand bound closes) opened errors with
      ⟨⟨left, mid, le, errs⟩, read, rfl⟩ | ⟨deep, errs, t, stopped⟩
    · rw [read]
      rcases infixTail_reads bound tail closes left opened errs with read' | ⟨deep, stopped⟩
      · exact .inl (read'.widen le)
      · exact .inr ⟨deep, stopped.widen le⟩
    · rw [stopped]
      exact .inr ⟨deep, errs, t, rfl⟩
termination_by 32 * (body ++ rest).length + 2 * n + 4
decreasing_by all_goals (subst_vars; simp +arith)

theorem operand_reads {n : Nat} (bound : n ≤ 5) {room : Nat} {body : List Token}
    (phrase : Derives (.operand n) room body) {rest : List Token}
    (closes : Closes n (peek rest).kind) (opened : Nat) (errors : Array Fault) :
    Reads (operand n (body ++ rest) opened errors) rest ∨
      maxOpen < opened + room ∧ Overflows (operand n (body ++ rest) opened errors) := by
  cases phrase with
  | unaryOperand inner =>
    rw [operand]
    exact unary_reads inner closes opened errors
  | chainOperand inner =>
    rw [operand]
    exact infixChain_reads (by omega) inner closes opened errors
termination_by 32 * (body ++ rest).length + 2 * n + 3
decreasing_by all_goals (subst_vars; simp +arith)

theorem infixTail_reads {n : Nat} (bound : n ≤ 5) {room : Nat} {body : List Token}
    (phrase : Derives (.infixTail n) room body) {rest : List Token}
    (closes : Closes (n + 1) (peek rest).kind) (left : Expr) (opened : Nat)
    (errors : Array Fault) :
    Reads (infixTail n left (body ++ rest) opened errors) rest ∨
      maxOpen < opened + room ∧ Overflows (infixTail n left (body ++ rest) opened errors) := by
  cases phrase with
  | stop =>
    refine .inl ⟨_, infixTail_of_not_mem ?_, rfl⟩
    rw [level_fst_eq bound]
    exact closes.2 n (Nat.lt_succ_self n)
  | @link _ _ op _ _ member operand tail =>
    rw [List.cons_append, List.append_assoc]
    simp only [infixTail, level_fst_eq bound, List.contains_iff_mem, member, if_true]
    rcases operand_reads bound operand (tail.closes_operand bound closes) opened errors with
      ⟨⟨right, mid, le, errs⟩, read, rfl⟩ | ⟨deep, errs, t, stopped⟩
    · simp only [read]
      rcases infixTail_reads bound tail closes (join n left op right) opened errs with
        read' | ⟨deep, stopped⟩
      · exact .inl (read'.widen _)
      · exact .inr ⟨deep, stopped.widen _⟩
    · simp only [stopped]
      exact .inr ⟨deep, errs, t, rfl⟩
termination_by 32 * (body ++ rest).length + 2 * n + 3
decreasing_by all_goals (subst_vars; simp +arith)

theorem unary_reads {room : Nat} {body : List Token} (phrase : Derives .unary room body)
    {rest : List Token} (closes : Closes 0 (peek rest).kind) (opened : Nat)
    (errors : Array Fault) :
    Reads (unary (body ++ rest) opened errors) rest ∨
      maxOpen < opened + room ∧ Overflows (unary (body ++ rest) opened errors) := by
  cases phrase with
  | negate isUnary roomy operand =>
    simp only [List.cons_append, unary, isUnary, if_true]
    by_cases room : opened < maxOpen
    · rw [opening_eq_none.2 room]
      rcases unary_reads operand closes (opened + 1) errors with
        ⟨⟨inner, mid, le, errs⟩, read, same⟩ | ⟨deep, errs, t, stopped⟩
      · simp only [read]
        exact .inl ⟨_, rfl, same⟩
      · simp only [stopped]
        exact .inr ⟨by omega, errs, t, rfl⟩
    · rw [opening_eq_some (by omega)]
      exact .inr ⟨by omega, errors, _, rfl⟩
  | call calls =>
    -- a call begins with the first token of a primary phrase, which is no unary operator
    have read := call_reads calls closes opened errors
    obtain ⟨t, more, rfl, first⟩ := calls.call_starts
    have notUnary : ¬(t.kind = .bang ∨ t.kind = .minus) := by
      rintro (isUnary | isUnary) <;> simp [isUnary, primaryFirst] at first
    simp only [List.cons_append] at read ⊢
    simp only [unary, notUnary, if_false]
    exact read
termination_by 32 * (body ++ rest).length + 2
decreasing_by all_goals (subst_vars; simp +arith)

theorem call_reads {room : Nat} {body : List Token} (phrase : Derives .call room body)
    {rest : List Token} (closes : Closes 0 (peek rest).kind) (opened : Nat)
    (errors : Array Fault) :
    Reads (call (body ++ rest) opened errors) rest ∨
      maxOpen < opened + room ∧ Overflows (call (body ++ rest) opened errors) := by
  cases phrase with
  | @callee _ _ b₂ primary tail =>
    rw [List.append_assoc, call]
    rcases primary_reads primary (b₂ ++ rest) opened errors with
      ⟨⟨callee, mid, le, errs⟩, read, rfl⟩ | ⟨deep, errs, t, stopped⟩
    · rw [read]
      rcases callTail_reads tail closes callee opened errs with read' | ⟨deep, stopped⟩
      · exact .inl (read'.widen le)
      · exact .inr ⟨deep, stopped.widen le⟩
    · rw [stopped]
      exact .inr ⟨deep, errs, t, rfl⟩
termination_by 32 * (body ++ rest).length + 1
decreasing_by all_goals (subst_vars; simp +arith)

theorem callTail_reads {room : Nat} {body : List Token} (phrase : Derives .callTail room body)
    {rest : List Token} (closes : Closes 0 (peek rest).kind) (callee : Expr) (opened : Nat)
    (errors : Array Fault) :
    Reads (callTail callee (body ++ rest) opened errors) rest ∨
      maxOpen < opened + room ∧ Overflows (callTail callee (body ++ rest) opened errors) := by
  cases phrase with
  | uncalled => exact .inl ⟨_, callTail_of_ne closes.1, rfl⟩
  | @suffix _ lp b₁ rp b₂ isOpen roomy args isClose tail =>
    rw [List.cons_append, List.append_assoc, List.cons_append]
    simp only [callTail, isOpen, if_true]
    by_cases room : opened < maxOpen
    · rw [opening_eq_none.2 room]
      have closed : (peek (rp :: (b₂ ++ rest))).kind = .rightParen := by
        simp only [peek, isClose]
      rcases argumentList_reads args closed (opened + 1) errors with
        ⟨args', ⟨mid, le⟩, errs, read, rfl⟩ | ⟨deep, errs, t, stopped⟩
      · simp only [read, isClose, if_true]
        rcases callTail_reads tail closes (.call callee rp args') opened errs with
          read' | ⟨deep, stopped⟩
        · exact .inl (read'.widen _)
        · exact .inr ⟨deep, stopped.widen _⟩
      · simp only [stopped]
        exact .inr ⟨by omega, errs, t, rfl⟩
    · rw [opening_eq_some (by omega)]
      exact .inr ⟨by omega, errors, _, rfl⟩
termination_by 32 * (body ++ rest).length
decreasing_by all_goals (subst_vars; simp +arith)

theorem argumentList_reads {room : Nat} {body : List Token}
    (phrase : Derives .argumentList room body) {rest : List Token}
    (closes : (peek rest).kind = .rightParen) (opened : Nat) (errors : Array Fault) :
    ReadsArguments (argumentList (body ++ rest) opened errors) rest ∨
      maxOpen < opened + room ∧ Overflows (argumentList (body ++ rest) opened errors) := by
  cases phrase with
  | noArguments =>
    refine .inl ⟨[], ⟨rest, Nat.le_refl _⟩, errors, ?_, rfl⟩
    simp only [List.nil_append, argumentList, closes, if_true]
  | someArguments args =>
    have read := arguments_reads 0 args closes opened errors
    obtain ⟨t, more, rfl, first⟩ := args.starts trivial
    have notClose : t.kind ≠ .rightParen := by
      intro isClose
      simp [isClose, phraseFirst, primaryFirst] at first
    rw [argumentList]
    simp only [List.cons_append, peek, notClose, if_false] at read ⊢
    exact read
termination_by 32 * (body ++ rest).length + 19
decreasing_by all_goals (subst_vars; simp +arith)

theorem arguments_reads (count : Nat) {room : Nat} {body : List Token}
    (phrase : Derives .arguments room body) {rest : List Token}
    (closes : (peek rest).kind = .rightParen) (opened : Nat) (errors : Array Fault) :
    ReadsArguments (arguments count (body ++ rest) opened errors) rest ∨
      maxOpen < opened + room ∧ Overflows (arguments count (body ++ rest) opened errors) := by
  cases phrase with
  | lastArgument assigns =>
    unfold arguments
    dsimp only
    generalize (if maxArguments ≤ count then
      errors.push (Problem.tooManyArguments.raiseAt (peek (body ++ rest))) else errors) = counted
    rcases assignment_reads assigns (by rw [closes]; decide) opened counted with
      ⟨⟨arg, mid, le, errs⟩, read, same⟩ | ⟨deep, errs, t, stopped⟩
    · dsimp only at same
      subst same
      simp only [read]
      left
      split
      · next c more =>
        simp only [peek] at closes
        simp only [closes, reduceCtorEq, if_false]
        exact ⟨_, _, _, rfl, rfl⟩
      · exact ⟨_, _, _, rfl, rfl⟩
    · simp only [stopped]
      exact .inr ⟨deep, errs, t, rfl⟩
  | @nextArgument _ b₁ comma b₂ first isComma others =>
    rw [List.append_assoc, List.cons_append]
    unfold arguments
    dsimp only
    generalize (if maxArguments ≤ count then
      errors.push (Problem.tooManyArguments.raiseAt (peek (b₁ ++ comma :: (b₂ ++ rest))))
      else errors) = counted
    have separated : ClosesAssignment (peek (comma :: (b₂ ++ rest))).kind := by
      simp only [peek, isComma]
      decide
    rcases assignment_reads first separated opened counted with
      ⟨⟨arg, mid, le, errs⟩, read, rfl⟩ | ⟨deep, errs, t, stopped⟩
    · simp only [read, isComma, if_true]
      rcases arguments_reads (count + 1) others closes opened errs with
        ⟨args, ⟨after, le'⟩, errs', read', same⟩ | ⟨deep, errs', t, stopped⟩
      · simp only [read']
        exact .inl ⟨_, _, _, rfl, same⟩
      · simp only [stopped]
        exact .inr ⟨deep, errs', t, rfl⟩
    · simp only [stopped]
      exact .inr ⟨deep, errs, t, rfl⟩
termination_by 32 * (body ++ rest).length + 18
decreasing_by all_goals (subst_vars; simp +arith)

theorem primary_reads {room : Nat} {body : List Token} (phrase : Derives .primary room body)
    (rest : List Token) (opened : Nat) (errors : Array Fault) :
    Reads (primary (body ++ rest) opened errors) rest ∨
      maxOpen < opened + room ∧ Overflows (primary (body ++ rest) opened errors) := by
  cases phrase with
  | leaf isLeaf =>
    left
    simp only [leafKinds, List.mem_cons, List.not_mem_nil, or_false] at isLeaf
    rcases isLeaf with kind | kind | kind | kind | kind | kind <;>
      exact ⟨_, by simp only [List.cons_append, List.nil_append, primary, kind]; rfl, by rfl⟩
  | @group _ lp b rp isOpen roomy inner isClose =>
    rw [List.cons_append, List.append_assoc, List.singleton_append]
    simp only [primary, isOpen]
    by_cases room : opened < maxOpen
    · rw [opening_eq_none.2 room]
      have closed : ClosesAssignment (peek (rp :: rest)).kind := by
        simp only [peek, isClose]
        decide
      rcases assignment_reads inner closed (opened + 1) errors with
        ⟨⟨e, mid, le, errs⟩, read, rfl⟩ | ⟨deep, errs, t, stopped⟩
      · simp only [read, isClose, if_true]
        exact .inl ⟨_, rfl, rfl⟩
      · simp only [stopped]
        exact .inr ⟨by omega, errs, t, rfl⟩
    · rw [opening_eq_some (by omega)]
      exact .inr ⟨by omega, errors, _, rfl⟩
termination_by 32 * (body ++ rest).length
decreasing_by all_goals (subst_vars; simp +arith)

end

/-! ## A reading looks one token ahead -/

/-- Two inputs that agree on `body` and on the token after it, with `rest` and `rest'` after
`body`. -/
def Shares (ts ts' rest rest' : List Token) : Prop :=
  ∃ body, ts = body ++ rest ∧ ts' = body ++ rest' ∧ rest ≠ [] ∧ rest.head? = rest'.head?

namespace Shares

theorem not_nil {ts' rest rest' : List Token} : ¬Shares [] ts' rest rest' := by
  rintro ⟨body, whole, -, nonempty, -⟩
  exact nonempty (List.append_eq_nil_iff.mp whole.symm).2

/-- Where nothing is read, the two inputs are the two rests. -/
theorem same {ts ts' rest' : List Token} (shares : Shares ts ts' ts rest') : ts' = rest' := by
  obtain ⟨body, whole, rfl, -, -⟩ := shares
  have empty : body = [] := by
    have lengths := congrArg List.length whole
    simp only [List.length_append] at lengths
    exact List.eq_nil_of_length_eq_zero (by omega)
  rw [empty, List.nil_append]

theorem peek_eq {ts ts' rest rest' : List Token} (shares : Shares ts ts' rest rest') :
    peek ts = peek ts' := by
  obtain ⟨body, rfl, rfl, nonempty, ahead⟩ := shares
  cases body with
  | nil =>
    cases rest with
    | nil => exact absurd rfl nonempty
    | cons u more =>
      cases rest' with
      | nil => simp at ahead
      | cons u' more' =>
        simp only [List.head?_cons, Option.some.injEq] at ahead
        simp only [List.nil_append, peek, ahead]
  | cons b bs => rfl

/-- The first tokens of the two inputs are the same. -/
theorem cons {t : Token} {after ts' rest rest' : List Token}
    (shares : Shares (t :: after) ts' rest rest') : ∃ after', ts' = t :: after' := by
  have first := shares.peek_eq
  cases ts' with
  | nil =>
    obtain ⟨body, whole, empty, nonempty, ahead⟩ := shares
    obtain ⟨rfl, rfl⟩ := List.append_eq_nil_iff.mp empty.symm
    cases rest with
    | nil => exact absurd rfl nonempty
    | cons u more => simp at ahead
  | cons t' after' =>
    simp only [peek] at first
    exact ⟨after', by rw [first]⟩

/-- Past a first token that is read, the rest of the inputs still agree. -/
theorem tail {t : Token} {after after' rest rest' : List Token}
    (shares : Shares (t :: after) (t :: after') rest rest')
    (shorter : rest.length ≤ after.length) :
    Shares after after' rest rest' := by
  obtain ⟨body, whole, whole', nonempty, ahead⟩ := shares
  cases body with
  | nil =>
    have lengths := congrArg List.length whole
    simp only [List.nil_append, List.length_cons] at lengths
    omega
  | cons b bs =>
    simp only [List.cons_append, List.cons.injEq] at whole whole'
    exact ⟨bs, whole.2, whole'.2, nonempty, ahead⟩

/-- Agreement up to the token after a phrase splits at the end of a first part of the phrase. -/
theorem split {ts ts' rest rest' b₁ b₂ mid : List Token} (shares : Shares ts ts' rest rest')
    (first : ts = b₁ ++ mid) (second : mid = b₂ ++ rest) :
    Shares ts ts' mid (b₂ ++ rest') ∧ Shares mid (b₂ ++ rest') rest rest' := by
  obtain ⟨body, whole, rfl, nonempty, ahead⟩ := shares
  subst first second
  have parts : body = b₁ ++ b₂ := by
    rw [← List.append_assoc] at whole
    exact (List.append_cancel_right whole).symm
  subst parts
  refine ⟨⟨b₁, rfl, by rw [List.append_assoc], ?_, ?_⟩,
    ⟨b₂, rfl, rfl, nonempty, ahead⟩⟩
  · simp [nonempty]
  · cases b₂ with
    | nil => exact ahead
    | cons b bs => rfl

/-- The token after a phrase is the same in both inputs. -/
theorem head {ts ts' rest' : List Token} {u : Token} {more : List Token}
    (shares : Shares ts ts' (u :: more) rest') : ∃ more', rest' = u :: more' := by
  obtain ⟨-, -, -, -, ahead⟩ := shares
  cases rest' with
  | nil => simp at ahead
  | cons u' more' =>
    simp only [List.head?_cons, Option.some.injEq] at ahead
    exact ⟨more', by rw [ahead]⟩

end Shares

mutual

theorem assignment_local {ts ts' rest' : List Token} {opened : Nat} {errors : Array Fault}
    {r : Reading ts} (parsed : assignment ts opened errors = .ok r)
    (shares : Shares ts ts' r.rest rest') :
    ∃ le, assignment ts' opened errors = .ok ⟨r.tree, rest', le, r.errors⟩ := by
  rw [assignment] at parsed
  split at parsed
  · cases parsed
  · next left mid le errs chained =>
    obtain ⟨r', tail, rfl⟩ := Outcome.widen_eq_ok parsed
    obtain ⟨b₁, first, -⟩ := infixChain_derives (Nat.le_refl 5) chained
    obtain ⟨b₂, second, -⟩ := assignTail_derives tail
    obtain ⟨outer, inner⟩ := shares.split first second
    obtain ⟨le₁, chained'⟩ := infixChain_local (Nat.le_refl 5) chained outer
    obtain ⟨le₂, tail'⟩ := assignTail_local tail inner
    refine ⟨Nat.le_trans le₂ le₁, ?_⟩
    rw [assignment, chained']
    simp only [tail']
    rfl
termination_by 32 * ts.length + 17
decreasing_by all_goals (subst_vars; omega)

theorem assignTail_local {left : Expr} {ts ts' rest' : List Token} {opened : Nat}
    {errors : Array Fault} {r : Reading ts} (parsed : assignTail left ts opened errors = .ok r)
    (shares : Shares ts ts' r.rest rest') :
    ∃ le, assignTail left ts' opened errors = .ok ⟨r.tree, rest', le, r.errors⟩ := by
  unfold assignTail at parsed
  split at parsed
  · next t after =>
    obtain ⟨after', rfl⟩ := shares.cons
    split at parsed
    · next isEqual =>
      split at parsed
      · cases parsed
      · next room =>
        split at parsed
        · cases parsed
        · next value mid le errs valued =>
          have inner : Shares after after' mid rest' := by
            split at parsed <;> (cases parsed; exact shares.tail le)
          obtain ⟨le', valued'⟩ := assignment_local valued inner
          split at parsed <;>
            (cases parsed
             exact ⟨Nat.le_succ_of_le le',
               by simp only [assignTail, isEqual, if_true, room, valued']⟩)
    · next notEqual =>
      cases parsed
      obtain rfl := shares.same
      exact ⟨Nat.le_refl _, by simp only [assignTail, notEqual, if_false]⟩
  · exact absurd shares Shares.not_nil
termination_by 32 * ts.length + 16
decreasing_by all_goals (subst_vars; (try simp only [List.length_cons]); omega)

theorem infixChain_local {n : Nat} (bound : n ≤ 5) {ts ts' rest' : List Token} {opened : Nat}
    {errors : Array Fault} {r : Reading ts} (parsed : infixChain n ts opened errors = .ok r)
    (shares : Shares ts ts' r.rest rest') :
    ∃ le, infixChain n ts' opened errors = .ok ⟨r.tree, rest', le, r.errors⟩ := by
  rw [infixChain] at parsed
  split at parsed
  · cases parsed
  · next left mid le errs first =>
    obtain ⟨r', tail, rfl⟩ := Outcome.widen_eq_ok parsed
    obtain ⟨b₁, whole, -⟩ := operand_derives bound first
    obtain ⟨b₂, second, -⟩ := infixTail_derives bound tail
    obtain ⟨outer, inner⟩ := shares.split whole second
    obtain ⟨le₁, first'⟩ := operand_local bound first outer
    obtain ⟨le₂, tail'⟩ := infixTail_local bound tail inner
    refine ⟨Nat.le_trans le₂ le₁, ?_⟩
    rw [infixChain, first']
    simp only [tail']
    rfl
termination_by 32 * ts.length + 2 * n + 4
decreasing_by all_goals (subst_vars; omega)

theorem operand_local {n : Nat} (bound : n ≤ 5) {ts ts' rest' : List Token} {opened : Nat}
    {errors : Array Fault} {r : Reading ts} (parsed : operand n ts opened errors = .ok r)
    (shares : Shares ts ts' r.rest rest') :
    ∃ le, operand n ts' opened errors = .ok ⟨r.tree, rest', le, r.errors⟩ := by
  unfold operand at parsed
  split at parsed
  · rw [operand]
    exact unary_local parsed shares
  · rw [operand]
    exact infixChain_local (by omega) parsed shares
termination_by 32 * ts.length + 2 * n + 3
decreasing_by all_goals (subst_vars; omega)

theorem infixTail_local {n : Nat} (bound : n ≤ 5) {left : Expr} {ts ts' rest' : List Token}
    {opened : Nat} {errors : Array Fault} {r : Reading ts}
    (parsed : infixTail n left ts opened errors = .ok r) (shares : Shares ts ts' r.rest rest') :
    ∃ le, infixTail n left ts' opened errors = .ok ⟨r.tree, rest', le, r.errors⟩ := by
  unfold infixTail at parsed
  split at parsed
  · next t after =>
    obtain ⟨after', rfl⟩ := shares.cons
    split at parsed
    · next isOperator =>
      split at parsed
      · cases parsed
      · next right mid le errs read =>
        obtain ⟨r', tail, rfl⟩ := Outcome.widen_eq_ok parsed
        obtain ⟨b₁, whole, -⟩ := operand_derives bound read
        obtain ⟨b₂, second, -⟩ := infixTail_derives bound tail
        obtain ⟨outer, inner⟩ := (shares.tail (Nat.le_trans r'.le le)).split whole second
        obtain ⟨le₁, read'⟩ := operand_local bound read outer
        obtain ⟨le₂, tail'⟩ := infixTail_local bound tail inner
        refine ⟨Nat.le_succ_of_le (Nat.le_trans le₂ le₁), ?_⟩
        simp only [infixTail, isOperator, if_true, read', tail']
        rfl
    · next notOperator =>
      cases parsed
      obtain rfl := shares.same
      exact ⟨Nat.le_refl _, by simp only [infixTail, notOperator, Bool.false_eq_true, if_false]⟩
  · exact absurd shares Shares.not_nil
termination_by 32 * ts.length + 2 * n + 3
decreasing_by all_goals (subst_vars; (try simp only [List.length_cons]); omega)

theorem unary_local {ts ts' rest' : List Token} {opened : Nat} {errors : Array Fault}
    {r : Reading ts} (parsed : unary ts opened errors = .ok r)
    (shares : Shares ts ts' r.rest rest') :
    ∃ le, unary ts' opened errors = .ok ⟨r.tree, rest', le, r.errors⟩ := by
  unfold unary at parsed
  split at parsed
  · next t after =>
    obtain ⟨after', rfl⟩ := shares.cons
    split at parsed
    · next isUnary =>
      split at parsed
      · cases parsed
      · next room =>
        split at parsed
        · cases parsed
        · next operand mid le errs read =>
          cases parsed
          obtain ⟨le', read'⟩ := unary_local read (shares.tail le)
          exact ⟨Nat.le_succ_of_le le', by simp only [unary, isUnary, if_true, room, read']⟩
    · next notUnary =>
      obtain ⟨le, read⟩ := call_local parsed shares
      exact ⟨le, by simp only [unary, notUnary, if_false]; exact read⟩
  · exact absurd shares Shares.not_nil
termination_by 32 * ts.length + 2
decreasing_by all_goals (subst_vars; (try simp only [List.length_cons]); omega)

theorem call_local {ts ts' rest' : List Token} {opened : Nat} {errors : Array Fault}
    {r : Reading ts} (parsed : call ts opened errors = .ok r)
    (shares : Shares ts ts' r.rest rest') :
    ∃ le, call ts' opened errors = .ok ⟨r.tree, rest', le, r.errors⟩ := by
  rw [call] at parsed
  split at parsed
  · cases parsed
  · next callee mid le errs read =>
    obtain ⟨r', tail, rfl⟩ := Outcome.widen_eq_ok parsed
    obtain ⟨b₁, first, -⟩ := primary_derives read
    obtain ⟨b₂, second, -⟩ := callTail_derives tail
    obtain ⟨outer, inner⟩ := shares.split first second
    obtain ⟨le₁, read'⟩ := primary_local read outer
    obtain ⟨le₂, tail'⟩ := callTail_local tail inner
    refine ⟨Nat.le_trans le₂ le₁, ?_⟩
    rw [call, read']
    simp only [tail']
    rfl
termination_by 32 * ts.length + 1
decreasing_by all_goals (subst_vars; omega)

theorem callTail_local {callee : Expr} {ts ts' rest' : List Token} {opened : Nat}
    {errors : Array Fault} {r : Reading ts} (parsed : callTail callee ts opened errors = .ok r)
    (shares : Shares ts ts' r.rest rest') :
    ∃ le, callTail callee ts' opened errors = .ok ⟨r.tree, rest', le, r.errors⟩ := by
  unfold callTail at parsed
  split at parsed
  · next t after =>
    obtain ⟨after', rfl⟩ := shares.cons
    split at parsed
    · next isOpen =>
      split at parsed
      · cases parsed
      · next room =>
        split at parsed
        · cases parsed
        · next args mid le errs listed =>
          split at parsed
          · next p more bound =>
            split at parsed
            · next isClose =>
              obtain ⟨r', tail, rfl⟩ := Outcome.widen_eq_ok parsed
              have shorter := Nat.lt_of_lt_of_le (Nat.lt_succ_self _) bound
              obtain ⟨b₁, first, -⟩ := argumentList_derives listed
              obtain ⟨b₂, second, -⟩ := callTail_derives tail
              have within : r'.rest.length ≤ after.length := by
                have := r'.le
                simp only [List.length_cons] at bound
                omega
              obtain ⟨outer, inner⟩ :=
                (shares.tail within).split first
                  (show p :: more = (p :: b₂) ++ r'.rest from congrArg (p :: ·) second)
              obtain ⟨le₁, listed'⟩ := argumentList_local listed outer
              have inner' : Shares more (b₂ ++ rest') r'.rest rest' := inner.tail r'.le
              obtain ⟨le₂, tail'⟩ := callTail_local tail inner'
              refine ⟨by simp only [List.length_cons, List.length_append] at le₁ ⊢; omega,
                ?_⟩
              simp only [callTail, isOpen, if_true, room, listed', List.cons_append, isClose,
                tail']
              rfl
            · cases parsed
          · cases parsed
    · next notOpen =>
      cases parsed
      obtain rfl := shares.same
      exact ⟨Nat.le_refl _, by simp only [callTail, notOpen, if_false]⟩
  · exact absurd shares Shares.not_nil
termination_by 32 * ts.length
decreasing_by all_goals (subst_vars; (try simp only [List.length_cons]); omega)

theorem argumentList_local {ts ts' rest' : List Token} {opened : Nat} {errors : Array Fault}
    {args : List Expr} {rest : { r : List Token // r.length ≤ ts.length }} {errs : Array Fault}
    (parsed : argumentList ts opened errors = .ok (args, rest, errs))
    (shares : Shares ts ts' rest.1 rest') :
    ∃ le, argumentList ts' opened errors = .ok (args, ⟨rest', le⟩, errs) := by
  have first := shares.peek_eq
  unfold argumentList at parsed
  split at parsed
  · next isClose =>
    cases parsed
    obtain rfl := shares.same
    exact ⟨Nat.le_refl _, by rw [argumentList]; simp only [← first, isClose, if_true]⟩
  · next notClose =>
    obtain ⟨le, read⟩ := arguments_local parsed shares
    exact ⟨le, by rw [argumentList]; simp only [← first, notClose, if_false]; exact read⟩
termination_by 32 * ts.length + 19
decreasing_by all_goals omega

theorem arguments_local {count : Nat} {ts ts' rest' : List Token} {opened : Nat}
    {errors : Array Fault} {args : List Expr} {rest : { r : List Token // r.length ≤ ts.length }}
    {errs : Array Fault} (parsed : arguments count ts opened errors = .ok (args, rest, errs))
    (shares : Shares ts ts' rest.1 rest') :
    ∃ le, arguments count ts' opened errors = .ok (args, ⟨rest', le⟩, errs) := by
  -- the error for one argument too many stands at the first token, the same in both inputs
  have first := shares.peek_eq
  unfold arguments at parsed ⊢
  dsimp only at parsed ⊢
  rw [← first]
  generalize (if maxArguments ≤ count then
    errors.push (Problem.tooManyArguments.raiseAt (peek ts)) else errors) = counted at parsed ⊢
  split at parsed
  · cases parsed
  · next arg mid le errs₁ read =>
    obtain ⟨b₁, whole, -⟩ := assignment_derives read
    split at parsed
    · next c more bound =>
      have shorter := Nat.lt_of_lt_of_le (Nat.lt_succ_self _) bound
      split at parsed
      · next isComma =>
        split at parsed
        · cases parsed
        · next args' after le' errs' others =>
          cases parsed
          obtain ⟨b₂, second, -⟩ := arguments_derives others
          obtain ⟨outer, inner⟩ := shares.split whole
            (show c :: more = (c :: b₂) ++ after from congrArg (c :: ·) second)
          obtain ⟨le₁, read'⟩ := assignment_local read outer
          have inner' : Shares more (b₂ ++ rest') after rest' := inner.tail le'
          obtain ⟨le₂, others'⟩ := arguments_local others inner'
          refine ⟨by simp only [List.length_append, List.length_cons] at le₁ ⊢; omega, ?_⟩
          simp only [read', List.cons_append, isComma, if_true, others']
      · next notComma =>
        cases parsed
        obtain ⟨more', rfl⟩ := shares.head
        obtain ⟨le₁, read'⟩ := assignment_local read shares
        exact ⟨le₁, by simp only [read', notComma, if_false]⟩
    · cases parsed
      obtain ⟨-, -, -, nonempty, -⟩ := shares
      exact absurd rfl nonempty
termination_by 32 * ts.length + 18
decreasing_by all_goals (subst_vars; omega)

theorem primary_local {ts ts' rest' : List Token} {opened : Nat} {errors : Array Fault}
    {r : Reading ts} (parsed : primary ts opened errors = .ok r)
    (shares : Shares ts ts' r.rest rest') :
    ∃ le, primary ts' opened errors = .ok ⟨r.tree, rest', le, r.errors⟩ := by
  unfold primary at parsed
  split at parsed
  · next t after =>
    obtain ⟨after', rfl⟩ := shares.cons
    dsimp only at parsed
    split at parsed
    case h_7 isOpen =>
      split at parsed
      · cases parsed
      · next room =>
        split at parsed
        · cases parsed
        · next inner mid le errs grouped =>
          split at parsed
          · next p more bound =>
            split at parsed
            · next isClose =>
              cases parsed
              obtain ⟨b, whole, -⟩ := assignment_derives grouped
              have within : more.length ≤ after.length := by
                simp only [List.length_cons] at bound
                omega
              obtain ⟨outer, -⟩ :=
                (shares.tail within).split whole (show p :: more = [p] ++ more from rfl)
              obtain ⟨le₁, grouped'⟩ := assignment_local grouped outer
              refine ⟨by simp only [List.length_cons, List.length_append] at le₁ ⊢; omega,
                ?_⟩
              simp only [primary, isOpen, room, grouped', List.singleton_append, isClose, if_true]
            · cases parsed
          · cases parsed
    case h_8 => cases parsed
    all_goals
      cases parsed
      obtain rfl := (shares.tail (Nat.le_refl _)).same
      exact ⟨Nat.le_succ _, by simp only [primary, *]⟩
  · exact absurd shares Shares.not_nil
termination_by 32 * ts.length
decreasing_by all_goals (subst_vars; (try simp only [List.length_cons]); omega)

end

end Lox.Parse
