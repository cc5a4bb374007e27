import Lox.Proofs.Parse.Grammar
/-!
# What the parser reads is in the grammar

Two facts about every function of the descent, each proved by a recursion that follows the
parser's own. First, on success the parser has only added to the errors it was given, and only
recoverable ones: assignments to something other than a name, and arguments past the 255th
(`Parse.Records`). Second, a phrase read without adding an error is a phrase of the strict
grammar, and its tree fits the parser's limits (`assignment_sound`).

The binary levels of the parser are its table `Parse.level`; for the six levels the descent
uses, the table is the grammar's (`level_fst_eq`, `join_eq`).
-/

namespace Lox.Parse

open Grammar

/-- A reading of a suffix, widened to the whole list, has the same tree, rest and errors. -/
theorem Outcome.widen_eq_ok {ts ts' : List Token} {o : Outcome ts'} {h : ts'.length ≤ ts.length}
    {r : Reading ts} (widened : o.widen h = .ok r) : ∃ r', o = .ok r' ∧ r = r'.widen h := by
  cases o with
  | error e => cases widened
  | ok r' =>
    cases widened
    exact ⟨r', rfl, rfl⟩

@[simp] theorem Reading.widen_tree {ts ts' : List Token} (r : Reading ts')
    (h : ts'.length ≤ ts.length) : (r.widen h).tree = r.tree := rfl

@[simp] theorem Reading.widen_rest {ts ts' : List Token} (r : Reading ts')
    (h : ts'.length ≤ ts.length) : (r.widen h).rest = r.rest := rfl

@[simp] theorem Reading.widen_errors {ts ts' : List Token} (r : Reading ts')
    (h : ts'.length ≤ ts.length) : (r.widen h).errors = r.errors := rfl

/-- Opening a construct fails exactly when `maxOpen` are open already. -/
theorem opening_eq_none {opened : Nat} {site : Token} {errors : Array Fault} :
    opening opened site errors = none ↔ opened < maxOpen := by
  unfold opening
  split <;> simp <;> omega

theorem level_fst_eq : ∀ {n : Nat}, n ≤ 5 → (level n).1 = operators n
  | 0, _ | 1, _ | 2, _ | 3, _ | 4, _ | 5, _ => rfl
  | _ + 6, bound => absurd bound (by omega)

theorem join_eq : ∀ {n : Nat}, n ≤ 5 → join n = node n
  | 0, _ | 1, _ | 2, _ | 3, _ | 4, _ | 5, _ => rfl
  | _ + 6, bound => absurd bound (by omega)

/-! ## Recorded errors -/

/-- A fault the parser records and reads on after: an assignment to something other than a
name, or an argument past the 255th. At which tokens and in which order a reading records them
is told by the recovery grammar (`Grammar.Recovery.Assignment`). -/
def Recoverable (f : Fault) : Prop :=
  ∃ t, f = Problem.invalidAssignmentTarget.raiseAt t ∨ f = Problem.tooManyArguments.raiseAt t

/-- `after` is `before` followed by recoverable faults. -/
def Records (before after : Array Fault) : Prop :=
  ∃ extra : List Fault, after.toList = before.toList ++ extra ∧ ∀ f ∈ extra, Recoverable f

theorem Records.refl (errors : Array Fault) : Records errors errors :=
  ⟨[], by simp, by simp⟩

theorem Records.trans {a b c : Array Fault} (first : Records a b) (second : Records b c) :
    Records a c := by
  obtain ⟨x, grown, recoverable⟩ := first
  obtain ⟨y, grown', recoverable'⟩ := second
  refine ⟨x ++ y, by rw [grown', grown, List.append_assoc], ?_⟩
  intro f member
  rcases List.mem_append.mp member with early | late
  · exact recoverable f early
  · exact recoverable' f late

theorem Records.push {a b : Array Fault} {f : Fault} (recorded : Records a b)
    (recoverable : Recoverable f) : Records a (b.push f) := by
  obtain ⟨x, grown, recoverable'⟩ := recorded
  refine ⟨x ++ [f], by simp [grown], ?_⟩
  intro g member
  rcases List.mem_append.mp member with early | last
  · exact recoverable' g early
  · rw [List.mem_singleton.mp last]
    exact recoverable

theorem Records.size_le {a b : Array Fault} (recorded : Records a b) : a.size ≤ b.size := by
  obtain ⟨x, grown, _⟩ := recorded
  have lengths := congrArg List.length grown
  simp only [Array.length_toList, List.length_append] at lengths
  omega

/-- The errors `arguments` starts from: those it was given, and one more for an argument past
the 255th. -/
theorem Records.counted (count : Nat) (ts : List Token) (errors : Array Fault) :
    Records errors (if maxArguments ≤ count then
      errors.push (Problem.tooManyArguments.raiseAt (peek ts)) else errors) := by
  split
  · exact (Records.refl _).push ⟨_, Or.inr rfl⟩
  · exact Records.refl _

mutual

theorem assignment_records {ts : List Token} {opened : Nat} {errors : Array Fault}
    {r : Reading ts} (parsed : assignment ts opened errors = .ok r) : Records errors r.errors := by
  rw [assignment] at parsed
  split at parsed
  · cases parsed
  · next left rest le errs chained =>
    obtain ⟨r', tail, rfl⟩ := Outcome.widen_eq_ok parsed
    rw [Reading.widen_errors]
    exact (infixChain_records chained).trans (assignTail_records tail)
termination_by 32 * ts.length + 17
decreasing_by all_goals (subst_vars; omega)

theorem assignTail_records {left : Expr} {ts : List Token} {opened : Nat} {errors : Array Fault}
    {r : Reading ts} (parsed : assignTail left ts opened errors = .ok r) :
    Records errors r.errors := by
  unfold assignTail at parsed
  split at parsed
  · split at parsed
    · split at parsed
      · cases parsed
      · split at parsed
        · cases parsed
        · next value rest le errs valued =>
          split at parsed
          · cases parsed
            exact (assignment_records valued :)
          · cases parsed
            exact (assignment_records valued).push ⟨_, Or.inl rfl⟩
    · cases parsed
      exact Records.refl _
  · cases parsed
    exact Records.refl _
termination_by 32 * ts.length + 16
decreasing_by all_goals (subst_vars; (try simp only [List.length_cons]); omega)

theorem infixChain_records {n : Nat} {ts : List Token} {opened : Nat} {errors : Array Fault}
    {r : Reading ts} (parsed : infixChain n ts opened errors = .ok r) :
    Records errors r.errors := by
  rw [infixChain] at parsed
  split at parsed
  · cases parsed
  · next left rest le errs first =>
    obtain ⟨r', tail, rfl⟩ := Outcome.widen_eq_ok parsed
    rw [Reading.widen_errors]
    exact (operand_records first).trans (infixTail_records tail)
termination_by 32 * ts.length + 2 * n + 4
decreasing_by all_goals (subst_vars; omega)

theorem operand_records {n : Nat} {ts : List Token} {opened : Nat} {errors : Array Fault}
    {r : Reading ts} (parsed : operand n ts opened errors = .ok r) : Records errors r.errors := by
  unfold operand at parsed
  split at parsed
  · exact unary_records parsed
  · exact infixChain_records parsed
termination_by 32 * ts.length + 2 * n + 3
decreasing_by all_goals (subst_vars; omega)

theorem infixTail_records {n : Nat} {left : Expr} {ts : List Token} {opened : Nat}
    {errors : Array Fault} {r : Reading ts} (parsed : infixTail n left ts opened errors = .ok r) :
    Records errors r.errors := by
  unfold infixTail at parsed
  split at parsed
  · split at parsed
    · split at parsed
      · cases parsed
      · next right mid le errs read =>
        obtain ⟨r', tail, rfl⟩ := Outcome.widen_eq_ok parsed
        rw [Reading.widen_errors]
        exact (operand_records read).trans (infixTail_records tail)
    · cases parsed
      exact Records.refl _
  · cases parsed
    exact Records.refl _
termination_by 32 * ts.length + 2 * n + 3
decreasing_by all_goals (subst_vars; (try simp only [List.length_cons]); omega)

theorem unary_records {ts : List Token} {opened : Nat} {errors : Array Fault} {r : Reading ts}
    (parsed : unary ts opened errors = .ok r) : Records errors r.errors := by
  unfold unary at parsed
  split at parsed
  · split at parsed
    · split at parsed
      · cases parsed
      · split at parsed
        · cases parsed
        · next operand rest le errs read =>
          cases parsed
          exact (unary_records read :)
    · exact call_records parsed
  · exact call_records parsed
termination_by 32 * ts.length + 2
decreasing_by all_goals (subst_vars; (try simp only [List.length_cons]); omega)

theorem call_records {ts : List Token} {opened : Nat} {errors : Array Fault} {r : Reading ts}
    (parsed : call ts opened errors = .ok r) : Records errors r.errors := by
  rw [call] at parsed
  split at parsed
  · cases parsed
  · next callee rest le errs first =>
    obtain ⟨r', tail, rfl⟩ := Outcome.widen_eq_ok parsed
    rw [Reading.widen_errors]
    exact (primary_records first).trans (callTail_records tail)
termination_by 32 * ts.length + 1
decreasing_by all_goals (subst_vars; omega)

theorem callTail_records {callee : Expr} {ts : List Token} {opened : Nat} {errors : Array Fault}
    {r : Reading ts} (parsed : callTail callee ts opened errors = .ok r) :
    Records errors r.errors := by
  unfold callTail at parsed
  split at parsed
  · split at parsed
    · split at parsed
      · cases parsed
      · split at parsed
        · cases parsed
        · next args rest le errs listed =>
          split at parsed
          · next p more bound =>
            split at parsed
            · obtain ⟨r', tail, rfl⟩ := Outcome.widen_eq_ok parsed
              rw [Reading.widen_errors]
              -- the closing parenthesis is taken, so the calls after it read fewer tokens
              have shorter := Nat.lt_of_lt_of_le (Nat.lt_succ_self _) bound
              exact (argumentList_records listed).trans (callTail_records tail)
            · cases parsed
          · cases parsed
    · cases parsed
      exact Records.refl _
  · cases parsed
    exact Records.refl _
termination_by 32 * ts.length
decreasing_by all_goals (subst_vars; (try simp only [List.length_cons]); omega)

theorem argumentList_records {ts : List Token} {opened : Nat} {errors : Array Fault}
    {args : List Expr} {rest : { r : List Token // r.length ≤ ts.length }} {errs : Array Fault}
    (parsed : argumentList ts opened errors = .ok (args, rest, errs)) : Records errors errs := by
  unfold argumentList at parsed
  split at parsed
  · cases parsed
    exact Records.refl _
  · exact (Records.counted 0 ts errors).trans (arguments_records parsed)
termination_by 32 * ts.length + 19
decreasing_by all_goals omega

/-- `arguments` records on top of the errors it starts from, which may already hold one for its
first argument. -/
theorem arguments_records {count : Nat} {ts : List Token} {opened : Nat} {errors : Array Fault}
    {args : List Expr} {rest : { r : List Token // r.length ≤ ts.length }} {errs : Array Fault}
    (parsed : arguments count ts opened errors = .ok (args, rest, errs)) :
    Records (if maxArguments ≤ count then
      errors.push (Problem.tooManyArguments.raiseAt (peek ts)) else errors) errs := by
  unfold arguments at parsed
  dsimp only at parsed
  generalize (if maxArguments ≤ count then
      errors.push (Problem.tooManyArguments.raiseAt (peek ts)) else errors) = counted at parsed ⊢
  split at parsed
  · cases parsed
  · next arg rest le errs first =>
    split at parsed
    · next c more bound =>
      have shorter := Nat.lt_of_lt_of_le (Nat.lt_succ_self _) bound
      split at parsed
      · split at parsed
        · cases parsed
        · next others =>
          cases parsed
          exact (assignment_records first).trans
            ((Records.counted _ _ _).trans (arguments_records others))
      · cases parsed
        exact (assignment_records first :)
    · cases parsed
      exact (assignment_records first :)
termination_by 32 * ts.length + 18
decreasing_by all_goals (subst_vars; omega)

theorem primary_records {ts : List Token} {opened : Nat} {errors : Array Fault} {r : Reading ts}
    (parsed : primary ts opened errors = .ok r) : Records errors r.errors := by
  unfold primary at parsed
  split at parsed
  · dsimp only at parsed
    split at parsed
    case h_7 =>
      split at parsed
      · cases parsed
      · split at parsed
        · cases parsed
        · next inner rest le errs grouped =>
          split at parsed
          · split at parsed
            · cases parsed
              exact (assignment_records grouped :)
            · cases parsed
          · cases parsed
    case h_8 => cases parsed
    all_goals
      cases parsed
      exact Records.refl _
  · cases parsed
termination_by 32 * ts.length
decreasing_by all_goals (subst_vars; (try simp only [List.length_cons]); omega)

end

/-! ## Soundness -/

mutual

/-- An assignment read without a new error is one of the strict grammar, and fits. -/
theorem assignment_sound {ts : List Token} {opened : Nat} {errors : Array Fault}
    {r : Reading ts} (parsed : assignment ts opened errors = .ok r)
    (clean : r.errors.size ≤ errors.size) :
    Assignment false ts r.tree r.rest ∧ Fits opened r.tree := by
  rw [assignment] at parsed
  split at parsed
  · cases parsed
  · next left rest le errs chained =>
    obtain ⟨r', tail, rfl⟩ := Outcome.widen_eq_ok parsed
    simp only [Reading.widen_errors, Reading.widen_tree, Reading.widen_rest] at clean ⊢
    have early := (infixChain_records chained).size_le
    have late := (assignTail_records tail).size_le
    obtain ⟨chain, fits⟩ := infixChain_sound (Nat.le_refl 5) chained (by dsimp only at *; omega)
    exact assignTail_sound chain fits tail (by dsimp only at *; omega)
termination_by 32 * ts.length + 17
decreasing_by all_goals (subst_vars; omega)

/-- After the left side `left` of an assignment, read from `whole`: a clean `=` and value make
an assignment to a name, and nothing more leaves the left side as it is. -/
theorem assignTail_sound {whole : List Token} {left : Expr} {ts : List Token} {opened : Nat}
    {errors : Array Fault} {r : Reading ts} (chain : Chain false 5 whole left ts)
    (fits : Fits opened left) (parsed : assignTail left ts opened errors = .ok r)
    (clean : r.errors.size ≤ errors.size) :
    Assignment false whole r.tree r.rest ∧ Fits opened r.tree := by
  unfold assignTail at parsed
  split at parsed
  · split at parsed
    · next isEqual =>
      split at parsed
      · cases parsed
      · next room =>
        split at parsed
        · cases parsed
        · next value rest le errs valued =>
          split at parsed
          · cases parsed
            obtain ⟨rfl, named⟩ := chain.of_var
            obtain ⟨assigns, valueFits⟩ := assignment_sound valued clean
            exact ⟨.assign named isEqual assigns,
              fits_assign.2 ⟨opening_eq_none.1 room, valueFits⟩⟩
          · -- a left side that is not a name records an error
            cases parsed
            have grown := (assignment_records valued).size_le
            simp only [Array.size_push] at clean grown
            omega
    · cases parsed
      exact ⟨.lone chain, fits⟩
  · cases parsed
    exact ⟨.lone chain, fits⟩
termination_by 32 * ts.length + 16
decreasing_by all_goals (subst_vars; (try simp only [List.length_cons]); omega)

theorem infixChain_sound {n : Nat} (bound : n ≤ 5) {ts : List Token} {opened : Nat}
    {errors : Array Fault} {r : Reading ts} (parsed : infixChain n ts opened errors = .ok r)
    (clean : r.errors.size ≤ errors.size) :
    Chain false n ts r.tree r.rest ∧ Fits opened r.tree := by
  rw [infixChain] at parsed
  split at parsed
  · cases parsed
  · next first rest le errs read =>
    obtain ⟨r', tail, rfl⟩ := Outcome.widen_eq_ok parsed
    simp only [Reading.widen_errors, Reading.widen_tree, Reading.widen_rest] at clean ⊢
    have early := (operand_records read).size_le
    have late := (infixTail_records tail).size_le
    obtain ⟨operand, firstFits⟩ := operand_sound bound read (by dsimp only at *; omega)
    obtain ⟨links, fits⟩ := infixTail_sound bound firstFits tail (by dsimp only at *; omega)
    exact ⟨.chain operand links, fits⟩
termination_by 32 * ts.length + 2 * n + 4
decreasing_by all_goals (subst_vars; omega)

theorem operand_sound {n : Nat} (bound : n ≤ 5) {ts : List Token} {opened : Nat}
    {errors : Array Fault} {r : Reading ts} (parsed : operand n ts opened errors = .ok r)
    (clean : r.errors.size ≤ errors.size) :
    Operand false n ts r.tree r.rest ∧ Fits opened r.tree := by
  unfold operand at parsed
  split at parsed
  · obtain ⟨phrase, fits⟩ := unary_sound parsed clean
    exact ⟨.unary phrase, fits⟩
  · obtain ⟨lower, fits⟩ := infixChain_sound (by omega) parsed clean
    exact ⟨.chain lower, fits⟩
termination_by 32 * ts.length + 2 * n + 3
decreasing_by all_goals (subst_vars; omega)

theorem infixTail_sound {n : Nat} (bound : n ≤ 5) {left : Expr} {ts : List Token} {opened : Nat}
    {errors : Array Fault} {r : Reading ts} (fits : Fits opened left)
    (parsed : infixTail n left ts opened errors = .ok r) (clean : r.errors.size ≤ errors.size) :
    Links false n left ts r.tree r.rest ∧ Fits opened r.tree := by
  unfold infixTail at parsed
  split at parsed
  · next t after =>
    split at parsed
    · next isOperator =>
      split at parsed
      · cases parsed
      · next right mid le errs read =>
        obtain ⟨r', tail, rfl⟩ := Outcome.widen_eq_ok parsed
        simp only [Reading.widen_errors, Reading.widen_tree, Reading.widen_rest] at clean ⊢
        have early := (operand_records read).size_le
        have late := (infixTail_records tail).size_le
        obtain ⟨operand, rightFits⟩ := operand_sound bound read (by dsimp only at *; omega)
        rw [join_eq bound] at tail
        obtain ⟨links, fits'⟩ := infixTail_sound bound (fits_node.2 ⟨fits, rightFits⟩) tail
          (by dsimp only at *; omega)
        have member : t.kind ∈ operators n := by
          simpa [level_fst_eq bound] using isOperator
        exact ⟨.link member operand links, fits'⟩
    · cases parsed
      exact ⟨.done, fits⟩
  · cases parsed
    exact ⟨.done, fits⟩
termination_by 32 * ts.length + 2 * n + 3
decreasing_by all_goals (subst_vars; (try simp only [List.length_cons]); omega)

theorem unary_sound {ts : List Token} {opened : Nat} {errors : Array Fault} {r : Reading ts}
    (parsed : unary ts opened errors = .ok r) (clean : r.errors.size ≤ errors.size) :
    Unary false ts r.tree r.rest ∧ Fits opened r.tree := by
  unfold unary at parsed
  split at parsed
  · split at parsed
    · next isUnary =>
      split at parsed
      · cases parsed
      · next room =>
        split at parsed
        · cases parsed
        · next operand rest le errs read =>
          cases parsed
          obtain ⟨phrase, fits⟩ := unary_sound read clean
          exact ⟨.op isUnary phrase, fits_unary.2 ⟨opening_eq_none.1 room, fits⟩⟩
    · obtain ⟨calls, fits⟩ := call_sound parsed clean
      exact ⟨.call calls, fits⟩
  · obtain ⟨calls, fits⟩ := call_sound parsed clean
    exact ⟨.call calls, fits⟩
termination_by 32 * ts.length + 2
decreasing_by all_goals (subst_vars; (try simp only [List.length_cons]); omega)

theorem call_sound {ts : List Token} {opened : Nat} {errors : Array Fault} {r : Reading ts}
    (parsed : call ts opened errors = .ok r) (clean : r.errors.size ≤ errors.size) :
    Calls false ts r.tree r.rest ∧ Fits opened r.tree := by
  rw [call] at parsed
  split at parsed
  · cases parsed
  · next callee rest le errs read =>
    obtain ⟨r', tail, rfl⟩ := Outcome.widen_eq_ok parsed
    simp only [Reading.widen_errors, Reading.widen_tree, Reading.widen_rest] at clean ⊢
    have early := (primary_records read).size_le
    have late := (callTail_records tail).size_le
    obtain ⟨primary, calleeFits⟩ := primary_sound read (by dsimp only at *; omega)
    obtain ⟨suffixes, fits⟩ := callTail_sound calleeFits tail (by dsimp only at *; omega)
    exact ⟨.calls primary suffixes, fits⟩
termination_by 32 * ts.length + 1
decreasing_by all_goals (subst_vars; omega)

theorem callTail_sound {callee : Expr} {ts : List Token} {opened : Nat} {errors : Array Fault}
    {r : Reading ts} (fits : Fits opened callee)
    (parsed : callTail callee ts opened errors = .ok r) (clean : r.errors.size ≤ errors.size) :
    Suffixes false callee ts r.tree r.rest ∧ Fits opened r.tree := by
  unfold callTail at parsed
  split at parsed
  · next t after =>
    split at parsed
    · next isOpen =>
      split at parsed
      · cases parsed
      · next room =>
        split at parsed
        · cases parsed
        · next args rest le errs listed =>
          split at parsed
          · next p more bound =>
            split at parsed
            · next isClose =>
              obtain ⟨r', tail, rfl⟩ := Outcome.widen_eq_ok parsed
              simp only [Reading.widen_errors, Reading.widen_tree, Reading.widen_rest] at clean ⊢
              have shorter := Nat.lt_of_lt_of_le (Nat.lt_succ_self _) bound
              have early := (argumentList_records listed).size_le
              have late := (callTail_records tail).size_le
              obtain ⟨shape, count, argsFit⟩ := argumentList_sound listed (by omega)
              have callFits : Fits opened (.call callee p args) :=
                fits_call.2 ⟨fits, opening_eq_none.1 room, count, argsFit⟩
              obtain ⟨suffixes, fits'⟩ := callTail_sound callFits tail (by omega)
              rcases shape with ⟨rfl, same⟩ | listed
              · rw [show after = p :: more from same.symm]
                exact ⟨.empty isOpen isClose suffixes, fits'⟩
              · exact ⟨.call isOpen listed isClose suffixes, fits'⟩
            · cases parsed
          · cases parsed
    · cases parsed
      exact ⟨.done, fits⟩
  · cases parsed
    exact ⟨.done, fits⟩
termination_by 32 * ts.length
decreasing_by all_goals (subst_vars; (try simp only [List.length_cons]); omega)

/-- An argument list read without a new error is empty, before `)`, or arguments of the strict
grammar; there are few enough of them and each fits. -/
theorem argumentList_sound {ts : List Token} {opened : Nat} {errors : Array Fault}
    {args : List Expr} {rest : { r : List Token // r.length ≤ ts.length }} {errs : Array Fault}
    (parsed : argumentList ts opened errors = .ok (args, rest, errs))
    (clean : errs.size ≤ errors.size) :
    (args = [] ∧ rest.1 = ts ∨ Arguments false ts args rest.1) ∧
      args.length ≤ maxArguments ∧ ∀ arg ∈ args, Fits opened arg := by
  unfold argumentList at parsed
  split at parsed
  · cases parsed
    exact ⟨.inl ⟨rfl, rfl⟩, by simp [maxArguments], by simp⟩
  · obtain ⟨listed, count, fits⟩ := arguments_sound parsed clean
    exact ⟨.inr listed, by omega, fits⟩
termination_by 32 * ts.length + 19
decreasing_by all_goals omega

theorem arguments_sound {count : Nat} {ts : List Token} {opened : Nat} {errors : Array Fault}
    {args : List Expr} {rest : { r : List Token // r.length ≤ ts.length }} {errs : Array Fault}
    (parsed : arguments count ts opened errors = .ok (args, rest, errs))
    (clean : errs.size ≤ errors.size) :
    Arguments false ts args rest.1 ∧ count + args.length ≤ maxArguments ∧
      ∀ arg ∈ args, Fits opened arg := by
  -- an argument past the 255th would have recorded an error
  have within : count < maxArguments := by
    have grown := (arguments_records parsed).size_le
    by_cases full : maxArguments ≤ count
    · simp only [full, if_true, Array.size_push] at grown
      omega
    · omega
  unfold arguments at parsed
  simp only [show ¬ maxArguments ≤ count by omega, if_false] at parsed
  split at parsed
  · cases parsed
  · next arg rest le errs first =>
    split at parsed
    · next c more bound =>
      have shorter := Nat.lt_of_lt_of_le (Nat.lt_succ_self _) bound
      split at parsed
      · next isComma =>
        split at parsed
        · cases parsed
        · next args rest' le' others =>
          cases parsed
          have early := (assignment_records first).size_le
          have late := ((Records.counted _ _ _).trans (arguments_records others)).size_le
          obtain ⟨assigns, argFits⟩ := assignment_sound first (by dsimp only at *; omega)
          obtain ⟨listed, counted, fits⟩ := arguments_sound others (by dsimp only at *; omega)
          exact ⟨.cons assigns isComma listed, by simp only [List.length_cons]; omega,
            List.forall_mem_cons.2 ⟨argFits, fits⟩⟩
      · cases parsed
        obtain ⟨assigns, fits⟩ := assignment_sound first clean
        exact ⟨.last assigns, by simp; omega, by simpa using fits⟩
    · cases parsed
      obtain ⟨assigns, fits⟩ := assignment_sound first clean
      exact ⟨.last assigns, by simp; omega, by simpa using fits⟩
termination_by 32 * ts.length + 18
decreasing_by all_goals (subst_vars; omega)

theorem primary_sound {ts : List Token} {opened : Nat} {errors : Array Fault} {r : Reading ts}
    (parsed : primary ts opened errors = .ok r) (clean : r.errors.size ≤ errors.size) :
    Primary false ts r.tree r.rest ∧ Fits opened r.tree := by
  unfold primary at parsed
  split at parsed
  · dsimp only at parsed
    split at parsed
    · next isFalse =>
      cases parsed
      exact ⟨.falseWord isFalse, fits_literal⟩
    · next isTrue =>
      cases parsed
      exact ⟨.trueWord isTrue, fits_literal⟩
    · next isNil =>
      cases parsed
      exact ⟨.nilWord isNil, fits_literal⟩
    · next isNumber =>
      cases parsed
      exact ⟨.number isNumber, fits_literal⟩
    · next isString =>
      cases parsed
      exact ⟨.string isString, fits_literal⟩
    · next isName =>
      cases parsed
      exact ⟨.identifier isName, fits_var⟩
    · next isOpen =>
      split at parsed
      · cases parsed
      · next room =>
        split at parsed
        · cases parsed
        · next inner rest le errs grouped =>
          split at parsed
          · split at parsed
            · next isClose =>
              cases parsed
              obtain ⟨assigns, fits⟩ := assignment_sound grouped clean
              exact ⟨.group isOpen assigns isClose,
                fits_grouping.2 ⟨opening_eq_none.1 room, fits⟩⟩
            · cases parsed
          · cases parsed
    · cases parsed
  · cases parsed
termination_by 32 * ts.length
decreasing_by all_goals (subst_vars; (try simp only [List.length_cons]); omega)

end

end Lox.Parse
