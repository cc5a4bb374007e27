import Lox.Proofs.Parse.Recognize
/-!
# Where the parser stops

A fatal error ends the descent at once. This module describes such a failure from inside each
reading function (`Abort`): the fault is the last error, after only recoverable ones; it stands at
a token `t` after the tokens `pre`; whatever follows `t` does not change it; the tokens `pre`
begin a phrase within the room left; and a construct one too many is opened by `t` itself, which
begins a phrase given one more unit of room.
-/

namespace Lox

/-- The problems of a token that the grammar does not allow where it stands: no expression where
one must begin, a parenthesis left open, or tokens after the whole. -/
def Problem.Misplaced : Problem → Prop
  | .expectExpression | .unclosedGroup | .unclosedArguments | .expectEndOfExpression => True
  | _ => False

theorem Problem.misplaced_iff {p : Problem} :
    p.Misplaced ↔ p = .expectExpression ∨ p = .unclosedGroup ∨ p = .unclosedArguments ∨
      p = .expectEndOfExpression := by
  cases p <;> simp [Problem.Misplaced]

namespace Parse

open Grammar

/-- The list holds an `EOF`, which no phrase takes, so the parser never runs out of tokens. -/
def Ended (ts : List Token) : Prop :=
  ∃ t ∈ ts, t.kind = .eof

theorem Ended.drop {ts body rest : List Token} (ended : Ended ts) (whole : ts = body ++ rest)
    (noEnd : ∀ t ∈ body, t.kind ≠ .eof) : Ended rest := by
  obtain ⟨t, member, isEnd⟩ := ended
  rw [whole] at member
  rcases List.mem_append.mp member with inBody | inRest
  · exact absurd isEnd (noEnd t inBody)
  · exact ⟨t, inRest, isEnd⟩

theorem Ended.tail {t : Token} {after : List Token} (ended : Ended (t :: after))
    (notEnd : t.kind ≠ .eof) : Ended after :=
  ended.drop (show t :: after = [t] ++ after from rfl) (by simpa using notEnd)

theorem Ended.ne_nil {ts : List Token} (ended : Ended ts) : ts ≠ [] := by
  rintro rfl
  obtain ⟨_, member, _⟩ := ended
  simp at member

/-- How a reading of a phrase of `s` failed, from the errors `errors` to `errs`, at the token `t`
after the tokens `pre`, with the problem `p`. -/
structure Abort {β : List Token → Type}
    (run : (ts : List Token) → Except (Array Fault) (β ts))
    (s : Phrase) (room : Nat) (errors errs : Array Fault) (pre : List Token) (t : Token)
    (p : Problem) : Prop where
  /-- The errors added are recoverable ones, then the fault of `p` at `t`. -/
  faults : ∃ kept, errs = kept.push (p.raiseAt t) ∧ Records errors kept
  /-- The problem is a misplaced token or one construct too many. -/
  fatal : p.Misplaced ∨ p = .nestedTooDeeply
  /-- Nothing after `t` is read. -/
  blind : ∀ post, run (pre ++ t :: post) = .error errs
  /-- The tokens before `t` begin a phrase within the room. -/
  begun : Begins s room pre
  /-- One construct too many is opened by `t`, which continues the phrase given more room. -/
  overflow : p = .nestedTooDeeply → t.kind ∈ openerKinds ∧ Begins s (room + 1) (pre ++ [t])

theorem faults_trans {errors errs₁ errs : Array Fault} {f : Fault}
    (first : Records errors errs₁)
    (faults : ∃ kept, errs = kept.push f ∧ Records errs₁ kept) :
    ∃ kept, errs = kept.push f ∧ Records errors kept :=
  let ⟨kept, same, recorded⟩ := faults
  ⟨kept, same, first.trans recorded⟩

theorem head?_append_cons (pre : List Token) (t : Token) (post post' : List Token) :
    (pre ++ t :: post).head? = (pre ++ t :: post').head? := by
  cases pre <;> rfl

theorem peek_append_cons (pre : List Token) (t : Token) (post post' : List Token) :
    peek (pre ++ t :: post) = peek (pre ++ t :: post') := by
  cases pre <;> rfl

/-- A list that begins with `t` and holds `t'` after `pre` still begins with `t` when what
follows `t'` changes. -/
theorem cons_of_append_cons {t t' : Token} {after pre post : List Token}
    (whole : t :: after = pre ++ t' :: post) (post' : List Token) :
    ∃ rest, pre ++ t' :: post' = t :: rest := by
  cases pre with
  | nil =>
    simp only [List.nil_append, List.cons.injEq] at whole
    exact ⟨post', by rw [whole.1, List.nil_append]⟩
  | cons x xs =>
    simp only [List.cons_append, List.cons.injEq] at whole
    exact ⟨xs ++ t' :: post', by rw [whole.1, List.cons_append]⟩

/-- A reading that stopped inside the tokens after `body` agrees on everything it read. -/
theorem Shares.of_split {ts body mid pre post : List Token} {t : Token}
    (first : ts = body ++ mid) (whole : mid = pre ++ t :: post) (post' : List Token) :
    Shares ts (body ++ (pre ++ t :: post')) mid (pre ++ t :: post') :=
  ⟨body, first, rfl, by simp [whole], by rw [whole]; exact head?_append_cons pre t post post'⟩

/-- A reading followed by `t` agrees on everything up to `t`. -/
theorem Shares.of_head {ts body post : List Token} {t : Token} (first : ts = body ++ t :: post)
    (post' : List Token) : Shares ts (body ++ t :: post') (t :: post) (t :: post') :=
  ⟨body, first, rfl, List.cons_ne_nil _ _, rfl⟩

theorem Outcome.widen_eq_error {ts ts' : List Token} {o : Outcome ts'}
    {h : ts'.length ≤ ts.length} {e : Array Fault} (widened : o.widen h = .error e) :
    o = .error e := by
  cases o with
  | error e' => cases widened; rfl
  | ok r => cases widened

theorem primary_of_not_mem {t : Token} (other : t.kind ∉ primaryFirst) (rest : List Token)
    (opened : Nat) (errors : Array Fault) :
    primary (t :: rest) opened errors =
      .error (errors.push (Problem.expectExpression.raiseAt t)) := by
  unfold primary
  dsimp only
  split <;> simp_all [primaryFirst]

theorem opening_eq_some_iff {opened : Nat} {site : Token} {errors e : Array Fault} :
    opening opened site errors = some e ↔
      maxOpen ≤ opened ∧ e = errors.push (Problem.nestedTooDeeply.raiseAt site) := by
  unfold opening
  split
  · simp only [Option.some.injEq]
    exact ⟨fun same => ⟨by omega, same.symm⟩, fun ⟨_, same⟩ => same.symm⟩
  · simp only [reduceCtorEq, false_iff, not_and]
    intro full
    omega

/-- A failed opening: the construct at `t` is one too many. -/
theorem Abort.opening {β : List Token → Type}
    {run : (ts : List Token) → Except (Array Fault) (β ts)}
    {s : Phrase} {room : Nat} {errors : Array Fault} {t : Token}
    (blind : ∀ post, run (t :: post) = .error (errors.push (Problem.nestedTooDeeply.raiseAt t)))
    (opens : t.kind ∈ openerKinds) (begun : Begins s room []) (more : Begins s (room + 1) [t]) :
    Abort run s room errors (errors.push (Problem.nestedTooDeeply.raiseAt t)) [] t
      .nestedTooDeeply :=
  ⟨⟨errors, rfl, Records.refl _⟩, .inr rfl, blind, begun, fun _ => ⟨opens, more⟩⟩


/-- A misplaced token: the problem it raises ends the parse, wherever it stands. -/
theorem Abort.stray {β : List Token → Type}
    {run : (ts : List Token) → Except (Array Fault) (β ts)} {s : Phrase} {room : Nat}
    {errors errs : Array Fault} {pre : List Token} {t : Token} {p : Problem}
    (misplaced : p.Misplaced) (recorded : Records errors errs)
    (blind : ∀ post, run (pre ++ t :: post) = .error (errs.push (p.raiseAt t)))
    (begun : Begins s room pre) :
    Abort run s room errors (errs.push (p.raiseAt t)) pre t p :=
  ⟨⟨errs, rfl, recorded⟩, .inl misplaced, blind, begun,
    fun nested => by subst nested; exact (misplaced : False).elim⟩

/-- An abort inside a part is an abort of the whole: the errors recorded before the part are
kept, and the context turns whatever begins the part into what begins the whole, also with one
more construct open. -/
theorem Abort.within {β β' : List Token → Type}
    {run : (ts : List Token) → Except (Array Fault) (β ts)}
    {run' : (ts : List Token) → Except (Array Fault) (β' ts)} {s s' : Phrase} {room room' : Nat}
    {errors errors₁ errs : Array Fault} {pre pre' : List Token} {t : Token} {p : Problem}
    (abort : Abort run s room errors₁ errs pre t p) (recorded : Records errors errors₁)
    (blind : ∀ post, run' (pre' ++ t :: post) = .error errs)
    (lift : ∀ r more,
      Begins s (room + r) (pre ++ more) → Begins s' (room' + r) (pre' ++ more)) :
    Abort run' s' room' errors errs pre' t p :=
  ⟨faults_trans recorded abort.faults, abort.fatal, blind,
    by simpa using lift 0 [] (by simpa using abort.begun),
    fun nested => ⟨(abort.overflow nested).1, lift 1 [t] (abort.overflow nested).2⟩⟩

/-! ## Every failure is an abort

Each function of the parser fails only by an abort, found by following the failure down the
recursion: an opening past the limit, or a misplaced token. Where a part read before the
failure is kept, its tokens are prefixed and its errors kept, and the reading of the part is the
same whatever follows the failing token (the locality theorems). -/

mutual

theorem assignment_aborts {ts : List Token} {opened : Nat} {errors errs : Array Fault}
    (failed : assignment ts opened errors = .error errs) (ended : Ended ts) :
    ∃ pre t post p, ts = pre ++ t :: post ∧
      Abort (assignment · opened errors) .assignment (maxOpen - opened) errors errs pre t p := by
  rw [assignment] at failed
  split at failed
  · next e chained =>
    cases failed
    obtain ⟨pre, t, post, p, whole, abort⟩ := infixChain_aborts (Nat.le_refl 5) chained ended
    refine ⟨pre, t, post, p, whole, abort.within (Records.refl _) (fun post' => ?_)
      fun r more begun => begun.assignment_left⟩
    rw [assignment, abort.blind post']
  · next left mid le errs₁ chained =>
    obtain ⟨b, first, leftPhrase⟩ := infixChain_derives (Nat.le_refl 5) chained
    have first : ts = b ++ mid := first
    obtain ⟨pre, t, post, p, whole, abort⟩ :=
      assignTail_aborts (Outcome.widen_eq_error failed) (ended.drop first leftPhrase.noEnd)
    refine ⟨b ++ pre, t, post, p, by rw [first, whole, List.append_assoc],
      abort.within (infixChain_records chained) (fun post' => ?_) fun r more begun => ?_⟩
    · -- the left side reads the same, and what follows it fails the same
      obtain ⟨le', chained'⟩ :=
        infixChain_local (Nat.le_refl 5) chained (Shares.of_split first whole post')
      rw [List.append_assoc, assignment, chained']
      simp only [abort.blind post', Outcome.widen]
    · simpa only [List.append_assoc] using begun.assignment_right (leftPhrase.mono (by omega))
termination_by 32 * ts.length + 17
decreasing_by all_goals (subst_vars; omega)

theorem assignTail_aborts {left : Expr} {ts : List Token} {opened : Nat} {errors errs : Array Fault}
    (failed : assignTail left ts opened errors = .error errs) (ended : Ended ts) :
    ∃ pre t post p, ts = pre ++ t :: post ∧
      Abort (assignTail left · opened errors) .assignTail (maxOpen - opened) errors errs
        pre t p := by
  unfold assignTail at failed
  split at failed
  · next t after =>
    split at failed
    · next isEqual =>
      split at failed
      · next e room =>
        cases failed
        obtain ⟨full, rfl⟩ := opening_eq_some_iff.1 room
        refine ⟨[], t, after, _, rfl, Abort.opening (fun post => ?_)
          (by simp [isEqual, openerKinds]) (Begins.nil _ _)
          (Begins.assign isEqual (by omega) (Begins.nil _ _))⟩
        simp only [assignTail, isEqual, if_true, room]
      · next room =>
        have roomy := opening_eq_none.1 room
        split at failed
        · next e valued =>
          cases failed
          obtain ⟨pre, t', post, p, whole, abort⟩ :=
            assignment_aborts valued (ended.tail (by simp [isEqual]))
          refine ⟨t :: pre, t', post, p, by rw [whole]; rfl,
            abort.within (Records.refl _) (fun post' => ?_) fun r more begun => ?_⟩
          · rw [List.cons_append]
            simp only [assignTail, isEqual, if_true, room, abort.blind post']
          · refine Begins.assign isEqual (by omega) ?_
            rwa [show maxOpen - opened + r - 1 = maxOpen - (opened + 1) + r by omega]
        · -- the value was read, and whatever the left side, the reading goes through
          split at failed <;> cases failed
    · cases failed
  · cases failed
termination_by 32 * ts.length + 16
decreasing_by all_goals (subst_vars; (try simp only [List.length_cons]); omega)

theorem infixChain_aborts {n : Nat} (bound : n ≤ 5) {ts : List Token} {opened : Nat}
    {errors errs : Array Fault} (failed : infixChain n ts opened errors = .error errs)
    (ended : Ended ts) :
    ∃ pre t post p, ts = pre ++ t :: post ∧
      Abort (infixChain n · opened errors) (.infixChain n) (maxOpen - opened) errors errs
        pre t p := by
  rw [infixChain] at failed
  split at failed
  · next e first =>
    cases failed
    obtain ⟨pre, t, post, p, whole, abort⟩ := operand_aborts bound first ended
    refine ⟨pre, t, post, p, whole, abort.within (Records.refl _) (fun post' => ?_)
      fun r more begun => begun.infixChain_left⟩
    rw [infixChain, abort.blind post']
  · next left mid le errs₁ first =>
    obtain ⟨b, whole₁, leftPhrase⟩ := operand_derives bound first
    have whole₁ : ts = b ++ mid := whole₁
    obtain ⟨pre, t, post, p, whole, abort⟩ :=
      infixTail_aborts bound (Outcome.widen_eq_error failed) (ended.drop whole₁ leftPhrase.noEnd)
    refine ⟨b ++ pre, t, post, p, by rw [whole₁, whole, List.append_assoc],
      abort.within (operand_records first) (fun post' => ?_) fun r more begun => ?_⟩
    · obtain ⟨le', first'⟩ := operand_local bound first (Shares.of_split whole₁ whole post')
      rw [List.append_assoc, infixChain, first']
      simp only [abort.blind post', Outcome.widen]
    · simpa only [List.append_assoc] using begun.infixChain_right (leftPhrase.mono (by omega))
termination_by 32 * ts.length + 2 * n + 4
decreasing_by all_goals (subst_vars; omega)

theorem operand_aborts {n : Nat} (bound : n ≤ 5) {ts : List Token} {opened : Nat}
    {errors errs : Array Fault} (failed : operand n ts opened errors = .error errs)
    (ended : Ended ts) :
    ∃ pre t post p, ts = pre ++ t :: post ∧
      Abort (operand n · opened errors) (.operand n) (maxOpen - opened) errors errs pre t p := by
  unfold operand at failed
  split at failed
  · obtain ⟨pre, t, post, p, whole, abort⟩ := unary_aborts failed ended
    refine ⟨pre, t, post, p, whole, abort.within (Records.refl _) (fun post' => ?_)
      fun r more begun => begun.unaryOperand⟩
    rw [operand]
    exact abort.blind post'
  · obtain ⟨pre, t, post, p, whole, abort⟩ := infixChain_aborts (by omega) failed ended
    refine ⟨pre, t, post, p, whole, abort.within (Records.refl _) (fun post' => ?_)
      fun r more begun => begun.chainOperand⟩
    rw [operand]
    exact abort.blind post'
termination_by 32 * ts.length + 2 * n + 3
decreasing_by all_goals (subst_vars; omega)

theorem infixTail_aborts {n : Nat} (bound : n ≤ 5) {left : Expr} {ts : List Token} {opened : Nat}
    {errors errs : Array Fault} (failed : infixTail n left ts opened errors = .error errs)
    (ended : Ended ts) :
    ∃ pre t post p, ts = pre ++ t :: post ∧
      Abort (infixTail n left · opened errors) (.infixTail n) (maxOpen - opened) errors errs pre t
        p := by
  unfold infixTail at failed
  split at failed
  · next t after =>
    split at failed
    · next isOperator =>
      have member : t.kind ∈ operators n := by simpa [level_fst_eq bound] using isOperator
      have notEnd : t.kind ≠ .eof := fun isEnd => eof_not_mem_operators n (isEnd ▸ member)
      split at failed
      · next e read =>
        cases failed
        obtain ⟨pre, t', post, p, whole, abort⟩ := operand_aborts bound read (ended.tail notEnd)
        refine ⟨t :: pre, t', post, p, by rw [whole]; rfl, abort.within (Records.refl _)
          (fun post' => ?_) fun r more begun => begun.link_left member⟩
        rw [List.cons_append]
        simp only [infixTail, isOperator, if_true, abort.blind post']
      · next right mid le errs₁ read =>
        obtain ⟨b, first, rightPhrase⟩ := operand_derives bound read
        have first : after = b ++ mid := first
        obtain ⟨pre, t', post, p, whole, abort⟩ := infixTail_aborts bound
          (Outcome.widen_eq_error failed) ((ended.tail notEnd).drop first rightPhrase.noEnd)
        refine ⟨t :: (b ++ pre), t', post, p, by rw [first, whole]; simp,
          abort.within (operand_records read) (fun post' => ?_) fun r more begun => ?_⟩
        · obtain ⟨le', read'⟩ := operand_local bound read (Shares.of_split first whole post')
          rw [List.cons_append, List.append_assoc]
          simp only [infixTail, isOperator, if_true, read', abort.blind post', Outcome.widen]
        · simpa only [List.cons_append, List.append_assoc] using
            begun.link_right member (rightPhrase.mono (by omega))
    · cases failed
  · cases failed
termination_by 32 * ts.length + 2 * n + 3
decreasing_by all_goals (subst_vars; (try simp only [List.length_cons]); omega)

theorem unary_aborts {ts : List Token} {opened : Nat} {errors errs : Array Fault}
    (failed : unary ts opened errors = .error errs) (ended : Ended ts) :
    ∃ pre t post p, ts = pre ++ t :: post ∧
      Abort (unary · opened errors) .unary (maxOpen - opened) errors errs pre t p := by
  unfold unary at failed
  split at failed
  · next t after =>
    split at failed
    · next isUnary =>
      have notEnd : t.kind ≠ .eof := by rcases isUnary with isOp | isOp <;> simp [isOp]
      split at failed
      · next e room =>
        cases failed
        obtain ⟨full, rfl⟩ := opening_eq_some_iff.1 room
        refine ⟨[], t, after, _, rfl, Abort.opening (fun post => ?_)
          (by rcases isUnary with isOp | isOp <;> simp [isOp, openerKinds]) (Begins.nil _ _)
          (Begins.negate isUnary (by omega) (Begins.nil _ _))⟩
        simp only [unary, isUnary, if_true, room]
      · next room =>
        have roomy := opening_eq_none.1 room
        split at failed
        · next e read =>
          cases failed
          obtain ⟨pre, t', post, p, whole, abort⟩ := unary_aborts read (ended.tail notEnd)
          refine ⟨t :: pre, t', post, p, by rw [whole]; rfl,
            abort.within (Records.refl _) (fun post' => ?_) fun r more begun => ?_⟩
          · rw [List.cons_append]
            simp only [unary, isUnary, if_true, room, abort.blind post']
          · refine Begins.negate isUnary (by omega) ?_
            rwa [show maxOpen - opened + r - 1 = maxOpen - (opened + 1) + r by omega]
        · cases failed
    · next notUnary =>
      obtain ⟨pre, t', post, p, whole, abort⟩ := call_aborts failed ended
      refine ⟨pre, t', post, p, whole, abort.within (Records.refl _) (fun post' => ?_)
        fun r more begun => begun.call⟩
      -- the first token is still `t`, which is no unary operator
      obtain ⟨rest, same⟩ := cons_of_append_cons whole post'
      have blind := abort.blind post'
      rw [same] at blind ⊢
      simp only [unary, notUnary, if_false]
      exact blind
  · exact absurd rfl ended.ne_nil
termination_by 32 * ts.length + 2
decreasing_by all_goals (subst_vars; (try simp only [List.length_cons]); omega)

theorem call_aborts {ts : List Token} {opened : Nat} {errors errs : Array Fault}
    (failed : call ts opened errors = .error errs) (ended : Ended ts) :
    ∃ pre t post p, ts = pre ++ t :: post ∧
      Abort (call · opened errors) .call (maxOpen - opened) errors errs pre t p := by
  rw [call] at failed
  split at failed
  · next e read =>
    cases failed
    obtain ⟨pre, t, post, p, whole, abort⟩ := primary_aborts read ended
    refine ⟨pre, t, post, p, whole, abort.within (Records.refl _) (fun post' => ?_)
      fun r more begun => begun.callee_left⟩
    rw [call, abort.blind post']
  · next callee mid le errs₁ read =>
    obtain ⟨b, first, calleePhrase⟩ := primary_derives read
    have first : ts = b ++ mid := first
    obtain ⟨pre, t, post, p, whole, abort⟩ :=
      callTail_aborts (Outcome.widen_eq_error failed) (ended.drop first calleePhrase.noEnd)
    refine ⟨b ++ pre, t, post, p, by rw [first, whole, List.append_assoc],
      abort.within (primary_records read) (fun post' => ?_) fun r more begun => ?_⟩
    · obtain ⟨le', read'⟩ := primary_local read (Shares.of_split first whole post')
      rw [List.append_assoc, call, read']
      simp only [abort.blind post', Outcome.widen]
    · simpa only [List.append_assoc] using begun.callee_right (calleePhrase.mono (by omega))
termination_by 32 * ts.length + 1
decreasing_by all_goals (subst_vars; omega)

theorem callTail_aborts {callee : Expr} {ts : List Token} {opened : Nat}
    {errors errs : Array Fault} (failed : callTail callee ts opened errors = .error errs)
    (ended : Ended ts) :
    ∃ pre t post p, ts = pre ++ t :: post ∧
      Abort (callTail callee · opened errors) .callTail (maxOpen - opened) errors errs
        pre t p := by
  unfold callTail at failed
  split at failed
  · next t after =>
    split at failed
    · next isOpen =>
      have notEnd : t.kind ≠ .eof := by simp [isOpen]
      split at failed
      · next e room =>
        cases failed
        obtain ⟨full, rfl⟩ := opening_eq_some_iff.1 room
        refine ⟨[], t, after, _, rfl, Abort.opening (fun post => ?_)
          (by simp [isOpen, openerKinds]) (Begins.nil _ _)
          (Begins.suffix_left isOpen (by omega) (Begins.nil _ _))⟩
        simp only [callTail, isOpen, if_true, room]
      · next room =>
        have roomy := opening_eq_none.1 room
        split at failed
        · next e listed =>
          cases failed
          obtain ⟨pre, t', post, p, whole, abort⟩ :=
            argumentList_aborts listed (ended.tail notEnd)
          refine ⟨t :: pre, t', post, p, by rw [whole]; rfl,
            abort.within (Records.refl _) (fun post' => ?_) fun r more begun => ?_⟩
          · rw [List.cons_append]
            simp only [callTail, isOpen, if_true, room, abort.blind post']
          · refine Begins.suffix_left isOpen (by omega) ?_
            rwa [show maxOpen - opened + r - 1 = maxOpen - (opened + 1) + r by omega]
        · next args mid le errs₁ listed =>
          obtain ⟨b, first, argsPhrase⟩ := argumentList_derives listed
          have argsPhrase : Derives .argumentList (maxOpen - opened - 1) b := by
            rw [Nat.sub_sub]
            exact argsPhrase
          have endedMid : Ended mid := (ended.tail notEnd).drop first argsPhrase.noEnd
          split at failed
          · next p more bound =>
            have first : after = b ++ p :: more := first
            split at failed
            · next isClose =>
              obtain ⟨pre, t', post, q, whole, abort⟩ :=
                callTail_aborts (Outcome.widen_eq_error failed) (endedMid.tail (by simp [isClose]))
              have whole' : p :: more = (p :: pre) ++ t' :: post := by rw [whole]; rfl
              refine ⟨t :: (b ++ p :: pre), t', post, q, by rw [first, whole]; simp,
                abort.within (argumentList_records listed) (fun post' => ?_)
                  fun r more begun => ?_⟩
              · obtain ⟨le', listed'⟩ :=
                  argumentList_local listed (Shares.of_split first whole' post')
                rw [List.cons_append, List.append_assoc]
                simp only [callTail, isOpen, if_true, room, listed']
                simp only [List.cons_append, isClose, if_true, abort.blind post', Outcome.widen]
              · simpa only [List.cons_append, List.append_assoc] using
                  Begins.suffix_right isOpen (by omega) (argsPhrase.mono (by omega)) isClose begun
            · next notClose =>
              cases failed
              refine ⟨t :: b, p, more, .unclosedArguments, by rw [first]; rfl,
                Abort.stray trivial (argumentList_records listed) (fun post' => ?_)
                  (Begins.suffix_left isOpen (by omega) (Begins.of_derives argsPhrase))⟩
              obtain ⟨le', listed'⟩ := argumentList_local listed (Shares.of_head first post')
              rw [List.cons_append]
              simp only [callTail, isOpen, if_true, room, listed', notClose, if_false]
          · exact absurd rfl endedMid.ne_nil
    · cases failed
  · cases failed
termination_by 32 * ts.length
decreasing_by all_goals (subst_vars; (try simp only [List.length_cons, List.length_append]); omega)

theorem argumentList_aborts {ts : List Token} {opened : Nat} {errors errs : Array Fault}
    (failed : argumentList ts opened errors = .error errs) (ended : Ended ts) :
    ∃ pre t post p, ts = pre ++ t :: post ∧
      Abort (argumentList · opened errors) .argumentList (maxOpen - opened) errors errs
        pre t p := by
  unfold argumentList at failed
  split at failed
  · cases failed
  · next notClose =>
    obtain ⟨pre, t, post, p, whole, abort⟩ := arguments_aborts failed ended
    refine ⟨pre, t, post, p, whole, abort.within (Records.refl _) (fun post' => ?_)
      fun r more begun => begun.someArguments⟩
    -- the list is not empty, as its first token tells, the same in both inputs
    have same : peek (pre ++ t :: post') = peek ts := by
      rw [whole]
      exact peek_append_cons pre t post' post
    rw [argumentList]
    simp only [same, notClose, if_false]
    exact abort.blind post'
termination_by 32 * ts.length + 19
decreasing_by all_goals omega

theorem arguments_aborts {count : Nat} {ts : List Token} {opened : Nat}
    {errors errs : Array Fault} (failed : arguments count ts opened errors = .error errs)
    (ended : Ended ts) :
    ∃ pre t post p, ts = pre ++ t :: post ∧
      Abort (arguments count · opened errors) .arguments (maxOpen - opened) errors errs
        pre t p := by
  have counted := Records.counted count ts errors
  unfold arguments at failed
  dsimp only at failed
  split at failed
  · next e read =>
    cases failed
    obtain ⟨pre, t, post, p, whole, abort⟩ := assignment_aborts read ended
    refine ⟨pre, t, post, p, whole, abort.within counted (fun post' => ?_)
      fun r more begun => begun.lastArgument⟩
    -- the error for one argument too many stands at the first token, the same in both inputs
    have same : peek (pre ++ t :: post') = peek ts := by
      rw [whole]
      exact peek_append_cons pre t post' post
    rw [arguments, same, abort.blind post']
  · next arg rest le errs₁ read =>
    split at failed
    · next c more le' =>
      obtain ⟨b, first, argPhrase⟩ := assignment_derives read
      have first : ts = b ++ c :: more := first
      split at failed
      · next isComma =>
        split at failed
        · next e others =>
          cases failed
          obtain ⟨pre, t, post, p, whole, abort⟩ := arguments_aborts others
            ((ended.drop first argPhrase.noEnd).tail (by simp [isComma]))
          have whole' : c :: more = (c :: pre) ++ t :: post := by rw [whole]; rfl
          refine ⟨b ++ c :: pre, t, post, p, by rw [first, whole']; simp,
            abort.within (counted.trans (assignment_records read)) (fun post' => ?_)
              fun r more begun => ?_⟩
          · have shares := Shares.of_split first whole' post'
            obtain ⟨le', read'⟩ := assignment_local read shares
            rw [show (b ++ c :: pre) ++ t :: post' = b ++ ((c :: pre) ++ t :: post') by simp,
              arguments, ← shares.peek_eq, read']
            simp only [List.cons_append, isComma, if_true, abort.blind post']
          · simpa only [List.append_assoc, List.cons_append] using
              begun.nextArgument (argPhrase.mono (by omega)) isComma
        · cases failed
      · cases failed
    · cases failed
termination_by 32 * ts.length + 18
decreasing_by all_goals (subst_vars; (try simp only [List.length_cons, List.length_append]); omega)

theorem primary_aborts {ts : List Token} {opened : Nat} {errors errs : Array Fault}
    (failed : primary ts opened errors = .error errs) (ended : Ended ts) :
    ∃ pre t post p, ts = pre ++ t :: post ∧
      Abort (primary · opened errors) .primary (maxOpen - opened) errors errs pre t p := by
  match ts, ended with
  | [], ended => exact absurd rfl ended.ne_nil
  | t :: after, ended =>
    by_cases isOpen : t.kind = .leftParen
    · have notEnd : t.kind ≠ .eof := by simp [isOpen]
      simp only [primary, isOpen] at failed
      split at failed
      · next e room =>
        cases failed
        obtain ⟨full, rfl⟩ := opening_eq_some_iff.1 room
        refine ⟨[], t, after, _, rfl, Abort.opening (fun post => ?_)
          (by simp [isOpen, openerKinds]) (Begins.nil _ _)
          (Begins.group isOpen (by omega) (Begins.nil _ _))⟩
        simp only [primary, isOpen, room]
      · next room =>
        have roomy := opening_eq_none.1 room
        split at failed
        · next e inner =>
          cases failed
          obtain ⟨pre, t', post, p, whole, abort⟩ := assignment_aborts inner (ended.tail notEnd)
          refine ⟨t :: pre, t', post, p, by rw [whole]; rfl,
            abort.within (Records.refl _) (fun post' => ?_) fun r more begun => ?_⟩
          · rw [List.cons_append]
            simp only [primary, isOpen, room, abort.blind post']
          · refine Begins.group isOpen (by omega) ?_
            rwa [show maxOpen - opened + r - 1 = maxOpen - (opened + 1) + r by omega]
        · next inner mid le errs₁ read =>
          obtain ⟨b, first, innerPhrase⟩ := assignment_derives read
          have innerPhrase : Derives .assignment (maxOpen - opened - 1) b := by
            rw [Nat.sub_sub]
            exact innerPhrase
          have endedMid : Ended mid := (ended.tail notEnd).drop first innerPhrase.noEnd
          split at failed
          · next p more le' =>
            have first : after = b ++ p :: more := first
            split at failed
            · cases failed
            · next notClose =>
              cases failed
              refine ⟨t :: b, p, more, .unclosedGroup, by rw [first]; rfl,
                Abort.stray trivial (assignment_records read) (fun post' => ?_)
                  (Begins.group isOpen (by omega) (Begins.of_derives innerPhrase))⟩
              obtain ⟨le', read'⟩ := assignment_local read (Shares.of_head first post')
              rw [List.cons_append]
              simp only [primary, isOpen, room, read', notClose, if_false]
          · exact absurd rfl endedMid.ne_nil
    · by_cases member : t.kind ∈ primaryFirst
      · -- a literal or a name is read whatever follows it
        have isLeaf : t.kind ∈ leafKinds := by
          simpa [primaryFirst, leafKinds, isOpen] using member
        simp only [leafKinds, List.mem_cons, List.not_mem_nil, or_false] at isLeaf
        rcases isLeaf with kind | kind | kind | kind | kind | kind <;>
          simp only [primary, kind, reduceCtorEq] at failed
      · rw [primary_of_not_mem member] at failed
        cases failed
        exact ⟨[], t, after, _, rfl, Abort.stray trivial (Records.refl _)
          (primary_of_not_mem member · opened errors) (Begins.nil _ _)⟩
termination_by 32 * ts.length
decreasing_by all_goals (subst_vars; (try simp only [List.length_cons]); omega)

end

end Parse

end Lox
