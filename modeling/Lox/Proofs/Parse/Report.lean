import Lox.Proofs.Parse.Abort
/-!
# What a parse reports

A parse returns a tree, or a list of errors, never both. This module says what the list holds for
every input: at least one error, each a syntax error; every error but the last recoverable (an
invalid assignment target, or too many arguments); and a fatal last error exactly when the tokens
read are no utterance of the unrestricted grammar within the nesting limit. The fatal error
stands where the parse stops (`Halt`): after a prefix of an utterance within the limit, at the
first token that no utterance goes on with, or at the token that opens one construct too many.

Everything is assembled from the failure analysis of `Lox.Proofs.Parse.Abort`, read at the top
level, and from the completeness of the parser for the unrestricted grammar, which rules out
that an utterance continues past a token the parser fails at.
-/

namespace Lox

namespace Problem

@[simp] theorem kind_raiseAt (p : Problem) (t : Token) : (p.raiseAt t).kind = p.kind := rfl

@[simp] theorem message_raiseAt (p : Problem) (t : Token) : (p.raiseAt t).message = p.message :=
  rfl

/-- A fault raised at a token has that token as its position, unless the token has none, as the
end marker added after the input has not. -/
@[simp] theorem token?_raiseAt (p : Problem) (t : Token) :
    (p.raiseAt t).token? = if 0 < t.line then some t else none := by
  simp only [raiseAt, Fault.raise, Fault.token?, Fault.firstRaised?, Token.located,
    decide_eq_true_eq]

end Problem

namespace Parse

open Grammar

/-- The faults that end a parse: a misplaced token, or a construct opened past the limit. -/
def Fatal (f : Fault) : Prop :=
  ∃ (p : Problem) (t : Token), (p.Misplaced ∨ p = .nestedTooDeeply) ∧ f = p.raiseAt t

theorem Recoverable.kind {f : Fault} (recoverable : Recoverable f) : f.kind = .syntaxError := by
  obtain ⟨t, rfl | rfl⟩ := recoverable <;> rfl

theorem Fatal.kind {f : Fault} (fatal : Fatal f) : f.kind = .syntaxError := by
  obtain ⟨p, t, sort, rfl⟩ := fatal
  rcases sort with misplaced | rfl
  · rcases Problem.misplaced_iff.1 misplaced with rfl | rfl | rfl | rfl <;> rfl
  · rfl

/-- No fault is both recoverable and fatal: their messages differ. -/
theorem Recoverable.not_fatal {f : Fault} (recoverable : Recoverable f) : ¬ Fatal f := by
  rintro ⟨p, u, sort, rfl⟩
  obtain ⟨t, same | same⟩ := recoverable
  all_goals
    have messages := congrArg Fault.message same
    simp only [Problem.message_raiseAt] at messages
    rcases sort with misplaced | rfl
    · rcases Problem.misplaced_iff.1 misplaced with rfl | rfl | rfl | rfl <;>
        exact absurd messages (by decide)
    · exact absurd messages (by decide)

/-- A misplaced token is never reported as an overflow. -/
theorem raiseAt_ne_nestedTooDeeply {p : Problem} (misplaced : p.Misplaced) (t t' : Token) :
    p.raiseAt t ≠ Problem.nestedTooDeeply.raiseAt t' := by
  intro same
  have messages := congrArg Fault.message same
  simp only [Problem.message_raiseAt] at messages
  rcases Problem.misplaced_iff.1 misplaced with rfl | rfl | rfl | rfl <;>
    exact absurd messages (by decide)

theorem Records.of_empty {errs : Array Fault} (recorded : Records #[] errs) :
    ∀ f ∈ errs.toList, Recoverable f := by
  obtain ⟨extra, grown, recoverable⟩ := recorded
  simpa [grown] using recoverable

/-! ## Where a parse stops -/

/-- **Where a parse stops.** A problem `p` at the token `t` after the tokens `pre`: `pre` begins
an utterance within the nesting limit and `pre` followed by `t` begins none; either because none
at all goes on with `t` (a misplaced token), or because `t` opens one construct more than the
limit allows, and one more unit of room would take it. -/
structure Halt (pre : List Token) (t : Token) (p : Problem) : Prop where
  begun : Viable maxOpen pre
  blocked : ¬ Viable maxOpen (pre ++ [t])
  cause : p.Misplaced ∧ (∀ room, ¬ Viable room (pre ++ [t])) ∨
    p = .nestedTooDeeply ∧ t.kind ∈ openerKinds ∧ Viable (maxOpen + 1) (pre ++ [t])

theorem Halt.misplaced {pre : List Token} {t : Token} {p : Problem} (begun : Viable maxOpen pre)
    (misplaced : p.Misplaced) (never : ∀ room, ¬ Viable room (pre ++ [t])) : Halt pre t p :=
  ⟨begun, never maxOpen, .inl ⟨misplaced, never⟩⟩

/-- The tokens of a parse that halts are no utterance within the limit. -/
theorem Halt.not_utterance {ts pre post : List Token} {t : Token} {p : Problem}
    (halt : Halt pre t p) (whole : ts = pre ++ t :: post) : ¬ Utterance maxOpen ts :=
  fun utterance => halt.blocked ⟨post, by simpa [whole] using utterance⟩

/-- A beginning of an assignment phrase is a beginning of an utterance: the end marker ends it. -/
theorem Begins.viable {room : Nat} {pre : List Token} (begun : Begins .assignment room pre) :
    Viable room pre := by
  obtain ⟨more, phrase⟩ := begun
  exact ⟨more ++ [Token.endMarker], pre ++ more, [Token.endMarker], by simp, phrase, rfl⟩

/-- If the parser fails on `pre` and `t` whatever follows, then an utterance that goes on with
them needs more room than the limit, and the parser reports the overflow. -/
theorem overflow_of_viable {pre : List Token} {t : Token} {errors errs : Array Fault}
    (blind : ∀ post, assignment (pre ++ t :: post) 0 errors = .error errs) {room : Nat}
    (viable : Viable room (pre ++ [t])) :
    maxOpen < room ∧ ∃ (kept : Array Fault) (t' : Token),
      errs = kept.push (Problem.nestedTooDeeply.raiseAt t') := by
  obtain ⟨more, body, ending, joined, phrase, ending'⟩ := viable
  have failed := blind more
  rw [show pre ++ t :: more = body ++ ending by rw [← joined]; simp] at failed
  rcases assignment_reads phrase ending'.closes 0 errors with
    ⟨r, read, -⟩ | ⟨deep, kept, t', overflow⟩
  · exact absurd (failed.symm.trans read) (by simp)
  · exact ⟨by omega, kept, t', Except.error.inj (failed.symm.trans overflow)⟩

/-- An abort of the whole parse is a halt. -/
theorem Abort.halt {errors errs : Array Fault} {pre : List Token} {t : Token} {p : Problem}
    (abort : Abort (assignment · 0 errors) .assignment maxOpen errors errs pre t p) :
    Halt pre t p := by
  have blocked : ∀ room, Viable room (pre ++ [t]) → maxOpen < room ∧
      ∃ (kept : Array Fault) (t' : Token),
        errs = kept.push (Problem.nestedTooDeeply.raiseAt t') :=
    fun room => overflow_of_viable abort.blind
  refine ⟨Begins.viable abort.begun,
    fun viable => absurd (blocked _ viable).1 (Nat.lt_irrefl _), ?_⟩
  rcases abort.fatal with misplaced | nested
  · -- an utterance going on with `t` would make the parser report an overflow instead
    refine .inl ⟨misplaced, fun room viable => ?_⟩
    obtain ⟨-, kept', t', overflow⟩ := blocked room viable
    obtain ⟨kept, faults, -⟩ := abort.faults
    have last := congrArg Array.back? (faults.symm.trans overflow)
    simp only [Array.back?_push, Option.some.injEq] at last
    exact raiseAt_ne_nestedTooDeeply misplaced t t' last
  · obtain ⟨opens, begun⟩ := abort.overflow nested
    exact .inr ⟨nested, opens, Begins.viable begun⟩

/-- After an assignment read whole, the parser finds past an optional `;` a token that no ending
begins with: no utterance, whatever its room, goes on with that token. -/
theorem not_viable_of_trailing {ts body lead post : List Token} {t : Token}
    {errors : Array Fault} {r : Reading ts} (read : assignment ts 0 errors = .ok r)
    (whole : ts = body ++ r.rest) (rest : r.rest = lead ++ t :: post)
    (noEnding : ∀ more, ¬ Ending (lead ++ t :: more)) (room : Nat) :
    ¬ Viable room (body ++ lead ++ [t]) := by
  rintro ⟨more, body', ending, joined, phrase, ending'⟩
  have shares : Shares ts (body ++ (lead ++ t :: more)) r.rest (lead ++ t :: more) :=
    ⟨body, whole, rfl, by simp [rest], by rw [rest]; exact head?_append_cons lead t post more⟩
  obtain ⟨le, read'⟩ := assignment_local read shares
  have reads := assignment_reads phrase ending'.closes 0 errors
  rw [show body' ++ ending = body ++ (lead ++ t :: more) by rw [← joined]; simp] at reads
  rcases reads with ⟨r', read'', restEq⟩ | ⟨-, kept, t', overflow⟩
  · -- the parser reads the same phrase, so the ending would begin with `t`
    cases read''.symm.trans read'
    have found : ending = lead ++ t :: more := restEq.symm
    exact noEnding more (found ▸ ending')
  · exact absurd (overflow.symm.trans read') (by simp)

/-- Where the parser looks for the end of the input after a phrase: past one `;` if there is one.
A token there that does not end the input is one that no ending begins with, after tokens that
an end marker would end. -/
theorem trailing {mid : List Token} {last : Token} (lastEnd : last.kind = .eof)
    (midNoEnd : ∀ t ∈ mid, t.kind ≠ .eof)
    (trails : (peek (if (peek (mid ++ [last])).kind = .semicolon then (mid ++ [last]).tail
      else mid ++ [last])).kind ≠ .eof) :
    ∃ lead t post, mid = lead ++ t :: post ∧
      peek (if (peek (mid ++ [last])).kind = .semicolon then (mid ++ [last]).tail
        else mid ++ [last]) = t ∧
      Ending (lead ++ [Token.endMarker]) ∧ ∀ more, ¬ Ending (lead ++ t :: more) := by
  match mid, midNoEnd with
  | [], _ => simp [peek, lastEnd] at trails
  | m :: rest, midNoEnd =>
    have mNotEnd := midNoEnd m (by simp)
    by_cases isSemicolon : m.kind = .semicolon
    · -- the `;` is taken, and the token after it is the one found
      match rest, midNoEnd with
      | [], _ => simp [peek, isSemicolon, lastEnd] at trails
      | t :: post, midNoEnd =>
        have tNotEnd := midNoEnd t (by simp)
        refine ⟨[m], t, post, rfl, by simp [peek, isSemicolon], ⟨isSemicolon, rfl⟩, ?_⟩
        rintro (_ | ⟨_, _⟩) ending <;> simp_all [Ending]
    · refine ⟨[], m, rest, rfl, by simp [peek, isSemicolon], rfl, ?_⟩
      rintro (_ | ⟨_, _ | ⟨_, _⟩⟩) ending <;> simp_all [Ending]

/-! ## The report -/

/-- **What a failed parse reports** about the tokens `ts` it read: at least one error, each a
syntax error, recoverable or fatal; all but the last recoverable; a fatal one exactly when `ts`
is no utterance within the nesting limit, raised where the parse halts. -/
structure Failure (ts : List Token) (errs : List Fault) : Prop where
  nonempty : errs ≠ []
  syntaxErrors : ∀ f ∈ errs, f.kind = .syntaxError
  sorts : ∀ f ∈ errs, Recoverable f ∨ Fatal f
  recoverable : ∀ f ∈ errs.dropLast, Recoverable f
  fatal_iff : (∃ f ∈ errs, Fatal f) ↔ ¬ Utterance maxOpen ts
  halts : ∀ f ∈ errs, Fatal f →
    ∃ pre t post p, ts = pre ++ t :: post ∧ f = p.raiseAt t ∧ Halt pre t p

/-- What a parse of the tokens `ts` may return: a tree, for an utterance within the nesting
limit, or the errors of a failure. -/
def Reported (ts : List Token) : Except (List Fault) Expr → Prop
  | .ok _ => Utterance maxOpen ts
  | .error errs => Failure ts errs

/-- A failure that ends in a fatal error. -/
theorem Failure.of_halt {ts pre post : List Token} {t : Token} {p : Problem}
    {kept : Array Fault} (recorded : ∀ f ∈ kept.toList, Recoverable f)
    (whole : ts = pre ++ t :: post)
    (fatal : p.Misplaced ∨ p = .nestedTooDeeply) (halt : Halt pre t p) :
    Failure ts (kept.push (p.raiseAt t)).toList := by
  have last : Fatal (p.raiseAt t) := ⟨p, t, fatal, rfl⟩
  have sorts : ∀ f ∈ (kept.push (p.raiseAt t)).toList, Recoverable f ∨ Fatal f := by
    intro f member
    simp only [Array.toList_push, List.mem_append, List.mem_singleton] at member
    rcases member with early | rfl
    · exact .inl (recorded f early)
    · exact .inr last
  refine ⟨by simp, fun f member => ?_, sorts, by simpa using recorded,
    ⟨fun _ => halt.not_utterance whole, fun _ => ⟨_, by simp, last⟩⟩,
    fun f member fatal => ?_⟩
  · rcases sorts f member with recoverable | fatal
    · exact recoverable.kind
    · exact fatal.kind
  · simp only [Array.toList_push, List.mem_append, List.mem_singleton] at member
    rcases member with early | rfl
    · exact absurd fatal (recorded f early).not_fatal
    · exact ⟨pre, t, post, p, whole, rfl, halt⟩

/-- A failure with recoverable errors only, of an utterance within the limit. -/
theorem Failure.of_recoverable {ts : List Token} {errs : List Fault} (nonempty : errs ≠ [])
    (recorded : ∀ f ∈ errs, Recoverable f) (utterance : Utterance maxOpen ts) :
    Failure ts errs := by
  refine ⟨nonempty, fun f member => (recorded f member).kind,
    fun f member => .inl (recorded f member),
    fun f member => recorded f (List.dropLast_subset _ member), ?_, ?_⟩
  · exact ⟨fun ⟨f, member, fatal⟩ => absurd fatal (recorded f member).not_fatal,
      fun never => absurd utterance never⟩
  · exact fun f member fatal => absurd fatal (recorded f member).not_fatal

/-- **What a parse reports.** For every input, cut at its first `EOF`: the parse returns a tree
only for an utterance within the nesting limit; otherwise at least one error, each a syntax
error; every error but the last is recoverable; the last is fatal exactly when the tokens are no
utterance of the unrestricted grammar within the limit, and it then stands where the parse halts:
after a prefix of such an utterance, at the first token that no utterance goes on with, or at
the `=`, `!`, `-` or `(` that opens the 257th construct open at once. -/
theorem parse_reported (tokens : List Token) : Reported (prepare tokens) (Expr.parse tokens) := by
  obtain ⟨front, last, prepared, lastEnd, noEnd⟩ := prepare_eq tokens
  have ended : Ended (prepare tokens) := ⟨last, by simp [prepared], lastEnd⟩
  unfold Expr.parse
  split
  · next errs failed =>
    obtain ⟨pre, t, post, p, whole, abort⟩ := assignment_aborts failed ended
    obtain ⟨kept, rfl, recorded⟩ := abort.faults
    exact Failure.of_halt recorded.of_empty whole abort.fatal abort.halt
  · next tree rest le errs read =>
    obtain ⟨body, first, phrase⟩ := assignment_derives read
    have first : prepare tokens = body ++ rest := first
    obtain ⟨mid, rfl, midNoEnd⟩ :=
      Consumes.rest_eq ⟨body, first, phrase.noEnd⟩ prepared lastEnd noEnd
    have recorded := (assignment_records read).of_empty
    dsimp only
    by_cases trails : (peek (if (peek (mid ++ [last])).kind = .semicolon then (mid ++ [last]).tail
      else mid ++ [last])).kind ≠ .eof
    · -- tokens left after the phrase and its `;`: the first of them is misplaced
      obtain ⟨lead, t, post, rfl, found, leadEnds, noEnding⟩ := trailing lastEnd midNoEnd trails
      rw [if_pos trails, found]
      have whole : prepare tokens = (body ++ lead) ++ t :: (post ++ [last]) := by
        rw [first]
        simp
      refine Failure.of_halt recorded whole (.inl trivial) (Halt.misplaced ?_ trivial ?_)
      · exact ⟨[Token.endMarker], body, lead ++ [Token.endMarker], by simp, phrase, leadEnds⟩
      · exact not_viable_of_trailing read first
          (show _ = lead ++ t :: (post ++ [last]) by simp) noEnding
    · have utterance : Utterance maxOpen (prepare tokens) :=
        ⟨body, mid ++ [last], first, phrase,
          (ending_iff lastEnd midNoEnd).2 (Classical.not_not.mp trails)⟩
      rw [if_neg trails]
      split
      · exact utterance
      · next unclean =>
        exact Failure.of_recoverable (by simpa using unclean) recorded utterance

end Parse

end Lox
