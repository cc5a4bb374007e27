import Lox.Proofs.Cli.Lines
/-!
# The parser never runs past its tokens

The parser reads the tokens up to their first `EOF`, or all of them followed by an end marker
(`prepare`), so the list it reads ends with its only `EOF`. A position of the parse is a
non-empty suffix of that list, and so holds the `EOF` (`ended_of_suffix`). From such a position
each reading function of a phrase either reads one and moves on by at least one token, none of
them an `EOF`, to a position that still holds the `EOF`; or it fails with a fatal error raised at
a token of the list (`Parse.Steps`). So the next token is always there to be looked at, no `EOF`
is ever taken, every phrase, and so every turn of a loop and every nested expression, assignment
or unary operation, takes at least one token, and a whole parse returns a tree or a non-empty
list of errors (`parse_stays_within`).
-/

namespace Lox.Parse

open Grammar

/-- At least one token of `ts` is taken, none of them an `EOF`, and `rest` is left. -/
def Advances (ts rest : List Token) : Prop :=
  Consumes ts rest ∧ rest.length < ts.length

/-- **One step of the descent** from the tokens `ts`: a phrase is read and the tokens left are
fewer, taken without an `EOF`, and not all gone; or the reading fails, and its last error is raised
at a token of `ts`. -/
def Steps {ts : List Token} : Outcome ts → Prop
  | .ok r => Advances ts r.rest ∧ r.rest ≠ []
  | .error errs => ∃ (pre : List Token) (t : Token) (post : List Token) (p : Problem)
      (kept : Array Fault), ts = pre ++ t :: post ∧ errs = kept.push (p.raiseAt t)

/-- A position of the parse, a non-empty suffix of the tokens it reads, still holds the `EOF`. -/
theorem ended_of_suffix {tokens ts : List Token} (suffix : ts <:+ prepare tokens)
    (nonempty : ts ≠ []) : Ended ts := by
  obtain ⟨front, last, prepared, lastEnd, -⟩ := prepare_eq tokens
  obtain ⟨pre, whole⟩ := suffix
  rcases List.eq_nil_or_concat ts with empty | ⟨init, x, rfl⟩
  · exact absurd empty nonempty
  -- the last token of a non-empty suffix is the last token of the whole
  have split : (pre ++ init) ++ [x] = front ++ [last] := by simpa [prepared] using whole
  have same : x = last := List.singleton_inj.1 (List.append_inj' split rfl).2
  exact ⟨x, by simp, same ▸ lastEnd⟩

/-- A phrase that always takes a token steps from a list that holds an `EOF`. -/
theorem steps_of_phrase {β : List Token → Type} {run : (ts : List Token) → Except (Array Fault) (β ts)}
    {s : Phrase} {room room' : Nat} {errors : Array Fault} {ts : List Token} {o : Outcome ts}
    (ended : Ended ts) (derives : ∀ r, o = .ok r → ∃ body, ts = body ++ r.rest ∧ Derives s room body)
    (aborts : ∀ errs, o = .error errs →
      ∃ pre t post p, ts = pre ++ t :: post ∧ Abort run s room' errors errs pre t p)
    (solid : s.Solid) : Steps o := by
  cases o with
  | ok r =>
    obtain ⟨body, whole, phrase⟩ := derives r rfl
    obtain ⟨t, more, rfl, -⟩ := phrase.starts solid
    have longer : r.rest.length < ts.length := by
      have lengths := congrArg List.length whole
      simp only [List.length_append, List.length_cons] at lengths
      omega
    exact ⟨⟨⟨_, whole, phrase.noEnd⟩, longer⟩, (ended.drop whole phrase.noEnd).ne_nil⟩
  | error errs =>
    obtain ⟨pre, t, post, p, whole, abort⟩ := aborts errs rfl
    obtain ⟨kept, faults, -⟩ := abort.faults
    exact ⟨pre, t, post, p, kept, whole, faults⟩

/-- **The parser stays within its tokens.** For every token list, the list the parser reads ends
with its only `EOF`. From every position of the parse, a non-empty suffix of that list, an
expression (an assignment), an operand chain of any level, a unary operation, a call or a primary
expression is read by moving on by at least one token, none of them an `EOF`, to a position that
is not past the end; or its reading fails with a fatal error raised at a token of the list. The
parse itself returns a tree, or a non-empty list of errors. -/
theorem parse_stays_within (tokens : List Token) :
    (∃ front last, prepare tokens = front ++ [last] ∧ last.kind = .eof ∧
      ∀ t ∈ front, t.kind ≠ .eof) ∧
    (∀ ts, ts <:+ prepare tokens → ts ≠ [] → ∀ opened errors,
      Steps (assignment ts opened errors) ∧ (∀ n ≤ 5, Steps (infixChain n ts opened errors)) ∧
      Steps (unary ts opened errors) ∧ Steps (call ts opened errors) ∧
      Steps (primary ts opened errors)) ∧
    ((∃ tree, Expr.parse tokens = .ok tree) ∨
      ∃ errs, Expr.parse tokens = .error errs ∧ errs ≠ []) := by
  refine ⟨prepare_eq tokens, fun ts suffix nonempty opened errors => ?_, ?_⟩
  · have ended := ended_of_suffix suffix nonempty
    exact ⟨steps_of_phrase ended (fun _ read => assignment_derives read)
        (fun _ failed => assignment_aborts failed ended) trivial,
      fun n bound => steps_of_phrase ended (fun _ read => infixChain_derives bound read)
        (fun _ failed => infixChain_aborts bound failed ended) trivial,
      steps_of_phrase ended (fun _ read => unary_derives read)
        (fun _ failed => unary_aborts failed ended) trivial,
      steps_of_phrase ended (fun _ read => call_derives read)
        (fun _ failed => call_aborts failed ended) trivial,
      steps_of_phrase ended (fun _ read => primary_derives read)
        (fun _ failed => primary_aborts failed ended) trivial⟩
  · cases parsed : Expr.parse tokens with
    | ok tree => exact .inl ⟨tree, rfl⟩
    | error errs => exact .inr ⟨errs, rfl, Expr.parse_errors_ne_nil parsed⟩

/-- A number token with no `EOF` after it. -/
def oneToken : Token := ⟨.number, "1", some (.number 1), 1, 1⟩

/-- The number alone: the parser reads it from the whole list, at every level, leaving the end
marker it adds. -/
theorem parse_stays_within_number :
    [oneToken, Token.endMarker] <:+ prepare [oneToken] ∧ [oneToken, Token.endMarker] ≠ [] ∧
      Steps (assignment [oneToken, Token.endMarker] 0 #[]) ∧ 5 ≤ 5 ∧
      Steps (infixChain 5 [oneToken, Token.endMarker] 0 #[]) ∧
      Steps (primary [oneToken, Token.endMarker] 0 #[]) :=
  have suffix : [oneToken, Token.endMarker] <:+ prepare [oneToken] := List.suffix_refl _
  have nonempty : [oneToken, Token.endMarker] ≠ [] := List.cons_ne_nil _ _
  have steps := (parse_stays_within [oneToken]).2.1 _ suffix nonempty 0 #[]
  ⟨suffix, nonempty, steps.1, Nat.le_refl 5, steps.2.1 5 (Nat.le_refl 5), steps.2.2.2.2⟩

end Lox.Parse
