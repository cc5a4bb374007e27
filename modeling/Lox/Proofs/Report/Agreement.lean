import Mathlib
import Lox.Proofs.Eval.Faults
import Lox.Proofs.Parse.Sites
import Lox.Report
/-!
# Reports and texts of errors agree

An error is shown in two ways: as its text, `[line L:C] Kind at 'place': message`, and in a
report, `Error on line L:C` and then `Kind at 'place': message`. The text names the place `end`
for the end-of-input token and the token's lexeme otherwise; the report names it `end` for an
empty lexeme. The two agree on every error a line of source can give (`line_errors_read_alike`):

* every token of a scan has a lexeme that is empty exactly when it is the end token the scanner
  adds (`Token.Spelled`, `scan_spelled`), and so has the token of every scan error;
* the parser raises its errors at the tokens it is given or at its end marker, which is spelled
  too (`Expr.parse_sited`);
* printing a parsed tree fails only at the depth bound, with no position; evaluating it with the
  globals fails at the depth bound or with a problem raised at a token of the tree, since no
  global fails on its own account (`Expr.eval_blamed`).

A problem raised at a spelled token, or with no position, reads alike in its text and in its
report (`Problem.readsAlike_raiseAt`, `Problem.readsAlike_unplaced`).
-/

namespace Lox

/-- A token whose lexeme is empty exactly when it marks the end of the input. -/
def Token.Spelled (t : Token) : Prop :=
  t.lexeme.isEmpty = true ↔ t.kind = .eof

/-- The text and the report of an error say the same four things: its kind, its position or that
it has none, its message, and the place it names, which is `end` at the end of the input and the
token's lexeme elsewhere. -/
def Fault.ReadsAlike (e : Fault) : Prop :=
  e.text = Fault.heading e.kind e.token? ++ e.message ∧
    Report.format e = match e.token? with
      | none => "Error\n\t" ++ e.kind.name ++ ": " ++ e.message ++ "\n"
      | some t =>
        "Error on line " ++ toString t.line ++ ":" ++ toString t.column ++ "\n\t" ++
          e.kind.name ++ " at '" ++ Fault.place t ++ "': " ++ e.message ++ "\n"

namespace Token

theorem endMarker_spelled : endMarker.Spelled :=
  ⟨fun _ => rfl, fun _ => rfl⟩

/-- A token that is not the end, over some bytes, is spelled. -/
theorem spelled_decode {kind : TokenKind} (notEnd : kind ≠ .eof) {bytes : List UInt8}
    (nonempty : bytes ≠ []) (literal : Option Literal) (line : Int64) (column : Int) :
    (⟨kind, Utf8.decode bytes, literal, line, column⟩ : Token).Spelled := by
  obtain ⟨b, rest, rfl⟩ := List.exists_cons_of_ne_nil nonempty
  have filled : (Utf8.decode (b :: rest)).isEmpty = false := by
    rw [Utf8.decode, Utf8.chars]
    simp
  simp [Spelled, filled, notEnd]

/-- The report of a spelled token names the place its text names. -/
theorem Spelled.place {t : Token} (spelled : t.Spelled) :
    (if t.lexeme.isEmpty then "end" else t.lexeme) = Fault.place t := by
  unfold Fault.place
  by_cases ended : t.kind = .eof
  · rw [if_pos (spelled.2 ended), if_pos ended]
  · rw [if_neg (mt spelled.1 ended), if_neg ended]

end Token

/-! ## Problems read alike -/

/-- A fault raised with a plain message, at a spelled token or at none, reads alike. -/
theorem Fault.readsAlike_raised (kind : ErrorKind) (message : String) :
    (origin : Option Token) → (∀ t ∈ origin, t.Spelled) →
      (Fault.raised kind origin (.plain message)).ReadsAlike
  | none, _ => ⟨rfl, rfl⟩
  | some t, spelled => by
    refine ⟨rfl, ?_⟩
    simp only [Report.format, Fault.token?, Fault.firstRaised?, Fault.kind, Fault.message]
    rw [(spelled t rfl).place]

theorem Problem.readsAlike_raiseAt (p : Problem) {t : Token} (spelled : t.Spelled) :
    (p.raiseAt t).ReadsAlike := by
  apply Fault.readsAlike_raised
  intro u placed
  -- the token is kept only when it has a position
  split at placed
  · cases placed
    exact spelled
  · cases placed

theorem Problem.readsAlike_unplaced (p : Problem) : p.unplaced.ReadsAlike :=
  Fault.readsAlike_raised _ _ none fun _ absent => nomatch absent

/-! ## The tokens of a scan are spelled -/

namespace Scan

/-- Every piece of the input covers some bytes. -/
theorem ne_nil_of_mem_pieces {entry : Piece × List UInt8 × Cursor} :
    (bytes : List UInt8) → (origin : Cursor) → entry ∈ pieces bytes origin →
      entry.2.1 ≠ [] := by
  intro bytes origin member
  fun_induction pieces bytes origin with
  | case1 origin => cases member
  | case2 origin b rest piece n read taken ih =>
    rcases List.mem_cons.1 member with rfl | later
    · exact List.cons_ne_nil _ _
    · exact ih later

/-- No piece of the input is an end token. -/
theorem kind_ne_eof_of_mem_pieces {bytes : List UInt8} {origin : Cursor}
    {kind : TokenKind} {literal : Option Literal} {entry : Piece × List UInt8 × Cursor}
    (member : entry ∈ pieces bytes origin) (token : entry.1 = .token kind literal) :
    kind ≠ .eof := by
  obtain ⟨⟨b, rest, made⟩, -⟩ := mem_pieces bytes origin member
  rw [token] at made
  rcases first_cases b rest with ⟨blank, -⟩ | ⟨blank, -⟩ | emits
  · rw [← made] at blank
    cases blank
  · rw [← made] at blank
    cases blank
  · rw [← made] at emits
    exact emits

end Scan

/-- **Scanned tokens are spelled.** Only the end token a scan adds has an empty lexeme. -/
theorem scan_spelled (source : List UInt8) (line : Int64) :
    ∀ t ∈ (scan source line).1, t.Spelled := by
  intro t member
  rcases mem_scan member with rfl | ⟨⟨piece, bytes, origin⟩, inPieces, made⟩
  · exact ⟨fun _ => rfl, fun _ => rfl⟩
  · cases piece with
    | token kind literal =>
      simp only [Piece.emit, Option.some.injEq, Sum.inl.injEq] at made
      subst made
      exact Token.spelled_decode (Scan.kind_ne_eof_of_mem_pieces inPieces rfl)
        (Scan.ne_nil_of_mem_pieces _ _ inPieces) _ _ _
    | problem p => simp [Piece.emit] at made
    | blank => simp [Piece.emit] at made

/-- **Scan errors stand at spelled tokens.** Each is a problem raised at an illegal token over
the bytes that cause it. -/
theorem scan_errors_sited (source : List UInt8) (line : Int64) :
    ∀ e ∈ (scan source line).2,
      ∃ (p : Problem) (t : Token), t.Spelled ∧ e = p.raiseAt t := by
  intro e member
  simp only [scan, List.mem_filterMap] at member
  obtain ⟨made, ⟨⟨piece, bytes, origin⟩, member, emitted⟩, picked⟩ := member
  cases made with
  | inl t => cases picked
  | inr f =>
    cases picked
    cases piece with
    | token kind literal => simp [Piece.emit] at emitted
    | problem p =>
      simp only [Piece.emit, Option.some.injEq, Sum.inr.injEq] at emitted
      subst emitted
      exact ⟨p, _, Token.spelled_decode (by decide) (Scan.ne_nil_of_mem_pieces _ _ member) _ _ _,
        rfl⟩
    | blank => simp [Piece.emit] at emitted

/-! ## The globals never fail on their own -/

/-- The natives of a session are the four globals, whatever the clock reads. -/
theorem Host.defineGlobals_natives (clock : Float) :
    (Host.defineGlobals { clock := clock } (Env.empty 1) 0).1.natives =
      #[.clock, .typeOf, .textOf, .length] :=
  rfl

theorem Machine.not_fails_globals (clock : Float) (env : Env) (trace : Array Event)
    (g : Fault) :
    ¬ Machine.Fails
      ⟨env, (Host.defineGlobals { clock := clock } (Env.empty 1) 0).1, trace⟩ g := by
  rintro ⟨b, member, fails⟩
  rw [Host.defineGlobals_natives] at member
  simp only [List.mem_toArray, List.mem_cons, List.not_mem_nil, or_false] at member
  rcases member with rfl | rfl | rfl | rfl <;> cases fails

/-- **Printing crashes exactly where a pending error's message cannot be read**; otherwise it
flushes the report. -/
theorem Report.print_eq (r : Report) :
    r.print = if r.pending.all Fault.readable then .ok r.flush else .error .missingCause :=
  Fault.mapM_readMessage r.pending r.flush

/-- **A line of a session never crashes on its message.** With the globals, none of which fails,
interpreting a parsed line as the program does, reading the message of its error at once, is the
interpretation itself. -/
theorem Machine.run_globals (source : List UInt8) (line : Int64) (evalBound : DepthBound)
    (clock : Float) (env : Env) (trace : Array Event) {tree : Expr}
    (parsed : Expr.parse (scan source line).1 = .ok tree) :
    (⟨env, (Host.defineGlobals { clock := clock } (Env.empty 1) 0).1, trace⟩ : Machine).run
        evalBound tree =
      .ok ((⟨env, (Host.defineGlobals { clock := clock } (Env.empty 1) 0).1, trace⟩ :
        Machine).interpret evalBound tree) := by
  have supplied : Grammar.Supplies Token.Spelled (scan source line).1 :=
    fun t member _ => ⟨scan_carries source line t member, scan_spelled source line t member⟩
  exact Machine.run_of_quiet (Grammar.parse_wellFormed parsed supplied)
    (Machine.not_fails_globals clock env trace)

/-! ## The errors of a line -/

/-- The errors one line of source can give, the line numbered `line`: those of its scan, those of
parsing its tokens, and those of printing its tree within `printBound` or of evaluating it within
`evalBound` on the machine `m`. -/
inductive LineError (source : List UInt8) (line : Int64) (printBound evalBound : DepthBound)
    (m : Machine) : Fault → Prop where
  | scanned {e : Fault} : e ∈ (scan source line).2 →
      LineError source line printBound evalBound m e
  | parsed {e : Fault} {errs : List Fault} : Expr.parse (scan source line).1 = .error errs →
      e ∈ errs → LineError source line printBound evalBound m e
  | printed {e : Fault} {tree : Expr} : Expr.parse (scan source line).1 = .ok tree →
      tree.render printBound 0 = .error e → LineError source line printBound evalBound m e
  | evaluated {e : Fault} {tree : Expr} {m' : Machine} :
      Expr.parse (scan source line).1 = .ok tree → m.interpret evalBound tree = (.error e, m') →
      LineError source line printBound evalBound m e

/-- **Reports and texts agree.** Every error of a line, from its scan, from parsing its tokens,
or from printing or evaluating its tree with the globals of a session, whatever the environment
and the bounds, reads alike in its text and in its report: the same kind, position, message and
place, the place being `end` at the end of the input and the token's lexeme elsewhere. -/
theorem line_errors_read_alike (source : List UInt8) (line : Int64)
    (printBound evalBound : DepthBound) (clock : Float) (env : Env) (trace : Array Event)
    {e : Fault} (failed : LineError source line printBound evalBound
      ⟨env, (Host.defineGlobals { clock := clock } (Env.empty 1) 0).1, trace⟩ e) :
    e.ReadsAlike := by
  have spelled := scan_spelled source line
  have supplied : Grammar.Supplies Token.Spelled (scan source line).1 :=
    fun t member _ => ⟨scan_carries source line t member, spelled t member⟩
  cases failed with
  | scanned member =>
    obtain ⟨p, t, spelledT, rfl⟩ := scan_errors_sited source line e member
    exact p.readsAlike_raiseAt spelledT
  | parsed failed member =>
    obtain ⟨p, t, spelledT, rfl⟩ :=
      Expr.parse_sited Token.endMarker_spelled spelled failed e member
    exact p.readsAlike_raiseAt spelledT
  | printed parsed rendered =>
    rw [Expr.render_wellFormed printBound 0 _ (Grammar.parse_wellFormed parsed supplied) rendered]
    exact Problem.readsAlike_unplaced _
  | evaluated parsed ran =>
    obtain ⟨m'', evaluated⟩ := Machine.interpret_eq_error ran
    -- no global fails on its own account, so the error is the bound's or a token's
    rcases Expr.eval_blamed evalBound 0 _ _ (Grammar.parse_wellFormed parsed supplied) evaluated
      with deep | ⟨t, spelledT, ⟨p, -, rfl⟩ | ⟨g, fails, -⟩⟩
    · rw [deep]
      exact Problem.readsAlike_unplaced _
    · exact p.readsAlike_raiseAt spelledT
    · exact absurd fails (Machine.not_fails_globals clock env trace g)

/-- A stray `@` is an unexpected character at an illegal token, which reads alike. -/
theorem line_errors_read_alike_stray :
    LineError [0x40] 1 none none
        ⟨Env.empty 1, (Host.defineGlobals { clock := 0 } (Env.empty 1) 0).1, #[]⟩
        ((Problem.unexpectedCharacter '@').raiseAt ⟨.illegal, "@", none, 1, 1⟩) ∧
      ((Problem.unexpectedCharacter '@').raiseAt ⟨.illegal, "@", none, 1, 1⟩).ReadsAlike := by
  have firstAt : Scan.first 0x40 [] = (.problem (.unexpectedCharacter '@'), 0) := rfl
  have scanned : LineError [0x40] 1 none none
      ⟨Env.empty 1, (Host.defineGlobals { clock := 0 } (Env.empty 1) 0).1, #[]⟩
      ((Problem.unexpectedCharacter '@').raiseAt ⟨.illegal, "@", none, 1, 1⟩) := by
    refine .scanned ?_
    simp only [scan, Scan.pieces_cons, firstAt, List.take_nil, List.drop_nil]
    rw [Scan.pieces]
    simp [Piece.emit, Utf8.decode, Utf8.chars, Utf8.head, Cursor.column, startLine]
  exact ⟨scanned, line_errors_read_alike [0x40] 1 none none 0 (Env.empty 1) #[] scanned⟩

end Lox
