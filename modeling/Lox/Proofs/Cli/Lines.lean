import Lox.Cli.Session
import Lox.Proofs.Parse.Abort
/-!
# Running lines: one rule per line, and a reporter emptied after each

A session hands the errors of a line to a shared reporter at three points, the scan errors, the
parse errors and the one error of printing or evaluating the tree, and prints what the reporter
holds after each. Printing empties the reporter, so from an empty reporter every line leaves it
empty: no diagnostic is printed twice, and none is carried into a later line. A line then does
what `Session.lineRule` says of it alone (`runLine_eq_lineRule`); the reporter is the invariant
that carries this from line to line.

A source file's lines run from line one, in order, and stop at the first that fails
(`runSource_eq_ruleLines`); the loop behind it passes a failure on untouched, which
`foldl_eq_ruleLines` turns into the early stop. The interactive loop runs every line it reads on
the machine the line before left (`repl_eq_replRule`) and exits with `0` unless reading fails.
-/

namespace Lox

/-- A failed parse reports at least one error. -/
theorem Expr.parse_errors_ne_nil {tokens : List Token} {errs : List Fault}
    (failed : Expr.parse tokens = .error errs) : errs ≠ [] := by
  obtain ⟨front, last, prepared, lastEnd, -⟩ := Parse.prepare_eq tokens
  have ended : Parse.Ended (Parse.prepare tokens) := ⟨last, by simp [prepared], lastEnd⟩
  unfold Expr.parse at failed
  split at failed
  · next errs' aborted =>
    obtain ⟨pre, t, post, p, -, abort⟩ := Parse.assignment_aborts aborted ended
    obtain ⟨kept, rfl, -⟩ := abort.faults
    cases failed
    simp
  · next tree rest le errs' read =>
    dsimp only at failed
    generalize (if (Parse.peek rest).kind = .semicolon then rest.tail else rest) = left at failed
    split at failed
    · injection failed with failed
      rw [← failed]
      simp
    · split at failed
      · cases failed
      · next unclean =>
        injection failed with failed
        rw [← failed]
        simpa using unclean

namespace Cli

namespace Session

/-- **The rule for one line**, numbered `line`. -/
def lineRule (s : Session) (source : String) (line : Int64) : Nat × Session :=
  if skipped source then (exitOk, s)
  else
    let (tokens, scanErrors) := scan (Utf8.encode source) line
    if !scanErrors.isEmpty then (exitSyntax, s.err (String.join (scanErrors.map Report.format)))
    else match Expr.parse tokens with
      | .error es => (exitSyntax, s.err (String.join (es.map Report.format)))
      | .ok tree =>
        if s.printTree then
          match tree.render s.printBound 0 with
          | .ok text => (exitOk, s.out (text ++ "\n"))
          | .error f => (exitRuntime, s.err (Report.format f))
        else
          let (result, m) := s.machine.interpret s.evalBound tree
          let s := { s with machine := m }.drainTrace
          match result with
          | .ok v => (exitOk, s.out (Value.text (some v) ++ "\n"))
          | .error f => (exitRuntime, s.err (Report.format f))

@[simp] theorem reporter_out (s : Session) (text : String) : (s.out text).reporter = s.reporter :=
  rfl

@[simp] theorem reporter_err (s : Session) (text : String) : (s.err text).reporter = s.reporter :=
  rfl

@[simp] theorem reporter_log (s : Session) (e : Entry) : (s.log e).reporter = s.reporter := rfl

@[simp] theorem err_empty (s : Session) : s.err "" = s := by
  simp [err]

theorem reporter_drainTrace (s : Session) : s.drainTrace.reporter = s.reporter := by
  unfold drainTrace
  rw [← Array.foldl_toList]
  generalize s.machine.trace.toList = events
  induction events generalizing s with
  | nil => rfl
  | cons e events ih => exact (ih (s.log (eventEntry e))).trans (reporter_log s _)

theorem reporter_eq_empty {s : Session} (fresh : s.reporter.pending = []) : s.reporter = {} := by
  cases r : s.reporter
  simp_all

/-- From an empty reporter, handing it errors and printing them prints exactly those errors and
empties it again. -/
theorem printErrors_collect {s : Session} (fresh : s.reporter.pending = []) (faults : List Fault) :
    (s.collect faults).printErrors =
      (!faults.isEmpty, s.err (String.join (faults.map Report.format))) := by
  have empty := reporter_eq_empty fresh
  have reset : { s with reporter := {} } = s := by rw [← empty]
  simp only [collect, printErrors, Report.add, Report.flush, Report.valid, empty]
  simp [reset]

theorem join_format_singleton (f : Fault) : String.join ([f].map Report.format) = Report.format f := by
  simp [String.join]

/-- **A line with an empty reporter follows the rule for one line.** -/
theorem runLine_eq_lineRule {s : Session} (fresh : s.reporter.pending = []) (source : String)
    (line : Int64) : s.runLine source line = s.lineRule source line := by
  unfold runLine lineRule
  by_cases skip : skipped source
  · simp only [skip, if_true]
  · simp only [skip, Bool.false_eq_true, if_false]
    generalize scan (Utf8.encode source) line = scanned
    obtain ⟨tokens, scanErrors⟩ := scanned
    dsimp only
    rw [printErrors_collect fresh]
    by_cases clean : scanErrors.isEmpty
    · simp only [List.isEmpty_iff.1 clean, List.map_nil, String.join_nil, err_empty]
      cases parsed : Expr.parse tokens with
      | error es =>
        have failed := Expr.parse_errors_ne_nil parsed
        simp [printErrors_collect fresh, failed]
      | ok tree =>
        simp only [printErrors_collect fresh, List.isEmpty_nil, Bool.not_true,
          Bool.false_eq_true, if_false, List.map_nil, String.join_nil, err_empty]
        split
        · cases rendered : tree.render s.printBound 0 with
          | ok text => rfl
          | error f => simp only [join_format_singleton]
        · generalize s.machine.interpret s.evalBound tree = run
          obtain ⟨result, m⟩ := run
          have drained : ({ s with machine := m }.drainTrace).reporter.pending = [] := by
            rw [reporter_drainTrace]; exact fresh
          cases result with
          | ok v => rfl
          | error f => simp only [printErrors_collect drained, join_format_singleton]
    · simp [clean]

theorem reporter_lineRule (s : Session) (source : String) (line : Int64) :
    (s.lineRule source line).2.reporter = s.reporter := by
  unfold lineRule
  split
  · rfl
  · split
    split
    · rfl
    · split
      · rfl
      · split
        · split <;> rfl
        · split
          split <;> simp [reporter_drainTrace]

/-- Lines run one after another by the rule for one line, numbered from `n`, stopping at the
first that fails, whose exit code they end with. -/
def ruleLines (s : Session) : List String → Int64 → Nat × Session
  | [], _ => (exitOk, s)
  | line :: rest, n =>
    let (code, s') := s.lineRule line n
    if code ≠ exitOk then (code, s') else s'.ruleLines rest (n + 1)

section Loop

variable {step : Nat × Session × Int64 → String → Nat × Session × Int64}

/-- A loop whose steps pass a failure on unchanged ends with that failure. -/
theorem foldl_of_failed (stopped : ∀ acc line, acc.1 ≠ exitOk → step acc line = acc)
    (lines : List String) {acc : Nat × Session × Int64} (failed : acc.1 ≠ exitOk) :
    lines.foldl step acc = acc := by
  induction lines with
  | nil => rfl
  | cons line lines ih => rw [List.foldl_cons, stopped acc line failed, ih]

/-- A loop that passes a failure on and otherwise runs the next line by the rule for one line,
from an empty reporter, is the run of lines that stops at the first failure. -/
theorem foldl_eq_ruleLines (stopped : ∀ acc line, acc.1 ≠ exitOk → step acc line = acc)
    (running : ∀ (s : Session) n line, s.reporter.pending = [] →
      step (exitOk, s, n) line = ((s.lineRule line n).1, (s.lineRule line n).2, n + 1))
    (lines : List String) (s : Session) (n : Int64) (fresh : s.reporter.pending = []) :
    ((lines.foldl step (exitOk, s, n)).1, (lines.foldl step (exitOk, s, n)).2.1) =
      s.ruleLines lines n := by
  induction lines generalizing s n with
  | nil => rfl
  | cons line lines ih =>
    have later : (s.lineRule line n).2.reporter.pending = [] := by
      rw [reporter_lineRule]; exact fresh
    rw [List.foldl_cons, running s n line fresh, ruleLines]
    generalize s.lineRule line n = r at later ⊢
    obtain ⟨code, t⟩ := r
    dsimp only
    by_cases failed : code ≠ exitOk
    · rw [foldl_of_failed stopped lines failed, if_pos failed]
    · rw [if_neg failed, ← ih t (n + 1) later, Classical.not_not.1 failed]

end Loop

/-- **A source file runs line by line from line one, in order, stopping at the first line that
fails** and ending with its exit code. -/
theorem runSource_eq_ruleLines {s : Session} (fresh : s.reporter.pending = []) (source : String) :
    s.runSource source = s.ruleLines (source.splitOn "\n") 1 := by
  unfold runSource
  rw [← foldl_eq_ruleLines ?stopped ?running _ s 1 fresh]
  case stopped =>
    intro acc line failed
    obtain ⟨code, t, n⟩ := acc
    simp_all
  case running =>
    intro t n line fresh'
    simp [runLine_eq_lineRule fresh']

theorem reporter_ruleLines (s : Session) (lines : List String) (n : Int64) :
    (s.ruleLines lines n).2.reporter = s.reporter := by
  induction lines generalizing s n with
  | nil => rfl
  | cons line lines ih =>
    rw [ruleLines]
    generalize found : s.lineRule line n = r
    obtain ⟨code, t⟩ := r
    have kept : t.reporter = s.reporter := by
      rw [← reporter_lineRule s line n, found]
    dsimp only
    split
    · exact kept
    · rw [ih, kept]

/-! ## The interactive loop -/

/-- One line of the interactive loop by the rule for one line: a failure is logged, and the loop
goes on. -/
def replLineRule (s : Session) (text : String) (n : Int64) : Session :=
  let (code, s) := s.lineRule text n
  if code ≠ exitOk then s.log ⟨.debug, "line failed", [("line", toString n)]⟩ else s

/-- The interactive loop by the rule for one line: a prompt before each line read, every line run
on the session the line before left, whatever its outcome, and the end of the input. -/
def replRule (s : Session) (input : String) : Nat × Session :=
  let (lines, tooLong) := inputLines input
  let (s, _) := lines.foldl (fun (acc : Session × Int64) text =>
    ((acc.1.out prompt).replLineRule text acc.2, acc.2 + 1)) (s, 1)
  (s.out prompt).replEnd tooLong

theorem reporter_replLineRule (s : Session) (text : String) (n : Int64) :
    (s.replLineRule text n).reporter = s.reporter := by
  unfold replLineRule
  dsimp only
  split <;> simp [reporter_lineRule]

theorem replLine_eq_replLineRule {s : Session} (fresh : s.reporter.pending = []) (text : String)
    (n : Int64) : s.replLine text n = s.replLineRule text n := by
  unfold replLine replLineRule
  rw [runLine_eq_lineRule fresh]

/-- **The interactive loop runs every line by the rule for one line.** -/
theorem repl_eq_replRule {s : Session} (fresh : s.reporter.pending = []) (input : String) :
    s.repl input = s.replRule input := by
  unfold repl replRule
  generalize inputLines input = read
  obtain ⟨lines, tooLong⟩ := read
  dsimp only
  -- the reporter stays empty from line to line, so each line follows the rule
  suffices same : ∀ (lines : List String) (t : Session) (n : Int64), t.reporter.pending = [] →
      lines.foldl (fun (acc : Session × Int64) text =>
          ((acc.1.out prompt).replLine text acc.2, acc.2 + 1)) (t, n) =
        lines.foldl (fun (acc : Session × Int64) text =>
          ((acc.1.out prompt).replLineRule text acc.2, acc.2 + 1)) (t, n) by
    rw [same lines s 1 fresh]
  intro lines
  induction lines with
  | nil => intro t n _; rfl
  | cons text lines ih =>
    intro t n empty
    have prompted : (t.out prompt).reporter.pending = [] := empty
    simp only [List.foldl_cons]
    rw [replLine_eq_replLineRule prompted]
    exact ih _ _ (by rw [reporter_replLineRule]; exact prompted)

theorem reporter_replRule (s : Session) (input : String) :
    (s.replRule input).2.reporter = s.reporter := by
  unfold replRule replEnd
  generalize inputLines input = read
  obtain ⟨lines, tooLong⟩ := read
  dsimp only
  suffices kept : ∀ (lines : List String) (acc : Session × Int64),
      (lines.foldl (fun (acc : Session × Int64) text =>
        ((acc.1.out prompt).replLineRule text acc.2, acc.2 + 1)) acc).1.reporter = acc.1.reporter by
    split <;> simp [kept]
  intro lines
  induction lines with
  | nil => intro acc; rfl
  | cons text lines ih =>
    intro acc
    rw [List.foldl_cons, ih]
    simp [reporter_replLineRule]

/-- The interactive loop exits with `74` when reading stops at a line too long, and with `0`
otherwise, whatever its lines do. -/
theorem repl_exit (s : Session) (input : String) :
    (s.repl input).1 = if (inputLines input).2 then exitInput else exitOk := by
  unfold repl replEnd
  generalize inputLines input = read
  obtain ⟨lines, tooLong⟩ := read
  dsimp only
  split <;> simp_all

/-- A run starts its session with an empty reporter. -/
theorem start_fresh {args : List String} {clock : Float} {mode : Mode} {s : Session}
    (started : start args clock = .ok (mode, s)) : s.reporter.pending = [] := by
  unfold start at started
  split at started
  · cases started
  · cases started
  · split at started
    · cases started
    · cases started
      rfl

end Session

/-- **Each line is reported once, by its own rule.** From a session whose reporter holds nothing,
as every run starts (`Session.start_fresh`), whatever its settings: a line does what the rule for
one line says (`Session.lineRule`: a skipped line nothing; scan errors all printed and `65`,
without parsing; otherwise parse errors all printed and `65`; otherwise the one error of printing
or evaluating printed and `70`; otherwise the result printed and `0`), and leaves the reporter
empty, so no diagnostic is printed twice or carried into a later line. A source file runs its
lines from line one in order and stops at the first that fails, with its code, having printed the
results of the lines before it once each; `0` means every line succeeded. The interactive loop
runs every line by the same rule on one shared machine and exits with `0` unless reading the
input fails, with `74`. -/
theorem session_reports_each_line (s : Session) (fresh : s.reporter.pending = []) :
    (∀ source line, s.runLine source line = s.lineRule source line ∧
      (s.runLine source line).2.reporter.pending = []) ∧
    (∀ source, s.runSource source = s.ruleLines (source.splitOn "\n") 1 ∧
      (s.runSource source).2.reporter.pending = []) ∧
    ∀ input, s.repl input = s.replRule input ∧
      (s.repl input).1 = (if (inputLines input).2 then exitInput else exitOk) ∧
      (s.repl input).2.reporter.pending = [] := by
  refine ⟨fun source line => ⟨Session.runLine_eq_lineRule fresh source line, ?_⟩,
    fun source => ⟨Session.runSource_eq_ruleLines fresh source, ?_⟩,
    fun input => ⟨Session.repl_eq_replRule fresh input, Session.repl_exit s input, ?_⟩⟩
  · rw [Session.runLine_eq_lineRule fresh, Session.reporter_lineRule]
    exact fresh
  · rw [Session.runSource_eq_ruleLines fresh, Session.reporter_ruleLines]
    exact fresh
  · rw [Session.repl_eq_replRule fresh, Session.reporter_replRule]
    exact fresh

/-- A session that evaluates without bounds and logs nothing below `info`. -/
def plainSession : Session :=
  { machine := default, printTree := false, printBound := none, evalBound := none,
    threshold := .info }

/-- The plain session starts with an empty reporter, so its lines are reported once each. -/
theorem session_reports_each_line_plain :
    plainSession.reporter.pending = [] ∧
      (∀ source line, plainSession.runLine source line = plainSession.lineRule source line ∧
        (plainSession.runLine source line).2.reporter.pending = []) ∧
      (∀ source, plainSession.runSource source =
          plainSession.ruleLines (source.splitOn "\n") 1 ∧
        (plainSession.runSource source).2.reporter.pending = []) ∧
      ∀ input, plainSession.repl input = plainSession.replRule input ∧
        (plainSession.repl input).1 = (if (inputLines input).2 then exitInput else exitOk) ∧
        (plainSession.repl input).2.reporter.pending = [] :=
  ⟨rfl, session_reports_each_line plainSession rfl⟩

end Cli

end Lox
