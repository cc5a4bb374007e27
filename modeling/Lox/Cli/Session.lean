import Lox.Cli.Log
import Lox.Cli.Options
import Lox.Eval
import Lox.Expr.Parse
import Lox.Report
import Lox.Token.Scan
/-!
# Running the command line

A run reads its options, then evaluates one expression given with `-e`, or the lines of a source
file, or the lines of standard input one by one (the interactive loop). All lines share one
environment holding the globals.

Each line is scanned, parsed and then printed as a tree (`--ast`) or evaluated; its value is
written to standard output, and its errors to standard error in the report format. A line that is
blank, or whose first non-blank characters are `//`, is skipped. The exit code says how the run
ended: `0` success, `64` a usage mistake, `65` a syntax error, `70` an evaluation error, `74` an
input that could not be read.

A source file stops at its first failing line; the interactive loop goes on after a failure,
prompts with `> ` before every read, and ends with a newline; a line of 64 KiB or more ends it
with an input error.

Sources and standard input are text: a line is scanned from its UTF-8 encoding, so a session
never sees bytes that are not UTF-8. A line is interpreted with the globals only, none of which
fails, so reading the message of its evaluation error never crashes, and the session reads it from
`Machine.interpret`.
-/

namespace Lox.Cli

/-- How a run ended, and what it wrote. -/
structure Outcome where
  exit : Nat
  stdout : String
  stderr : String
  deriving Repr, Inhabited

/-- Exit codes. -/
def exitOk : Nat := 0
def exitUsage : Nat := 64
def exitSyntax : Nat := 65
def exitRuntime : Nat := 70
def exitInput : Nat := 74

/-- The white space that is trimmed from a line before it is judged blank: the Unicode white space
characters. -/
def isBlankChar (c : Char) : Bool :=
  let n := c.toNat
  (0x09 ≤ n ∧ n ≤ 0x0D) || n = 0x20 || n = 0x85 || n = 0xA0 || n = 0x1680 ||
    (0x2000 ≤ n ∧ n ≤ 0x200A) || n = 0x2028 || n = 0x2029 || n = 0x202F || n = 0x205F ||
    n = 0x3000

/-- A line without its surrounding white space. -/
def trimBlank (s : String) : List Char :=
  ((s.toList.dropWhile isBlankChar).reverse.dropWhile isBlankChar).reverse

/-- Whether a line is skipped: blank, or a comment. -/
def skipped (s : String) : Bool :=
  match trimBlank s with
  | [] => true
  | '/' :: '/' :: _ => true
  | _ => false

/-- The state of a run: the machine lines are evaluated on, the settings, and what is written. -/
structure Session where
  machine : Machine
  printTree : Bool
  printBound : DepthBound
  evalBound : DepthBound
  threshold : Level
  reporter : Report := {}
  stdout : String := ""
  stderr : String := ""
  deriving Inhabited

namespace Session

/-- Writes to standard output. -/
def out (s : Session) (text : String) : Session :=
  { s with stdout := s.stdout ++ text }

/-- Writes to standard error. -/
def err (s : Session) (text : String) : Session :=
  { s with stderr := s.stderr ++ text }

/-- Writes a log entry, if its level passes the threshold. -/
def log (s : Session) (e : Entry) : Session :=
  s.err (e.under s.threshold)

/-- The log entry of an evaluation event. -/
def eventEntry : Event → Entry
  | .call callee arity => ⟨.debug, "call", [("arity", toString arity), ("callee", callee)]⟩
  | .assign name => ⟨.debug, "assign", [("name", name)]⟩
  | .failed f => ⟨.debug, f.message, [("kind", f.kind.name)] ++
      match f.token? with
      | some t => [("pos", t.pos)]
      | none => []⟩

/-- Logs the events evaluation recorded, and forgets them. -/
def drainTrace (s : Session) : Session :=
  let s' := s.machine.trace.foldl (fun s e => s.log (eventEntry e)) s
  { s' with machine := { s'.machine with trace := #[] } }

/-- Hands errors to the reporter, which holds them until they are printed. -/
def collect (s : Session) (faults : List Fault) : Session :=
  { s with reporter := s.reporter.add (faults.map some) }

/-- Prints the reporter's pending errors to standard error in the report format and forgets them;
whether there were any. -/
def printErrors (s : Session) : Bool × Session :=
  let (had, text, r) := s.reporter.flush
  (had, { s with reporter := r }.err text)

/-- **One line**, numbered `line`: its exit code and the session after it. -/
def runLine (s : Session) (source : String) (line : Int64) : Nat × Session :=
  if skipped source then (exitOk, s)
  else
    let (tokens, scanErrors) := scan (Utf8.encode source) line
    let (failed, s) := (s.collect scanErrors).printErrors
    if failed then (exitSyntax, s)
    else
      -- a parse that fails gives no tree, only its errors
      let (tree, parseErrors) := match Expr.parse tokens with
        | .ok tree => (tree, [])
        | .error es => (Expr.missing, es)
      let (failed, s) := (s.collect parseErrors).printErrors
      if failed then (exitSyntax, s)
      else if s.printTree then
        match tree.render s.printBound 0 with
        | .ok text => (exitOk, s.out (text ++ "\n"))
        | .error f => (exitRuntime, ((s.collect [f]).printErrors).2)
      else
        let (result, m) := s.machine.interpret s.evalBound tree
        let s := { s with machine := m }.drainTrace
        match result with
        | .ok v => (exitOk, s.out (Value.text (some v) ++ "\n"))
        | .error f => (exitRuntime, ((s.collect [f]).printErrors).2)

/-- The lines of a source file, numbered from one, stopping at the first that fails. -/
def runSource (s : Session) (source : String) : Nat × Session :=
  let step (acc : Nat × Session × Int64) (line : String) : Nat × Session × Int64 :=
    let (code, s, n) := acc
    if code ≠ exitOk then acc
    else
      let (code, s) := s.runLine line n
      (code, s, n + 1)
  let (code, s, _) := (source.splitOn "\n").foldl step (exitOk, s, 1)
  (code, s)

end Session

/-- The longest line the interactive loop reads, in bytes. -/
def maxLineBytes : Nat := 65535

/-- A line as the interactive loop reads it: without a final carriage return. -/
def dropReturn (s : String) : String :=
  match s.toList.reverse with
  | '\r' :: rest => String.ofList rest.reverse
  | _ => s

/-- The lines of standard input: split at newlines, the part after the last newline counting only
if it is not empty; and whether reading stops at a line that is too long. -/
def inputLines (input : String) : List String × Bool :=
  let parts := input.splitOn "\n"
  let parts := match parts.reverse with
    | "" :: earlier => earlier.reverse
    | _ => parts
  let fitting := parts.takeWhile fun p => p.utf8ByteSize ≤ maxLineBytes
  (fitting.map dropReturn, fitting.length < parts.length)

namespace Session

/-- The prompt written before each read of the interactive loop. -/
def prompt : String := "> "

/-- One line of the interactive loop, numbered `n`: a failure is logged and the loop goes on. -/
def replLine (s : Session) (text : String) (n : Int64) : Session :=
  let (code, s) := s.runLine text n
  if code ≠ exitOk then s.log ⟨.debug, "line failed", [("line", toString n)]⟩ else s

/-- The end of the interactive loop: a newline after the last prompt, and the error of a line that
was too long. -/
def replEnd (s : Session) (tooLong : Bool) : Nat × Session :=
  let s := s.out "\n"
  if tooLong then
    (exitInput, s.log ⟨.error, "reading input", [("error", "bufio.Scanner: token too long")]⟩)
  else (exitOk, s)

/-- **The interactive loop** over the lines of standard input. -/
def repl (s : Session) (input : String) : Nat × Session :=
  let (lines, tooLong) := inputLines input
  let step (acc : Session × Int64) (text : String) : Session × Int64 :=
    let (s, n) := acc
    ((s.out prompt).replLine text n, n + 1)
  let (s, _) := lines.foldl step (s, 1)
  (s.out prompt).replEnd tooLong

end Session

/-- What a run does after reading its options. -/
inductive Mode where
  /-- Evaluates one line. -/
  | line (source : String)
  /-- Evaluates the lines of a file. -/
  | file (name : String)
  /-- Evaluates the lines of standard input. -/
  | interactive
  deriving Inhabited

/-- The error of a file that cannot be read, logged. -/
def Session.unreadable (s : Session) (name error : String) : Nat × Session :=
  (exitInput, s.log ⟨.error, "cannot read source", [("error", error), ("file", name)]⟩)

/-- **Starting a run**: the outcome at once for a request for usage or a mistake, or else the mode
and the session with its globals, whose `clock` returns the given reading. -/
def start (args : List String) (clock : Float) : Except Outcome (Mode × Session) :=
  match parseArgs args with
  | .help => .error ⟨exitOk, "", usage⟩
  | .mistake message withUsage =>
    .error ⟨exitUsage, "", (if withUsage then usage else "") ++ message ++ "\n"⟩
  | .options o _ =>
    match Level.ofName? o.logLevel with
    | none => .error ⟨exitUsage, "", "not a valid logrus Level: " ++ Text.quote o.logLevel ++ "\n"⟩
    | some level =>
      let (host, env) := Host.defineGlobals { clock := clock } (Env.empty 1) 0
      let s : Session := {
        machine := { env := env, host := host }
        printTree := o.printTree
        printBound := if o.maxDepth ≤ 0 then none else some o.maxDepth.toNat
        evalBound := DepthBound.ofEvaluator o.maxDepth
        threshold := level }
      let mode := if o.eval ≠ "" then Mode.line o.eval
        else if o.file ≠ "" then Mode.file o.file else Mode.interactive
      .ok (mode, s)

/-- **A run** of the command line with its arguments, its standard input, a way to read files
(the content, or the text of the error), and the clock reading the `clock` global returns. -/
def run (args : List String) (stdin : String) (readFile : String → Except String String)
    (clock : Float) : Outcome :=
  match start args clock with
  | .error outcome => outcome
  | .ok (mode, s) =>
    let (code, s) := match mode with
      | .line source => s.runLine source 1
      | .file name =>
        match readFile name with
        | .ok source => s.runSource source
        | .error e => s.unreadable name e
      | .interactive => s.repl stdin
    ⟨code, s.stdout, s.stderr⟩

end Lox.Cli
