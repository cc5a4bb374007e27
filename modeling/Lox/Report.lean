import Lox.Fault.Basic
/-!
# Reports of errors for people

A report holds the errors of a run until they are printed. Each error is written on two lines:
`Error on line L:C` and then, indented by a tab, `Kind at 'place': message`; an error without a
position is written `Error` and then `Kind: message`. The place is the token's lexeme, or `end`
for an empty lexeme. Writing an error reads its message, so an error whose message cannot be read
crashes the program (`Report.print`).
-/

namespace Lox

/-- The errors of a run that are not printed yet, oldest first. -/
structure Report where
  pending : List Fault := []
  deriving Inhabited

namespace Report

/-- Adds errors; absent ones are dropped. -/
def add (r : Report) (faults : List (Option Fault)) : Report :=
  ⟨r.pending ++ faults.filterMap id⟩

/-- Whether no error is pending. -/
def valid (r : Report) : Bool :=
  r.pending.isEmpty

/-- Whether a pending error is a syntax error. -/
def hadSyntaxError (r : Report) : Bool :=
  r.pending.any (·.kind == .syntaxError)

/-- The two lines of one error. -/
def format (f : Fault) : String :=
  match f.token? with
  | none => "Error\n\t" ++ f.kind.name ++ ": " ++ f.message ++ "\n"
  | some t =>
    let place := if t.lexeme.isEmpty then "end" else t.lexeme
    "Error on line " ++ toString t.line ++ ":" ++ toString t.column ++ "\n\t" ++ f.kind.name ++
      " at '" ++ place ++ "': " ++ f.message ++ "\n"

/-- Prints and forgets the pending errors: whether there were any, the text, and the emptied
report. -/
def flush (r : Report) : Bool × String × Report :=
  (!r.valid, String.join (r.pending.map format), {})

/-- **Printing the pending errors as the program does**: writing an error reads its message, so an
error whose message cannot be read crashes the program; otherwise the errors are flushed. -/
def print (r : Report) : Except Crash (Bool × String × Report) :=
  (r.pending.mapM Fault.readMessage).map fun _ => r.flush

end Report

end Lox
