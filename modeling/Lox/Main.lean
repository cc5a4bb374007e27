import Lox.Cli.Session
/-!
# The command line

Reads the options, then evaluates the `-e` expression, the lines of the named file, or standard
input line by line with a prompt before each read. Output and diagnostics are written as each
line finishes; the process exits with the run's exit code.

Files and standard input are read as UTF-8 text. A file that is not UTF-8 cannot be read as
text, and the run reports it as an input error, where the program would read its bytes.
-/

open Lox Lox.Cli

/-- Writes what a session has collected, and empties its buffers. -/
def flushSession (s : Session) : IO Session := do
  let stdout ← IO.getStdout
  let stderr ← IO.getStderr
  stdout.putStr s.stdout
  stdout.flush
  stderr.putStr s.stderr
  stderr.flush
  return { s with stdout := "", stderr := "" }

/-- The text of an error reading a file, as the run reports it. -/
def readError (name : String) : IO.Error → String
  | .noFileOrDirectory .. => "open " ++ name ++ ": no such file or directory"
  | .inappropriateType .. => "read " ++ name ++ ": is a directory"
  | .permissionDenied .. => "open " ++ name ++ ": permission denied"
  | e => "open " ++ name ++ ": " ++ toString e

/-- Reads standard input line by line and evaluates each line. -/
partial def interact (stdin : IO.FS.Stream) (s : Session) (n : Int64) : IO (Nat × Session) := do
  let s ← flushSession (s.out Session.prompt)
  let raw ← stdin.getLine
  if raw.isEmpty then return (s.replEnd false)
  let text := if raw.endsWith "\n" then String.ofList (raw.toList.dropLast) else raw
  if maxLineBytes < text.utf8ByteSize then return (s.replEnd true)
  let s ← flushSession (s.replLine (dropReturn text) n)
  interact stdin s (n + 1)

def main (args : List String) : IO UInt32 := do
  let clock := (← IO.monoNanosNow).toFloat / 1000000000
  match start args clock with
  | .error o =>
    let _ ← flushSession { (default : Session) with stdout := o.stdout, stderr := o.stderr }
    return o.exit.toUInt32
  | .ok (mode, s) =>
    let (code, s) ← match mode with
      | .line source => pure (s.runLine source 1)
      | .file name =>
        try
          let source ← IO.FS.readFile name
          pure (s.runSource source)
        catch e => pure (s.unreadable name (readError name e))
      | .interactive => interact (← IO.getStdin) s 1
    let _ ← flushSession s
    return code.toUInt32
