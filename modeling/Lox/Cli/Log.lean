import Lox.Text.Quote
/-!
# Log lines

A log entry has a level, a message and named fields. It is written on one line as `level=L`,
then `msg=M` unless the message is empty, then the fields sorted by name, each `key=value`. A
value is written as it is when every character is an ASCII letter or digit or one of `- . _ / @
^ +`, and quoted otherwise; an empty value is written as nothing.

An entry is written only if its level is at or above the logger's threshold.
-/

namespace Lox.Cli

/-- The severity of a log entry, from the most severe. -/
inductive Level where
  | panic | fatal | error | warning | info | debug | trace
  deriving Repr, DecidableEq, Inhabited

namespace Level

/-- The rank of a level: lower is more severe. -/
def rank : Level → Nat
  | panic => 0 | fatal => 1 | error => 2 | warning => 3 | info => 4 | debug => 5 | trace => 6

/-- The name a level is written with. -/
def name : Level → String
  | panic => "panic" | fatal => "fatal" | error => "error" | warning => "warning"
  | info => "info" | debug => "debug" | trace => "trace"

/-- A character in lower case: the ASCII letters, and the two other characters whose lower case
is an ASCII letter (the Kelvin sign and the dotted capital I). -/
def lowerChar (c : Char) : Char :=
  if 'A' ≤ c ∧ c ≤ 'Z' then Char.ofNat (c.toNat + 32)
  else if c.toNat = 0x212A then 'k'
  else if c.toNat = 0x130 then 'i'
  else c

/-- The level a name asks for, in any case; `warn` is a second name of `warning`. -/
def ofName? (s : String) : Option Level :=
  match String.ofList (s.toList.map lowerChar) with
  | "panic" => some panic | "fatal" => some fatal | "error" => some error
  | "warn" | "warning" => some warning | "info" => some info | "debug" => some debug
  | "trace" => some trace
  | _ => none

end Level

/-- One log entry. -/
structure Entry where
  level : Level
  message : String
  fields : List (String × String) := []
  deriving Inhabited

/-- Whether a value can be written without quotes. -/
def plainValue (s : String) : Bool :=
  s.toList.all fun (c : Char) => c.isAlphanum || "-._/@^+".toList.contains c

/-- A value as written in a log line. -/
def value (s : String) : String :=
  if plainValue s then s else Text.quote s

/-- Inserts a field into a list sorted by name. -/
def insertField (f : String × String) : List (String × String) → List (String × String)
  | [] => [f]
  | g :: rest => if f.1 < g.1 then f :: g :: rest else g :: insertField f rest

/-- **A log line**, ending with a newline. -/
def Entry.render (e : Entry) : String :=
  let fields := e.fields.foldr insertField []
  let pairs := ("level", e.level.name) ::
    ((if e.message.isEmpty then [] else [("msg", e.message)]) ++ fields)
  " ".intercalate (pairs.map fun (k, v) => k ++ "=" ++ value v) ++ "\n"

/-- The text a logger with a threshold writes for an entry: its line, or nothing. -/
def Entry.under (e : Entry) (threshold : Level) : String :=
  if e.level.rank ≤ threshold.rank then e.render else ""

end Lox.Cli
