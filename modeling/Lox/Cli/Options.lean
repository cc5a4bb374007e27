import Lox.Text.Quote
/-!
# Command-line options

The command line takes these flags, in any order and mixed with the one optional source file:

```
      --ast                print the parsed tree instead of evaluating it
  -e, --eval string        evaluate one expression and exit
      --log-level string   log level (debug, info, warning, error) (default "warning")
      --max-depth int      maximum expression nesting during evaluation and printing, 0 disables the limit (default 1024)
      --no-color           disable colored diagnostics
```

A long flag is `--name`, `--name=value` or `--name value`; a switch takes no separate value but
accepts `--name=value`. A short flag is `-e value`, `-evalue` or `-e=value`, and several short
switches may share one dash. `--` ends the flags, and `-` alone is an argument. `--help` and
`-h` ask for the usage text.

Whole-number values are read with an optional sign and base prefix (`0x`, `0o`, `0b`, or a
leading `0` for octal), underscores allowed between digits, within 64-bit range. Switch values
are `1`, `t`, `T`, `true`, `TRUE`, `True` and their `0`, `f`, `false` counterparts.
-/

namespace Lox.Cli

/-- The settings a command line asks for. -/
structure Options where
  printTree : Bool := false
  maxDepth : Int := 1024
  logLevel : String := "warning"
  noColor : Bool := false
  eval : String := ""
  file : String := ""
  deriving Repr, Inhabited

/-- The first line of the usage text. -/
def usageHead : String := "Usage: loxcore [flags] [/path/to/source.lox]\n"

/-- The usage text, one line per flag. -/
def usage : String :=
  usageHead ++
  "      --ast                print the parsed tree instead of evaluating it\n" ++
  "  -e, --eval string        evaluate one expression and exit\n" ++
  "      --log-level string   log level (debug, info, warning, error) (default \"warning\")\n" ++
  "      --max-depth int      maximum expression nesting during evaluation and printing, 0 disables the limit (default 1024)\n" ++
  "      --no-color           disable colored diagnostics\n"

/-- Why reading a number failed. -/
inductive NumberError where
  | invalid
  | outOfRange
  deriving Repr, DecidableEq

/-- The value of a digit or letter in bases up to 36. -/
def digitValue (c : Char) : Option Nat :=
  if c.isDigit then some (c.toNat - 48)
  else if 'a' ≤ c ∧ c ≤ 'z' then some (c.toNat - 87)
  else if 'A' ≤ c ∧ c ≤ 'Z' then some (c.toNat - 55)
  else none

/-- Whether underscores stand only between digits, or between a base prefix and a digit. -/
def underscoresFit (cs : List Char) : Bool :=
  let cs := match cs with
    | '+' :: r | '-' :: r => r
    | r => r
  let lower (c : Char) : Char := if 'A' ≤ c ∧ c ≤ 'Z' then Char.ofNat (c.toNat + 32) else c
  let (hex, start, body) := match cs with
    | '0' :: p :: r =>
      if lower p == 'x' then (true, '0', r)
      else if lower p == 'b' ∨ lower p == 'o' then (false, '0', r)
      else (false, '^', cs)
    | _ => (false, '^', cs)
  let step (saw c : Char) : Char :=
    if saw == '#' then '#'
    else if c.isDigit ∨ (hex ∧ 'a' ≤ lower c ∧ lower c ≤ 'f') then '0'
    else if c == '_' then (if saw == '0' then '_' else '#')
    else if saw == '_' then '#'
    else '!'
  let last := body.foldl step start
  last != '_' && last != '#'

/-- The magnitude of an unsigned numeral in a base, read digit by digit: a character that is not a
digit of the base is a syntax error, and passing `2 ^ 64 - 1` is a range error at once. -/
def magnitude (base : Nat) : List Char → Nat → Except NumberError Nat
  | [], n => .ok n
  | '_' :: rest, n => magnitude base rest n
  | c :: rest, n =>
    match digitValue c with
    | some d =>
      if base ≤ d then .error .invalid
      else if Nat.pow 2 64 ≤ n * base + d then .error .outOfRange
      else magnitude base rest (n * base + d)
    | none => .error .invalid

/-- **Reading a 64-bit whole number** with an optional sign and base prefix. -/
def readInt (s : String) : Except NumberError Int := do
  let cs := s.toList
  let (negative, body) := match cs with
    | '+' :: r => (false, r)
    | '-' :: r => (true, r)
    | r => (false, r)
  if body.isEmpty then throw .invalid
  let (base, digits) := match body with
    | '0' :: p :: q :: r =>
      if p == 'b' ∨ p == 'B' then (2, q :: r)
      else if p == 'o' ∨ p == 'O' then (8, q :: r)
      else if p == 'x' ∨ p == 'X' then (16, q :: r)
      else (8, p :: q :: r)
    | '0' :: r => (8, r)
    | r => (10, r)
  let n ← magnitude base digits 0
  if cs.contains '_' ∧ !underscoresFit cs then throw .invalid
  if negative then
    if Nat.pow 2 63 < n then throw .outOfRange else pure (-(n : Int))
  else if Nat.pow 2 63 ≤ n then throw .outOfRange else pure n

/-- **Reading a switch value.** -/
def readBool (s : String) : Except NumberError Bool :=
  match s with
  | "1" | "t" | "T" | "true" | "TRUE" | "True" => .ok true
  | "0" | "f" | "F" | "false" | "FALSE" | "False" => .ok false
  | _ => .error .invalid

/-- The flags by name: their short name, and whether they are switches. -/
inductive Flag where
  | ast | eval | logLevel | maxDepth | noColor
  deriving Repr, DecidableEq

namespace Flag

/-- The flag with a long name. -/
def ofName? : String → Option Flag
  | "ast" => some ast | "eval" => some eval | "log-level" => some logLevel
  | "max-depth" => some maxDepth | "no-color" => some noColor
  | _ => none

/-- The long name of a flag. -/
def name : Flag → String
  | ast => "ast" | eval => "eval" | logLevel => "log-level" | maxDepth => "max-depth"
  | noColor => "no-color"

/-- Whether a flag is a switch, which takes `true` when given alone. -/
def isSwitch : Flag → Bool
  | ast | noColor => true
  | _ => false

/-- How a flag is named in an error about its value. -/
def title : Flag → String
  | eval => "-e, --eval"
  | f => "--" ++ f.name

end Flag

/-- The outcome of reading a command line. -/
inductive Parsed where
  /-- The settings, and the arguments that are not flags. -/
  | options (o : Options) (args : List String)
  /-- The usage text was asked for. -/
  | help
  /-- A mistake, with its message, and whether the usage text goes before it. -/
  | mistake (message : String) (withUsage : Bool := false)
  deriving Inhabited

/-- Sets a flag to a value given as text. -/
def Options.set (o : Options) (f : Flag) (v : String) : Except String Options :=
  let bad (reader : String) (e : NumberError) : String :=
    "invalid argument " ++ Text.quote v ++ " for " ++ Text.quote f.title ++ " flag: strconv." ++
      reader ++ ": parsing " ++ Text.quote v ++ ": " ++
      (match e with | .invalid => "invalid syntax" | .outOfRange => "value out of range")
  match f with
  | .ast => match readBool v with
    | .ok b => .ok { o with printTree := b }
    | .error e => .error (bad "ParseBool" e)
  | .noColor => match readBool v with
    | .ok b => .ok { o with noColor := b }
    | .error e => .error (bad "ParseBool" e)
  | .maxDepth => match readInt v with
    | .ok n => .ok { o with maxDepth := n }
    | .error e => .error (bad "ParseInt" e)
  | .logLevel => .ok { o with logLevel := v }
  | .eval => .ok { o with eval := v }

/-- The first byte of a character's UTF-8 form, read as a character of its own (code below 256). -/
def leadByte (c : Char) : Char :=
  Char.ofNat ((c.toString.toUTF8.toList.headD 0).toNat)

/-- The text of a short flag letter in an error, between single quotes. An unknown letter is named
by its first byte read as a character, then once more by that character's first byte: an ASCII
letter stands as it is, and any other becomes `Ã`, since every lead byte of a longer character
lies in `0xC2`–`0xF4`. A letter that needs a value is named as it is. -/
def quoteLetter (unknown : Bool) (c : Char) : String :=
  Text.quoteChar false (if unknown then leadByte (leadByte c) else c)

/-- Reads a run of short flags after one dash (`letters` is what follows the dash, `arg` the whole
argument); the run may take the next argument as a value. A run that starts with `test.` is a
test-runner setting and is passed over. -/
def shortRun (o : Options) (letters : List Char) (arg : String) (rest : List String) :
    Except Parsed (Options × List String) :=
  match letters with
  | [] => .ok (o, rest)
  | 't' :: 'e' :: 's' :: 't' :: '.' :: _ => .ok (o, rest)
  | c :: more =>
    if c = 'e' then
      let (value, rest) : Option String × List String := match more with
        | '=' :: v@(_ :: _) => (some (String.ofList v), rest)
        | [] => match rest with
          | r :: rs => (some r, rs)
          | [] => (none, rest)
        | v => (some (String.ofList v), rest)
      match value with
      | some v => match o.set .eval v with
        | .ok o => .ok (o, rest)
        | .error m => .error (.mistake m)
      | none => .error (.mistake ("flag needs an argument: " ++ quoteLetter false c ++ " in " ++ arg))
    else if c = 'h' then .error .help
    else .error (.mistake ("unknown shorthand flag: " ++ quoteLetter true c ++ " in " ++ arg))

/-- Reads a long flag (`body` is what follows the two dashes, `arg` the whole argument); it may take
the next argument as its value. -/
def longFlag (o : Options) (body : String) (arg : String) (rest : List String) :
    Except Parsed (Options × List String) :=
  match body.toList with
  | [] | '-' :: _ | '=' :: _ => .error (.mistake ("bad flag syntax: " ++ arg))
  | cs =>
    let name := String.ofList (cs.takeWhile (· != '='))
    let given : Option String :=
      if cs.contains '=' then some (String.ofList ((cs.dropWhile (· != '=')).drop 1)) else none
    match Flag.ofName? name with
    | none =>
      if name = "help" then .error .help
      else .error (.mistake ("unknown flag: --" ++ name))
    | some f =>
      let (value, rest) : Option String × List String := match given with
        | some v => (some v, rest)
        | none =>
          if f.isSwitch then (some "true", rest)
          else match rest with
            | r :: rs => (some r, rs)
            | [] => (none, rest)
      match value with
      | some v => match o.set f v with
        | .ok o => .ok (o, rest)
        | .error m => .error (.mistake m)
      | none => .error (.mistake ("flag needs an argument: " ++ arg))

/-- Reads the arguments from the left, collecting those that are not flags. -/
def readArgs (o : Options) (positional : List String) : List String → Parsed
  | [] => .options o positional.reverse
  | arg :: rest =>
    match arg.toList with
    | '-' :: '-' :: [] => .options o (positional.reverse ++ rest)
    | '-' :: '-' :: body =>
      match longFlag o (String.ofList body) arg rest with
      | .ok (o, rest') => if rest'.length ≤ rest.length then readArgs o positional rest' else .help
      | .error p => p
    | '-' :: c :: more =>
      match shortRun o (c :: more) arg rest with
      | .ok (o, rest') => if rest'.length ≤ rest.length then readArgs o positional rest' else .help
      | .error p => p
    | _ => readArgs o (arg :: positional) rest
termination_by args => args.length

/-- **Reading a command line**: its settings and source file, the request for usage, or a mistake.
More than one source file is a mistake that also shows the usage text. -/
def parseArgs (args : List String) : Parsed :=
  match readArgs {} [] args with
  | .options o [] => .options o []
  | .options o [file] => .options { o with file := file } [file]
  | .options _ files =>
    .mistake ("expected at most one source file, got " ++ toString files.length) true
  | other => other

end Lox.Cli
