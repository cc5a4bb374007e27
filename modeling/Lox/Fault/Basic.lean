import Lox.Text.Template
import Lox.Token.Basic
/-!
# Faults: classified errors and the wrappers around them

A fault is a chain. Its links are plain messages, wrappers that add text around the fault they
wrap, and raised faults, which carry a kind and, when known, the token they were raised at. The
queries of a chain look at its first raised link: its kind (`general` when there is none), its
token, and its message, which is the text of what it was raised with. No error at all is `none`
of `Option Fault`.

Wrapping nothing in a raised link gives a hollow link: it has a kind and maybe a token but no
cause. Its text shows `%!s(<nil>)` where the cause's text would stand. Reading the message of a
chain whose first raised link is hollow reads the missing cause, and the program crashes
(`Crash`, `Fault.readMessage`).

`Fault.attach` gives a position to a fault that has none yet; a fault that already has one
keeps it. Attaching to a hollow link behind wrappers whose text ends with the link's own reads
the link's message, and crashes. `Fault.withToken` is the form the evaluator carries on, where
that crash stands as the hollow link at the token, whose message cannot be read either.
-/

namespace Lox

/-- The classification of a fault. Codes from eight on have no name of their own. -/
inductive ErrorKind where
  | general | typeError | undefinedName | notCallable | arityMismatch | malformedTree
  | depthExceeded | syntaxError
  | unnamed (code : Nat)
  deriving Repr, DecidableEq, Inhabited

namespace ErrorKind

/-- The named kinds, in the order of their codes from zero. -/
def named : List ErrorKind :=
  [general, typeError, undefinedName, notCallable, arityMismatch, malformedTree, depthExceeded,
    syntaxError]

/-- The numeric code of a kind. -/
def code : ErrorKind → Nat
  | general => 0 | typeError => 1 | undefinedName => 2 | notCallable => 3 | arityMismatch => 4
  | malformedTree => 5 | depthExceeded => 6 | syntaxError => 7
  | unnamed c => c

/-- The kind with a numeric code. -/
def ofCode (c : Nat) : ErrorKind :=
  (named[c]?).getD (unnamed c)

/-- The name a kind is written with; a kind without a name of its own is written `Error`. -/
def name : ErrorKind → String
  | general => "Error" | typeError => "TypeError" | undefinedName => "UndefinedName"
  | notCallable => "NotCallable" | arityMismatch => "ArityMismatch"
  | malformedTree => "MalformedTree" | depthExceeded => "DepthExceeded"
  | syntaxError => "SyntaxError"
  | unnamed _ => "Error"

/-- The named kind written with a name. -/
def ofName? (s : String) : Option ErrorKind :=
  named.find? (·.name == s)

end ErrorKind

/-- An error chain. -/
inductive Fault where
  /-- A message with nothing behind it. -/
  | plain (message : String)
  /-- A wrapper whose text is its message, a colon, and the text of what it wraps. -/
  | context (message : String) (inner : Fault)
  /-- A wrapper whose text is the text of what it wraps, a colon, and its message. -/
  | trailing (inner : Fault) (message : String)
  /-- A wrapper with a text of its own. -/
  | retold (text : String) (inner : Fault)
  /-- A classified fault: its kind, the token it was raised at if that is known, and the fault it
  was raised with. -/
  | raised (kind : ErrorKind) (origin : Option Token) (cause : Fault)
  /-- A classified fault raised by wrapping nothing: its kind and the token it was raised at if
  that is known, but no cause. -/
  | hollow (kind : ErrorKind) (origin : Option Token)
  deriving Repr, Inhabited

namespace Fault

/-- Raises a fault of a kind at a token; a token without a position gives no position. -/
def raise (kind : ErrorKind) (site : Token) (cause : Fault) : Fault :=
  .raised kind (if site.located then some site else none) cause

/-- Raises a fault of a kind at a token around a message and what it wraps: the message, a colon
and the wrapped fault's text, or a hollow fault when nothing is wrapped. -/
def wrap (kind : ErrorKind) (site : Token) (inner : Option Fault) (message : String) : Fault :=
  match inner with
  | some f => raise kind site (.context message f)
  | none => .hollow kind (if site.located then some site else none)

/-- Raises a fault of a kind at a token with a message. -/
def new (kind : ErrorKind) (site : Token) (message : String) : Fault :=
  raise kind site (.plain message)

/-- Raises a fault of a kind at a token with the message a template makes of its arguments. -/
def errorf (kind : ErrorKind) (site : Token) (template : String) (args : List Template.Arg) :
    Fault :=
  raise kind site (.plain (Template.format template args))

/-- Puts a message before the text of a fault, keeping the fault behind it; no fault stays no
fault. -/
def annotate (inner : Option Fault) (message : String) : Option Fault :=
  inner.map (context message)

/-- The text formatting writes for a fault to wrap that is missing. -/
def missingWrapped : String :=
  "%!w(<nil>)"

/-- Formats a message, a colon and a fault, which the result wraps; a missing fault is written
`%!w(<nil>)`, and then nothing is wrapped. -/
def formatBefore (message : String) : Option Fault → Fault
  | some inner => context message inner
  | none => plain (message ++ ": " ++ missingWrapped)

/-- Formats a fault, a colon and a message, wrapping the fault as `formatBefore` does. -/
def formatAfter (message : String) : Option Fault → Fault
  | some inner => trailing inner message
  | none => plain (missingWrapped ++ ": " ++ message)

/-- Raises a fault of a kind with a message and no position. -/
def unplaced (kind : ErrorKind) (message : String) : Fault :=
  .raised kind none (.plain message)

/-- What the text of a raised fault names as its place: `end` at the end of input, otherwise the
lexeme of its token. -/
def place (t : Token) : String :=
  if t.kind = .eof then "end" else t.lexeme

/-- The head of a raised fault's text, which its cause's text follows: `[line L:C] Kind at 'place': `
with a token, and `Kind: ` without one. -/
def heading (kind : ErrorKind) : Option Token → String
  | none => kind.name ++ ": "
  | some t =>
    "[line " ++ toString t.line ++ ":" ++ toString t.column ++ "] " ++ kind.name ++ " at '" ++
      place t ++ "': "

/-- The text that stands for a missing cause. -/
def missingText : String :=
  "%!s(<nil>)"

/-- The text of a fault. A raised fault reads as its heading and its cause's text. -/
def text : Fault → String
  | plain message => message
  | context message inner => message ++ ": " ++ inner.text
  | trailing inner message => inner.text ++ ": " ++ message
  | retold t _ => t
  | raised kind origin cause => heading kind origin ++ cause.text
  | hollow kind origin => heading kind origin ++ missingText

/-- The first raised link of a chain: its kind, its token and its cause, which a hollow link
lacks. -/
def firstRaised? : Fault → Option (ErrorKind × Option Token × Option Fault)
  | plain _ => none
  | context _ inner => inner.firstRaised?
  | trailing inner _ => inner.firstRaised?
  | retold _ inner => inner.firstRaised?
  | raised kind origin cause => some (kind, origin, some cause)
  | hollow kind origin => some (kind, origin, none)

/-- The kind of a chain: that of its first raised link, `general` if it has none. -/
def kind (f : Fault) : ErrorKind :=
  match f.firstRaised? with
  | some (k, _, _) => k
  | none => .general

/-- The token of the first raised link, if that link has one. -/
def token? (f : Fault) : Option Token :=
  match f.firstRaised? with
  | some (_, origin, _) => origin
  | none => none

/-- Whether the message of a chain can be read: not when its first raised link is hollow. -/
def readable (f : Fault) : Bool :=
  match f.firstRaised? with
  | some (_, _, none) => false
  | _ => true

/-- The message of a chain: the text of what its first raised link was raised with, or its own
text if it has no raised link. A chain that is not `readable` has the empty message. -/
def message (f : Fault) : String :=
  match f.firstRaised? with
  | some (_, _, some cause) => cause.text
  | some (_, _, none) => ""
  | none => f.text

end Fault

/-- How a run of the program stops without an answer. -/
inductive Crash where
  /-- The message of a hollow link was read: its cause, which is missing, was dereferenced. -/
  | missingCause
  deriving Repr, DecidableEq, Inhabited

namespace Fault

/-- **Reading the message of a chain**, as the program does: the text of what its first raised
link was raised with, or the chain's own text if it has no raised link. Where that link is hollow,
its missing cause is read and the program crashes. -/
def readMessage (f : Fault) : Except Crash String :=
  match f.firstRaised? with
  | some (_, _, some cause) => .ok cause.text
  | some (_, _, none) => .error .missingCause
  | none => .ok f.text

/-- The text of a chain with the text of its first raised link (which has no position) at its end
replaced by that link's message: what stays when the position is moved out to a new outer link.
Where the link is hollow and its text does stand at the end, its message is read, and the program
crashes. -/
def retell (f : Fault) (kind : ErrorKind) (cause : Option Fault) : Except Crash String :=
  let whole := f.text
  let inner := heading kind none ++ ((cause.map text).getD missingText)
  if whole.endsWith inner then
    match cause with
    | some c => .ok (String.ofList (whole.toList.take (whole.length - inner.length)) ++ c.text)
    | none => .error .missingCause
  else .ok whole

/-- **Attaching a position.** A chain without a raised link becomes a general fault at the token.
A chain whose first raised link already has a position, or a token without one, leaves the chain
as it is. A raised or hollow fault itself takes the token. Otherwise the chain is wrapped in a new
raised link of the same kind at the token, whose message is the chain's text with the inner
link's kind and position left out; telling that text crashes where it reads the message of a
hollow link. -/
def attach (f : Fault) (t : Token) : Except Crash Fault :=
  match f.firstRaised? with
  | none => .ok (raise .general t f)
  | some (k, origin, cause) =>
    if origin.isSome || !t.located then .ok f
    else match f with
      | raised direct _ c => .ok (raised direct (some t) c)
      | hollow direct _ => .ok (hollow direct (some t))
      | _ => (f.retell k cause).map fun story => raised k (some t) (retold story f)

/-- Attaching a position as the evaluator carries it on: where attaching crashes, the result is
the hollow link of the chain's kind at the token, whose message cannot be read either, so the
crash comes when the message is read. -/
def withToken (f : Fault) (t : Token) : Fault :=
  match f.attach t with
  | .ok g => g
  | .error _ => hollow f.kind (some t)

end Fault

end Lox
