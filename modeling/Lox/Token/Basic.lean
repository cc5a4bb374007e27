import Lox.Number
import Lox.Token.Kind
/-!
# Tokens and their literal payloads

A token is a kind, the exact source text it was read from (its lexeme), an optional literal
payload, and the line and column where it starts. Lines and columns count from one; a token
whose line is zero or less has no known position. A line is a signed 64-bit word, so counting
lines past the largest one wraps around to the most negative.
-/

namespace Lox

/-- The constant a token or a literal expression carries. -/
inductive Literal where
  | identifier (name : String)
  | str (text : String)
  | number (value : Float)
  | bool (value : Bool)
  | nil
  deriving Repr, Inhabited

namespace Literal

/-- The text of a literal: a name or string as it is, a number by `Number.text`, and `true`,
`false` or `nil`. -/
def text : Literal → String
  | identifier name => name
  | str s => s
  | number x => Number.text x
  | bool true => "true"
  | bool false => "false"
  | nil => "nil"

/-- Two literals are equal when they are of one variant and hold equal values; numbers compare as
doubles, so `NaN` equals nothing and `-0` equals `0`. A missing literal equals nothing. -/
def equal : Option Literal → Option Literal → Bool
  | some (identifier a), some (identifier b) => a == b
  | some (str a), some (str b) => a == b
  | some (number a), some (number b) => a == b
  | some (bool a), some (bool b) => a == b
  | some nil, some nil => true
  | _, _ => false

end Literal

/-- A lexical unit: its kind, its source text, its payload and where it starts. -/
structure Token where
  kind : TokenKind
  lexeme : String
  literal : Option Literal := none
  line : Int64
  column : Int
  deriving Repr, Inhabited

namespace Token

/-- Whether the token carries a source position: errors raised at a token without one carry no
position either. -/
def located (t : Token) : Bool :=
  decide (0 < t.line)

/-- The position written `line:column`. -/
def pos (t : Token) : String :=
  toString t.line ++ ":" ++ toString t.column

/-- A one-line description of every field of the token. -/
def describe (t : Token) : String :=
  let literal := match t.literal with
    | some l => l.text
    | none => "none"
  "Token\x7bkind: " ++ t.kind.name ++ ", lexeme: '" ++ t.lexeme ++ "', literal: " ++ literal ++
    ", line: " ++ toString t.line ++ ", col: " ++ toString t.column ++ "\x7d"

/-- The end-of-input token the parser supplies when a token list lacks one; it has no position. -/
def endMarker : Token :=
  ⟨.eof, "", none, 0, 0⟩

end Token

end Lox
