import Lox.Fault.Problem
/-!
# Runtime values

A value is `nil`, a boolean, a number, a string, or a native function. A binding may also be
hollow, holding no value at all; reading a hollow binding as a variable gives `nil`, and the
operations below treat a hollow value as `nil`-typed, falsy and equal to nothing.

`nil` and `false` are the falsy values; all others are truthy. Equality is by variant and value:
numbers compare as doubles, and functions by identity.

A string holds text, decoded from the bytes of its literal with every ill-formed byte read as
U+FFFD (`Utf8.decode`). Two strings whose bytes differ only in ill-formed bytes are therefore one
string here, where the program, which keeps the bytes, tells them apart; sources that are UTF-8
throughout, as every source read as text is, are not affected.
-/

namespace Lox

/-- A native function as a value: its identity, its name and its arity. -/
structure NativeRef where
  id : Nat
  name : String
  arity : Int
  deriving Repr, DecidableEq, Inhabited

/-- The text of a native function. -/
def NativeRef.text (f : NativeRef) : String :=
  if f.name.isEmpty then "<native fn>" else "<native fn " ++ f.name ++ ">"

/-- A runtime value. -/
inductive Value where
  | nil
  | bool (b : Bool)
  | number (x : Float)
  | str (s : String)
  | native (f : NativeRef)
  deriving Repr, Inhabited

namespace Value

/-- The constant of a literal as a value; names become strings. -/
def ofLiteral : Option Literal → Except Fault Value
  | some (.number x) => .ok (number x)
  | some (.str s) => .ok (str s)
  | some (.identifier s) => .ok (str s)
  | some (.bool b) => .ok (bool b)
  | some .nil => .ok nil
  | none => .error Problem.literalWithoutValue.unplaced

/-- Whether a value counts as true: all but `nil`, `false` and a hollow value. -/
def truthy : Option Value → Bool
  | some nil | none => false
  | some (bool b) => b
  | some _ => true

/-- Equality of values by variant and value; a hollow value equals nothing, itself included. -/
def equal : Option Value → Option Value → Bool
  | some nil, some nil => true
  | some (bool a), some (bool b) => a == b
  | some (number a), some (number b) => a == b
  | some (str a), some (str b) => a == b
  | some (native f), some (native g) => f.id == g.id
  | _, _ => false

/-- The name of a value's type. -/
def typeName : Option Value → String
  | some (bool _) => "bool"
  | some (number _) => "number"
  | some (str _) => "string"
  | some (native _) => "function"
  | some nil | none => "nil"

/-- The text of a value: `nil`, `true` or `false`, the number's text, the string itself, or the
function's text. -/
def text : Option Value → String
  | some nil | none => "nil"
  | some (bool true) => "true"
  | some (bool false) => "false"
  | some (number x) => Number.text x
  | some (str s) => s
  | some (native f) => f.text

end Value

end Lox
