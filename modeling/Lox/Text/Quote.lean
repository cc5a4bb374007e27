import Lox.Text.Printable
/-!
# Quoted text

`quote` writes a text between double quotes so that it reads back as the same text: the quote
character and a backslash get a backslash, printable characters stand as they are, the usual
control characters get their letter escapes (`\n`, `\t`, …), and every other character is written
by its code: `\x` and two hex digits below the space and for DEL, `\u` and four digits within the
first plane, `\U` and eight digits beyond it.

`quoteAscii` also writes every character beyond ASCII by its code, `quoteChar` quotes one
character between single quotes, and `backquoted` is the raw form between backquotes, which only
texts without control characters (tab apart), backquotes and byte-order marks have.
-/

namespace Lox.Text

/-- The lower-case hex digits of a number, padded with zeros to a width. -/
def hexDigits (width n : Nat) : String :=
  let ds := Nat.toDigits 16 n
  String.ofList (List.replicate (width - ds.length) '0' ++ ds)

/-- The escaped form of one character inside quotes `mark`; with `ascii` only printable ASCII
characters stand as they are. -/
def escapeIn (mark : Char) (ascii : Bool) (c : Char) : String :=
  let n := c.toNat
  if c = mark ∨ c = '\\' then "\\" ++ c.toString
  else if isPrintable c ∧ (!ascii ∨ n < 0x80) then c.toString
  else match n with
    | 0x07 => "\\a" | 0x08 => "\\b" | 0x0C => "\\f" | 0x0A => "\\n" | 0x0D => "\\r"
    | 0x09 => "\\t" | 0x0B => "\\v"
    | _ =>
      if n < 0x20 ∨ n = 0x7F then "\\x" ++ hexDigits 2 n
      else if n < 0x10000 then "\\u" ++ hexDigits 4 n
      else "\\U" ++ hexDigits 8 n

/-- The escaped form of one character inside double quotes. -/
def escapeChar (c : Char) : String :=
  escapeIn '"' false c

/-- **Quoting** a text between double quotes. -/
def quote (s : String) : String :=
  "\"" ++ String.join (s.toList.map escapeChar) ++ "\""

/-- Quoting a text between double quotes with only ASCII characters. -/
def quoteAscii (s : String) : String :=
  "\"" ++ String.join (s.toList.map (escapeIn '"' true)) ++ "\""

/-- Quoting one character between single quotes, with only ASCII characters if asked. -/
def quoteChar (ascii : Bool) (c : Char) : String :=
  "'" ++ escapeIn '\'' ascii c ++ "'"

/-- The text between backquotes, if it can stand there as it is. -/
def backquoted (s : String) : Option String :=
  let fits (c : Char) : Bool :=
    let n := c.toNat
    if n < 0x80 then (0x20 ≤ n ∨ n = 0x09) ∧ n ≠ 0x60 ∧ n ≠ 0x7F else n ≠ 0xFEFF
  if s.toList.all fits then some ("`" ++ s ++ "`") else none

end Lox.Text
