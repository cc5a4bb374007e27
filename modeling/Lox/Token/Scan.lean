import Lox.Fault.Problem
import Lox.Text.Utf8
/-!
# Scanning source bytes into tokens

The scanner reads the source from left to right and cuts it into pieces, each decided by maximal
munch from its first byte: a token, an error, or a blank (one whitespace byte, or a `//` comment
up to the next newline). Scanning never stops at a problem: it records the problem as an error
at an `ILLEGAL` token and goes on after the bytes that caused it. The tokens end with one `EOF`
token at the place where the input ends.

Lines count newline bytes from the start line, in 64-bit words that wrap around. Columns count characters from one: every byte that
begins a character advances the column, so a multi-byte character counts once, a stray
continuation byte not at all, and any other ill-formed byte once.

The cut into pieces and the positions are decided on the bytes. The text a token carries, its
lexeme and the value of a string literal, is decoded from its bytes (`Utf8.decode`), so an
ill-formed byte in it is held as U+FFFD.
-/

namespace Lox

/-- Where the scanner stands: the line, and how many characters of it are already read. -/
structure Cursor where
  line : Int64
  read : Nat
  deriving Repr, DecidableEq, Inhabited

/-- The cursor after reading some bytes: a newline starts the next line, and every other byte that
begins a character advances the column. -/
def Cursor.over (c : Cursor) : List UInt8 → Cursor
  | [] => c
  | b :: bs =>
    let next : Cursor :=
      if b = 10 then ⟨c.line + 1, 0⟩ else if Utf8.begins b then ⟨c.line, c.read + 1⟩ else c
    next.over bs

/-- The column of the next character. -/
def Cursor.column (c : Cursor) : Int :=
  c.read + 1

/-- What the bytes at the head of the input make. -/
inductive Piece where
  /-- A token of some kind with its literal. -/
  | token (kind : TokenKind) (literal : Option Literal)
  /-- A problem, raised at an `ILLEGAL` token over the same bytes. -/
  | problem (p : Problem)
  /-- Whitespace or a comment. -/
  | blank
  deriving Repr, Inhabited

namespace Scan

/-- Decimal digits. -/
def isDigit (b : UInt8) : Bool :=
  Utf8.within 0x30 0x39 b

/-- Letters of the ASCII alphabet and the underscore: the bytes a name may begin with. -/
def isAlpha (b : UInt8) : Bool :=
  Utf8.within 0x61 0x7A b || Utf8.within 0x41 0x5A b || b == 0x5F

/-- The bytes a name may continue with. -/
def isAlphaNumeric (b : UInt8) : Bool :=
  isAlpha b || isDigit b

/-- The value of a decimal digit byte. -/
def digitValue (b : UInt8) : Nat :=
  b.toNat - 0x30

/-- The kind of a token of one byte. -/
def single? : UInt8 → Option TokenKind
  | 0x28 => some .leftParen | 0x29 => some .rightParen
  | 0x7B => some .leftBrace | 0x7D => some .rightBrace
  | 0x2C => some .comma | 0x2E => some .dot | 0x2D => some .minus | 0x2B => some .plus
  | 0x3B => some .semicolon | 0x2A => some .star
  | _ => none

/-- For the bytes that begin an operator of one or two bytes, the kind alone and the kind with a
following `=`. -/
def pair? : UInt8 → Option (TokenKind × TokenKind)
  | 0x21 => some (.bang, .bangEqual)
  | 0x3D => some (.equal, .equalEqual)
  | 0x3C => some (.less, .lessEqual)
  | 0x3E => some (.greater, .greaterEqual)
  | _ => none

/-- The piece of a numeral: whole digits, then a point and fraction digits only if a digit follows
the point. Its value is the nearest double; a numeral too large for a double is a problem. -/
def numeral (whole rest : List UInt8) : Piece × Nat :=
  let fraction := match rest with
    | 0x2E :: d :: more => if isDigit d then d :: more.takeWhile isDigit else []
    | _ => []
  let digits := whole ++ (if fraction.isEmpty then [] else 0x2E :: fraction)
  let value := Number.ofDigits (whole.map digitValue) (fraction.map digitValue)
  let piece := if value.isInf then Piece.problem (.invalidNumber (Utf8.decode digits))
    else Piece.token .number (some (.number value))
  (piece, digits.length)

/-- The piece of a name or reserved word. -/
def word (name : List UInt8) : Piece × Nat :=
  let text := Utf8.decode name
  let piece := match TokenKind.keyword? text with
    | some k => Piece.token k none
    | none => Piece.token .identifier (some (.identifier text))
  (piece, name.length)

/-- The piece that starts with byte `b`, followed by `rest`, and how many bytes of `rest` it
takes. -/
def first (b : UInt8) (rest : List UInt8) : Piece × Nat :=
  match single? b with
  | some k => (.token k none, 0)
  | none =>
  match pair? b with
  | some (alone, withEqual) =>
    if rest.head? = some 0x3D then (.token withEqual none, 1) else (.token alone none, 0)
  | none =>
  if b = 0x2F then
    if rest.head? = some 0x2F then (.blank, (rest.takeWhile (· != 10)).length)
    else (.token .slash none, 0)
  else if b = 0x20 ∨ b = 0x0D ∨ b = 0x09 ∨ b = 0x0A then (.blank, 0)
  else if b = 0x22 then
    let body := rest.takeWhile (· != 0x22)
    if body.length < rest.length then
      (.token .string (some (.str (Utf8.decode body))), body.length + 1)
    else (.problem .unterminatedString, rest.length)
  else if isDigit b then
    let whole := b :: rest.takeWhile isDigit
    let (piece, n) := numeral whole (rest.dropWhile isDigit)
    (piece, n - 1)
  else if isAlpha b then
    let (piece, n) := word (b :: rest.takeWhile isAlphaNumeric)
    (piece, n - 1)
  else
    let (c, n) := Utf8.head b rest
    (.problem (.unexpectedCharacter c), n)

/-- The pieces of the input, with the bytes each one covers and the cursor where it starts. -/
def pieces (bytes : List UInt8) (origin : Cursor) : List (Piece × List UInt8 × Cursor) :=
  match bytes with
  | [] => []
  | b :: rest =>
    let (piece, n) := first b rest
    let taken := b :: rest.take n
    (piece, taken, origin) :: pieces (rest.drop n) (origin.over taken)
termination_by bytes.length
decreasing_by simp only [List.length_drop, List.length_cons]; omega

end Scan

/-- The token or error a piece makes, given its bytes and where it starts. -/
def Piece.emit : Piece × List UInt8 × Cursor → Option (Sum Token Fault)
  | (.token kind literal, bytes, origin) =>
    some (.inl ⟨kind, Utf8.decode bytes, literal, origin.line, origin.column⟩)
  | (.problem p, bytes, origin) =>
    some (.inr (p.raiseAt ⟨.illegal, Utf8.decode bytes, none, origin.line, origin.column⟩))
  | (.blank, _, _) => none

/-- The first line number a scan may start from: anything below one counts as one. -/
def startLine (line : Int64) : Int64 :=
  if line < 1 then 1 else line

/-- **Scanning.** The tokens of the source, ending with `EOF`, and the errors, both in source
order; the first line is numbered `line`. -/
def scan (source : List UInt8) (line : Int64) : List Token × List Fault :=
  let start : Cursor := ⟨startLine line, 0⟩
  let made := (Scan.pieces source start).filterMap Piece.emit
  let finish := start.over source
  let tokens := made.filterMap fun | .inl t => some t | .inr _ => none
  let errors := made.filterMap fun | .inr f => some f | .inl _ => none
  (tokens ++ [⟨.eof, "", none, finish.line, finish.column⟩], errors)

end Lox
