import Lox.Decimal.Nearest
/-!
# Reading numerals with every notation of a double

`readFloat?` accepts, after an optional sign: `inf`, `infinity` or (unsigned) `nan` in any mix of
cases; a decimal mantissa with an optional point and an optional `e` exponent; or a `0x`
hexadecimal mantissa with a mandatory `p` binary exponent. Underscores may stand between digits,
or between a base prefix and a digit. An exponent counts its digits only until it reaches 10000.
The value is the exact value of the numeral rounded to the
nearest double, ties to even; beyond the largest double it is an infinity and below the least it
is zero.

`readInt?` reads an integer with an optional sign and an optional base prefix (`0x`, `0o`, `0b`, or
a bare leading `0` for octal), with the same rule for underscores.
-/

namespace Lox.Decimal

/-- A character in lower case, for the ASCII letters. -/
def lower (c : Char) : Char :=
  if 'A' ≤ c ∧ c ≤ 'Z' then Char.ofNat (c.toNat + 32) else c

/-- Whether the underscores of a numeral stand only between digits, or between a base prefix and a
digit. -/
def underscoresFit (cs : List Char) : Bool :=
  let cs := match cs with
    | '+' :: r | '-' :: r => r
    | r => r
  let (hex, start, body) := match cs with
    | '0' :: p :: r =>
      if lower p == 'x' then (true, '0', r)
      else if lower p == 'b' ∨ lower p == 'o' then (false, '0', r)
      else (false, '^', cs)
    | _ => (false, '^', cs)
  let step (saw c : Char) : Char :=
    if saw == '#' then '#'
    else if c.isDigit ∨ (hex ∧ 'a' ≤ lower c ∧ lower c ≤ 'f') then '0'
    else if c == '_' then (if saw == '0' then '_' else '#')
    else if saw == '_' then '#'
    else '!'
  let last := body.foldl step start
  last != '_' && last != '#'

/-- The value of a hexadecimal digit. -/
def hexValue (c : Char) : Option Nat :=
  if c.isDigit then some (c.toNat - 48)
  else if 'a' ≤ lower c ∧ lower c ≤ 'f' then some ((lower c).toNat - 87)
  else none

/-- The exact rational `m * 10 ^ e` rounded to the nearest double. A value whose leading digit
lies beyond `10 ^ 310` is an infinity and one below `10 ^ -330` is zero, which spares the
arithmetic of huge exponents. -/
def ofDecimal (m : Nat) (e : Int) : Float :=
  let magnitude : Int := (toString m).length + e
  if m = 0 then 0
  else if 310 < magnitude then 1.0 / 0.0
  else if magnitude < -330 then 0
  else if 0 ≤ e then nearest (m * Nat.pow 10 e.toNat) 1
  else nearest m (Nat.pow 10 (-e).toNat)

/-- The exact rational `m * 2 ^ e` rounded to the nearest double, with the same cut-offs. -/
def ofBinary (m : Nat) (e : Int) : Float :=
  let magnitude : Int := (Nat.log2 m : Int) + e
  if m = 0 then 0
  else if 1030 < magnitude then 1.0 / 0.0
  else if magnitude < -1100 then 0
  else if 0 ≤ e then nearest (m * Nat.pow 2 e.toNat) 1
  else nearest m (Nat.pow 2 (-e).toNat)

/-- Digits in some base with underscores skipped: the value, how many digits there were, and the
rest of the input. -/
def digitsIn (base : Nat) : List Char → Nat → Nat → Nat × Nat × List Char
  | c :: rest, acc, count =>
    if c == '_' then digitsIn base rest acc count
    else match hexValue c with
      | some d => if d < base then digitsIn base rest (acc * base + d) (count + 1)
        else (acc, count, c :: rest)
      | none => (acc, count, c :: rest)
  | [], acc, count => (acc, count, [])

/-- Exponent digits, underscores skipped: the value grows only while it is below 10000, so the
later digits of a longer exponent are passed over. Gives the value, how many digits there were,
and the rest of the input. -/
def exponentDigits : List Char → Nat → Nat → Nat × Nat × List Char
  | c :: rest, acc, count =>
    if c == '_' then exponentDigits rest acc count
    else if c.isDigit then
      exponentDigits rest (if acc < 10000 then acc * 10 + (c.toNat - 48) else acc) (count + 1)
    else (acc, count, c :: rest)
  | [], acc, count => (acc, count, [])

/-- An exponent: an optional sign and at least one decimal digit, underscores skipped. -/
def exponent? (cs : List Char) : Option (Int × List Char) :=
  let (negative, rest) := match cs with
    | '+' :: r => (false, r)
    | '-' :: r => (true, r)
    | r => (false, r)
  let (value, count, rest) := exponentDigits rest 0 0
  if count = 0 then none else some (if negative then -(value : Int) else value, rest)

/-- The unsigned value of a numeral that is not a special word. -/
def unsignedValue? (cs : List Char) : Option Float :=
  match cs with
  | '0' :: x :: rest =>
    if lower x == 'x' then
      let (whole, n, rest) := digitsIn 16 rest 0 0
      let (mantissa, fractionDigits, rest) := match rest with
        | '.' :: r =>
          let (frac, k, r) := digitsIn 16 r whole 0
          (frac, k, r)
        | r => (whole, 0, r)
      if n + fractionDigits = 0 then none
      else match rest with
        | p :: r =>
          if lower p == 'p' then
            match exponent? r with
            | some (e, []) => some (ofBinary mantissa (e - 4 * fractionDigits))
            | _ => none
          else none
        | [] => none
    else decimal cs
  | _ => decimal cs
where
  /-- A decimal mantissa with an optional exponent. -/
  decimal (cs : List Char) : Option Float :=
    let (whole, n, rest) := digitsIn 10 cs 0 0
    let (mantissa, fractionDigits, rest) := match rest with
      | '.' :: r =>
        let (frac, k, r) := digitsIn 10 r whole 0
        (frac, k, r)
      | r => (whole, 0, r)
    if n + fractionDigits = 0 then none
    else
      let scaled (e : Int) : Float := ofDecimal mantissa (e - fractionDigits)
      match rest with
      | [] => some (scaled 0)
      | c :: r =>
        if lower c == 'e' then
          match exponent? r with
          | some (e, []) => some (scaled e)
          | _ => none
        else none

/-- **Reading a double** from any of its notations, or `none` if the text is not a numeral. -/
def readFloat? (s : String) : Option Float :=
  let cs := s.toList
  let (negative, body) := match cs with
    | '+' :: r => (false, r)
    | '-' :: r => (true, r)
    | r => (false, r)
  let signed (x : Float) : Float := if negative then -x else x
  if cs.map lower == "nan".toList then some (0.0 / 0.0)
  else if body.map lower == "inf".toList ∨ body.map lower == "infinity".toList then
    some (signed (1.0 / 0.0))
  else if cs.contains '_' ∧ !underscoresFit cs then none
  else (unsignedValue? body).map signed

/-- **Reading an integer** with an optional sign and base prefix. -/
def readInt? (s : String) : Option Int :=
  let cs := s.toList
  let (negative, body) := match cs with
    | '+' :: r => (false, r)
    | '-' :: r => (true, r)
    | r => (false, r)
  let (base, digits) := match body with
    | '0' :: p :: r =>
      if lower p == 'x' then (16, r) else if lower p == 'o' then (8, r)
      else if lower p == 'b' then (2, r) else (8, p :: r)
    | r => (10, r)
  let (value, count, rest) := digitsIn base digits 0 0
  if (cs.contains '_' ∧ !underscoresFit cs) ∨ !rest.isEmpty ∨ count = 0 then none
  else some (if negative then -(value : Int) else value)

end Lox.Decimal
