import Lox.Decimal.Shortest
/-!
# Decimal digits at a fixed precision, and their layouts

A double's digits are either the shortest that read back (`Binary.shortest`) or its exact value
rounded, half to even, to a number of significant digits or of places after the point. Either
way they are held as `Digits`: significant digits without trailing zeros and the position of the
point, the value being `0.d₁d₂… × 10 ^ point`.

Two layouts write them: *scientific*, one digit, a point, a number of digits and an exponent of at
least two digits; and *positional*, the whole part (at least `0`), then a point and a number of
places. Missing digits are zeros.
-/

namespace Lox.Decimal

/-- Significant digits, without trailing zeros, and the position of the point. -/
structure Digits where
  digits : List Nat
  point : Int
  deriving Repr, DecidableEq, Inhabited

/-- The decimal digits of a number, most significant first. -/
def decimalDigits (n : Nat) : List Nat :=
  (toString n).toList.map fun c => c.toNat - 48

/-- The digits of `c * 10 ^ i`. -/
def Digits.ofScaled (c : Nat) (i : Int) : Digits :=
  if c = 0 then ⟨[], 0⟩
  else
    let (c, i) := trimZeros c i
    let ds := decimalDigits c
    ⟨ds, ds.length + i⟩

namespace Binary

/-- The value divided by `10 ^ i`, rounded to the nearest whole number, a half to the even one. -/
def roundAt (b : Binary) (i : Int) : Nat :=
  let num := b.mantissa * Nat.pow 2 b.exponent.toNat * Nat.pow 10 (-i).toNat
  let den := Nat.pow 2 (-b.exponent).toNat * Nat.pow 10 i.toNat
  let q := num / den
  let r := num % den
  if den < 2 * r then q + 1 else if 2 * r < den then q else if q % 2 = 0 then q else q + 1

/-- The shortest digits that read back. -/
def shortestDigits (b : Binary) : Digits :=
  if b.mantissa = 0 then ⟨[], 0⟩ else
  let (c, i) := b.shortest
  Digits.ofScaled c i

/-- The value rounded to `n` significant digits (at least one). A double's exact value has fewer
than 1400 significant digits, so more digits than that change nothing. -/
def significantDigits (b : Binary) (n : Nat) : Digits :=
  if b.mantissa = 0 then ⟨[], 0⟩ else
  let n := min (max n 1) 1400
  let k := b.scale
  Digits.ofScaled (b.roundAt (k - n)) (k - n)

/-- The value rounded to `p` places after the point. A double's exact value has at most 1074
places, so more places than that change nothing. -/
def placesDigits (b : Binary) (p : Nat) : Digits :=
  if b.mantissa = 0 then ⟨[], 0⟩ else
  let p := min p 1100
  Digits.ofScaled (b.roundAt (-(p : Int))) (-(p : Int))

end Binary

namespace Digits

/-- The digit at a position counted from the first significant one; zero beyond the digits. -/
def at? (d : Digits) (i : Int) : Nat :=
  if i < 0 then 0 else d.digits.getD i.toNat 0

/-- A digit as a character. -/
def char (n : Nat) : Char :=
  Char.ofNat (48 + n)

/-- The digits at `count` positions from `start` on, as characters: those before the first
significant digit and after the last are zeros. -/
def window (d : Digits) (start : Int) (count : Nat) : List Char :=
  let lead := min count (-start).toNat
  let body := ((d.digits.drop start.toNat).take (count - lead)).map char
  List.replicate lead '0' ++ body ++ List.replicate (count - lead - body.length) '0'

/-- The scientific layout with `prec` digits after the point and the exponent marker `mark`. -/
def scientific (d : Digits) (prec : Nat) (mark : Char) : String :=
  let first := char (d.at? 0)
  let rest := d.window 1 prec
  let exp : Int := if d.digits.isEmpty then 0 else d.point - 1
  let expDigits := toString exp.natAbs
  let expText := if expDigits.length < 2 then "0" ++ expDigits else expDigits
  String.ofList (first :: (if prec = 0 then [] else '.' :: rest)) ++ mark.toString ++
    (if exp < 0 then "-" else "+") ++ expText

/-- The positional layout with `prec` places after the point. -/
def positional (d : Digits) (prec : Nat) : String :=
  let whole : List Char :=
    if d.point ≤ 0 then ['0']
    else d.window 0 d.point.toNat
  let places := d.window d.point prec
  String.ofList (whole ++ (if prec = 0 then [] else '.' :: places))

end Digits

end Lox.Decimal
