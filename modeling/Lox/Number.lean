import Lox.Decimal.Fixed
import Lox.Decimal.Nearest
/-!
# Numbers of the language

Numbers are doubles. A numeral is read by rounding its exact decimal value to the nearest double
(ties to even), and a number is written with the fewest digits that read back, positionally,
never with an exponent.
-/

namespace Lox.Number

/-- Whether the sign bit of a double is set; this tells `-0` from `0`. -/
def signBit (x : Float) : Bool :=
  x.toBits >>> 63 == 1

/-- **Number text.** `nan`, `inf` and `-inf` for the values that are not finite; otherwise the
fewest digits that read back (`Decimal.Binary.shortest`), positionally, with a minus sign for a
negative number and for negative zero. -/
def text (x : Float) : String :=
  if x.isNaN then "nan"
  else if x.isInf then (if signBit x then "-inf" else "inf")
  else
    let sign := if signBit x then "-" else ""
    let d := (Decimal.Binary.ofBits x.toBits).shortestDigits
    sign ++ d.positional (d.digits.length - d.point).toNat

/-- The value of a numeral with whole digits `whole` and fraction digits `fraction`, rounded to the
nearest double. -/
def ofDigits (whole fraction : List Nat) : Float :=
  let coefficient := (whole ++ fraction).foldl (fun acc d => 10 * acc + d) 0
  Decimal.nearest coefficient (Nat.pow 10 fraction.length)

end Lox.Number
