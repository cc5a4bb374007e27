/-! # The double nearest to a rational number

`nearestBits num den` is the bit pattern of the double nearest to the positive rational
`num / den`, with an exact tie going to the even mantissa, and the infinity when the value rounds
beyond the largest double. This is the rounding every correct reader of decimal text performs.

The value lies in one binade `[2 ^ k, 2 ^ (k + 1))`; its last mantissa bit there is worth
`2 ^ (k - 52)`, or `2 ^ -1074` below the least normal binade. Dividing by that unit and rounding
the quotient gives the mantissa; a carry into a 54th bit moves to the next binade. All arithmetic
is exact, on natural numbers.
-/

namespace Lox.Decimal

/-- Whether `num / den` lies below `2 ^ k`. -/
def belowPower (num den : Nat) (k : Int) : Bool :=
  if 0 ≤ k then num < den * Nat.pow 2 k.toNat else num * Nat.pow 2 (-k).toNat < den

/-- The `k` with `2 ^ k ≤ num / den < 2 ^ (k + 1)`, for positive `num` and `den`. Each of them lies
in its own binade, so the quotient lies within one of the difference of their logarithms. -/
def binadeOf (num den : Nat) : Int :=
  let guess : Int := (Nat.log2 num : Int) - (Nat.log2 den : Int)
  if belowPower num den guess then guess - 1 else guess

/-- The quotient `n / d` rounded to the nearest whole number, a tie to the even one. -/
def roundHalfEven (n d : Nat) : Nat :=
  let q := n / d
  let r := n % d
  if d < 2 * r ∨ (2 * r = d ∧ q % 2 = 1) then q + 1 else q

/-- The bit pattern of the positive infinity. -/
def infinityBits : Nat := 0x7FF * Nat.pow 2 52

/-- **The double nearest to `num / den`**, as its bits (sign bit clear). Zero stands for zero, also
when `den` is zero. -/
def nearestBits (num den : Nat) : UInt64 :=
  if num = 0 ∨ den = 0 then 0
  else
    let unit : Int := max (binadeOf num den - 52) (-1074)
    let mantissa :=
      if 0 ≤ unit then roundHalfEven num (den * Nat.pow 2 unit.toNat)
      else roundHalfEven (num * Nat.pow 2 (-unit).toNat) den
    let (mantissa, unit) :=
      if mantissa = Nat.pow 2 53 then (Nat.pow 2 52, unit + 1) else (mantissa, unit)
    if mantissa < Nat.pow 2 52 then mantissa.toUInt64
    else
      let biased := unit + 1075
      if 2047 ≤ biased then infinityBits.toUInt64
      else (biased.toNat * Nat.pow 2 52 + (mantissa - Nat.pow 2 52)).toUInt64

/-- The double nearest to `num / den`, for a positive `den`. -/
def nearest (num den : Nat) : Float :=
  Float.ofBits (nearestBits num den)

end Lox.Decimal
