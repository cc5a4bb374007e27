/-!
# Shortest decimal digits of a binary floating-point value

A finite positive double is `mantissa * 2 ^ exponent`. Every real number strictly between the
midpoints to its two neighbours reads back as that double; the midpoints themselves read back as
it exactly when its mantissa is even, because reading rounds a tie to the even mantissa.

`Binary.shortest` returns the decimal `coefficient * 10 ^ exponent` with the fewest significant
digits inside that interval and, of the two candidates on that decimal grid, the one nearer to the
value; an exact tie goes to the even coefficient. The step from "some point of a grid lies in the
interval" to "one of the value's two neighbours on that grid does" is what lets each grid be
tested with two candidates only. All arithmetic is exact, on natural numbers.
-/

namespace Lox.Decimal

/-- A finite positive double as `mantissa * 2 ^ exponent`. `narrowBelow` says that the gap to the
next smaller double is half the gap to the next larger one: the mantissa is the least of its
binade and the binade is not the lowest. -/
structure Binary where
  mantissa : Nat
  exponent : Int
  narrowBelow : Bool
  deriving Repr, DecidableEq

/-- The magnitude of a double, from its bits; the sign bit is ignored. -/
def Binary.ofBits (bits : UInt64) : Binary :=
  let fraction : Nat := bits.toNat % Nat.pow 2 52
  let biased : Nat := bits.toNat / Nat.pow 2 52 % Nat.pow 2 11
  if biased = 0 then ⟨fraction, -1074, false⟩
  else ⟨fraction + Nat.pow 2 52, (biased : Int) - 1075, fraction == 0 && decide (1 < biased)⟩

/-- Compares `a * 10 ^ i` with `b * 2 ^ j` exactly, by moving every negative power to the other
side. -/
def compareScaled (a : Nat) (i : Int) (b : Nat) (j : Int) : Ordering :=
  compare (a * Nat.pow 10 i.toNat * Nat.pow 2 (-j).toNat) (b * Nat.pow 10 (-i).toNat * Nat.pow 2 j.toNat)

namespace Binary

/-- Whether the decimal `c * 10 ^ i` reads back as `b`. In units of `2 ^ (exponent - 2)` the value
is `4 * mantissa`, the upper midpoint `4 * mantissa + 2` and the lower one `4 * mantissa - 2`, or
`4 * mantissa - 1` below the least mantissa of a binade. -/
def admits (b : Binary) (c : Nat) (i : Int) : Bool :=
  let low := if b.narrowBelow then 4 * b.mantissa - 1 else 4 * b.mantissa - 2
  let high := 4 * b.mantissa + 2
  let unit := b.exponent - 2
  let inclusive := b.mantissa % 2 == 0
  match compareScaled c i low unit, compareScaled c i high unit with
  | .lt, _ => false
  | _, .gt => false
  | .eq, _ => inclusive
  | _, .eq => inclusive
  | _, _ => true

/-- The least `k` with the value below `10 ^ k`. The binary exponent times `log10 2` (as
`78913 / 2 ^ 18`) is within one of it, and the candidates around that estimate are tried in
increasing order. -/
def scale (b : Binary) : Int :=
  let binade : Int := (Nat.log2 b.mantissa : Int) + b.exponent
  let guess := binade * 78913 / 262144
  let below (k : Int) : Bool := compareScaled 1 k b.mantissa b.exponent == .gt
  ([guess - 1, guess, guess + 1, guess + 2].find? below).getD (guess + 3)

/-- The largest `c` with `c * 10 ^ i` at most the value. -/
def floorAt (b : Binary) (i : Int) : Nat :=
  b.mantissa * Nat.pow 2 b.exponent.toNat * Nat.pow 10 (-i).toNat / (Nat.pow 2 (-b.exponent).toNat * Nat.pow 10 i.toNat)

/-- Of the value's two neighbours on the grid of spacing `10 ^ i`, the one that reads back; the
nearer if both do, and the even one if they are equally near. -/
def pickAt (b : Binary) (i : Int) : Option Nat :=
  let c := b.floorAt i
  match b.admits c i, b.admits (c + 1) i with
  | false, false => none
  | true, false => some c
  | false, true => some (c + 1)
  | true, true =>
    -- the midpoint of the two candidates against the value, both doubled
    match compareScaled (2 * c + 1) i (2 * b.mantissa) b.exponent with
    | .gt => some c
    | .lt => some (c + 1)
    | .eq => some (if c % 2 == 0 then c else c + 1)

end Binary

/-- Drops the trailing zeros of a coefficient into its exponent. -/
def trimZeros (c : Nat) (i : Int) : Nat × Int :=
  if c ≠ 0 ∧ c % 10 = 0 then trimZeros (c / 10) (i + 1) else (c, i)
termination_by c
decreasing_by omega

/-- **Shortest digits.** The decimal `c * 10 ^ i` of fewest significant digits that reads back as
`b`, the nearest such, with no trailing zeros in `c`. Seventeen significant digits always
suffice for a double. -/
def Binary.shortest (b : Binary) : Nat × Int :=
  let k := b.scale
  let found := (List.range 17).findSome? fun (n : Nat) =>
    let i := k - ((n : Int) + 1)
    (b.pickAt i).map fun c => (c, i)
  let (c, i) := found.getD (b.floorAt (k - 17), k - 17)
  trimZeros c i

end Lox.Decimal
