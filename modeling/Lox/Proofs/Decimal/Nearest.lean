import Mathlib
import Lox.Decimal.Nearest
import Lox.Proofs.Decimal.Shortest
/-!
# Reading a decimal back as the double it came from

`nearestBits num den` rounds the positive rational `num / den` to the nearest double. This module
proves it the inverse of writing: a quotient that the interval of a finite nonzero double admits
(`Binary.Admits`) reads back as that double's bits with the sign bit clear
(`nearestBits_of_admits`).

The proof follows the steps of `nearestBits` (`nearestBits_eq`): `binadeOf` finds the binade of the
quotient (`binadeOf_spec`), which fixes the unit of the last mantissa bit (`unit_eq`); rounding
half to even at that unit (`roundHalfEven_eq`, `roundedAt_eq`) gives the mantissa; a carry into a
54th bit moves to the next binade. A double's interval lies in its own binade except below the
least mantissa of a binade, where the quotient's unit is half as large and the mantissa rounds
up to `2 ^ 53` and carries back (`nearestBits_narrow`).
-/

namespace Lox.Decimal

/-! ## Rounding half to even -/

/-- `r` is the whole number nearest to `x`, a tie going to the even one. -/
def RoundsTo (x : ℚ) (r : ℕ) : Prop :=
  (r : ℚ) - 1 / 2 ≤ x ∧ x ≤ r + 1 / 2 ∧ (x = r - 1 / 2 ∨ x = r + 1 / 2 → r % 2 = 0)

/-- **Rounding half to even.** The quotient rounds to `r` when it lies within a half of `r`, and a
quotient exactly halfway rounds to `r` only when `r` is even; stated on the numerator and
denominator to stay with whole numbers. -/
theorem roundHalfEven_eq {n d r : ℕ} (hd : 0 < d) (low : 2 * (r * d) ≤ 2 * n + d)
    (high : 2 * n ≤ 2 * (r * d) + d)
    (tie : 2 * (r * d) = 2 * n + d ∨ 2 * n = 2 * (r * d) + d → r % 2 = 0) :
    roundHalfEven n d = r := by
  have whole : n / d * d + n % d = n := by rw [Nat.mul_comm]; exact Nat.div_add_mod n d
  have rem := Nat.mod_lt n hd
  unfold roundHalfEven
  dsimp only
  generalize n / d = q at whole ⊢
  generalize n % d = ρ at whole rem ⊢
  -- the quotient is `r` or one less
  have notAbove : q ≤ r := by
    by_contra more
    have larger : (r + 1) * d ≤ q * d := Nat.mul_le_mul_right d (by omega)
    rw [Nat.add_one_mul] at larger
    omega
  have notBelow : r ≤ q + 1 := by
    by_contra less
    have larger : (q + 2) * d ≤ r * d := Nat.mul_le_mul_right d (by omega)
    rw [Nat.add_mul] at larger
    omega
  rcases (show r = q ∨ r = q + 1 by omega) with same | next
  · subst same
    split
    · next up => omega
    · rfl
  · subst next
    rw [show (q + 1) * d = q * d + d from Nat.add_one_mul q d] at low high tie
    split
    · rfl
    · next notUp => omega

theorem roundHalfEven_of_ratio {n d r : ℕ} (hd : 0 < d) {x : ℚ} (ratio : (n : ℚ) / d = x)
    (rounds : RoundsTo x r) : roundHalfEven n d = r := by
  obtain ⟨low, high, tie⟩ := rounds
  have dPos : (0 : ℚ) < d := by exact_mod_cast hd
  have value : (n : ℚ) = x * d := by rw [← ratio]; field_simp
  apply roundHalfEven_eq hd
  · have : (2 * (r * d) : ℚ) ≤ 2 * n + d := by rw [value]; nlinarith
    exact_mod_cast this
  · have : (2 * n : ℚ) ≤ 2 * (r * d) + d := by rw [value]; nlinarith
    exact_mod_cast this
  · intro onTie
    apply tie
    have onTie' : (2 * (r * d) : ℚ) = 2 * n + d ∨ (2 * n : ℚ) = 2 * (r * d) + d := by
      exact_mod_cast onTie
    rw [value] at onTie'
    rcases onTie' with lower | upper
    · left
      have : ((r : ℚ) - 1 / 2 - x) * (2 * d) = 0 := by linarith
      linarith [(mul_eq_zero.1 this).resolve_right (by positivity)]
    · right
      have : (x - r - 1 / 2) * (2 * d) = 0 := by linarith
      linarith [(mul_eq_zero.1 this).resolve_right (by positivity)]

/-! ## The binade -/

/-- A negative power of two as a quotient by a natural power. -/
theorem two_zpow_of_neg {k : ℤ} (negative : ¬ 0 ≤ k) : (2 : ℚ) ^ k = 1 / 2 ^ (-k).toNat := by
  rw [← zpow_natCast, Int.toNat_of_nonneg (by omega), zpow_neg, one_div, inv_inv]

theorem belowPower_iff {num den : ℕ} (hden : 0 < den) (k : ℤ) :
    belowPower num den k = true ↔ (num : ℚ) / den < 2 ^ k := by
  have dPos : (0 : ℚ) < den := by exact_mod_cast hden
  unfold belowPower
  split
  · next nonneg =>
    rw [decide_eq_true_iff, div_lt_iff₀ dPos, ← Int.toNat_of_nonneg nonneg, zpow_natCast,
      Int.toNat_natCast, ← Nat.cast_lt (α := ℚ)]
    push_cast [Nat.pow_eq]
    rw [mul_comm]
  · next negative =>
    rw [decide_eq_true_iff, two_zpow_of_neg negative, div_lt_div_iff₀ dPos (by positivity),
      one_mul,
      ← Nat.cast_lt (α := ℚ)]
    push_cast [Nat.pow_eq]
    rfl

/-- **The binade of a quotient.** `binadeOf` gives the `k` with
`2 ^ k ≤ num / den < 2 ^ (k + 1)`. -/
theorem binadeOf_spec {num den : ℕ} (hnum : 0 < num) (hden : 0 < den) :
    (2 : ℚ) ^ binadeOf num den ≤ num / den ∧
      (num : ℚ) / den < 2 ^ (binadeOf num den + 1) := by
  have dPos : (0 : ℚ) < den := by exact_mod_cast hden
  -- each of the two numbers lies in its own binade
  have numLow : (2 : ℚ) ^ Nat.log2 num ≤ num := by exact_mod_cast Nat.log2_self_le hnum.ne'
  have numHigh : (num : ℚ) < 2 ^ (Nat.log2 num + 1) := by exact_mod_cast Nat.lt_log2_self
  have denLow : (2 : ℚ) ^ Nat.log2 den ≤ den := by exact_mod_cast Nat.log2_self_le hden.ne'
  have denHigh : (den : ℚ) < 2 ^ (Nat.log2 den + 1) := by exact_mod_cast Nat.lt_log2_self
  set guess : ℤ := (Nat.log2 num : ℤ) - Nat.log2 den
  have split : ∀ a b : ℕ, (2 : ℚ) ^ ((a : ℤ) - b) = 2 ^ a / 2 ^ b := fun a b => by
    rw [zpow_sub₀ (by norm_num), zpow_natCast, zpow_natCast]
  have above : (2 : ℚ) ^ (guess - 1) ≤ num / den := by
    rw [show guess - 1 = ((Nat.log2 num : ℕ) : ℤ) - ((Nat.log2 den + 1 : ℕ) : ℤ) by
        push_cast; ring,
      split, div_le_div_iff₀ (by positivity) dPos]
    nlinarith
  have below : (num : ℚ) / den < 2 ^ (guess + 1) := by
    rw [show guess + 1 = ((Nat.log2 num + 1 : ℕ) : ℤ) - ((Nat.log2 den : ℕ) : ℤ) by
        push_cast; ring,
      split, div_lt_div_iff₀ dPos (by positivity)]
    nlinarith
  unfold binadeOf
  dsimp only
  split
  · next under =>
    rw [belowPower_iff hden] at under
    exact ⟨above, by simpa using under⟩
  · next atLeast =>
    rw [belowPower_iff hden, not_lt] at atLeast
    exact ⟨atLeast, below⟩

/-! ## The steps of `nearestBits` -/

/-- The quotient `num / den` in units of `2 ^ unit`, rounded half to even, as `nearestBits` rounds
it. -/
def roundedAt (num den : ℕ) (unit : ℤ) : ℕ :=
  if 0 ≤ unit then roundHalfEven num (den * Nat.pow 2 unit.toNat)
  else roundHalfEven (num * Nat.pow 2 (-unit).toNat) den

/-- The bits `nearestBits` writes for a mantissa at a unit, once any carry is made. -/
def bitsOf (mantissa : ℕ) (unit : ℤ) : UInt64 :=
  if mantissa < Nat.pow 2 52 then mantissa.toUInt64
  else if 2047 ≤ unit + 1075 then infinityBits.toUInt64
  else ((unit + 1075).toNat * Nat.pow 2 52 + (mantissa - Nat.pow 2 52)).toUInt64

/-- `nearestBits` finds the unit from the binade, rounds at it, and carries a 54-bit result into
the next binade. -/
theorem nearestBits_eq {num den : ℕ} (hnum : num ≠ 0) (hden : den ≠ 0) :
    nearestBits num den =
      let unit := max (binadeOf num den - 52) (-1074)
      if roundedAt num den unit = Nat.pow 2 53 then bitsOf (Nat.pow 2 52) (unit + 1)
      else bitsOf (roundedAt num den unit) unit := by
  unfold nearestBits roundedAt
  simp only [hnum, hden, or_self, if_false]
  generalize max (binadeOf num den - 52) (-1074) = unit
  generalize (if 0 ≤ unit then roundHalfEven num (den * Nat.pow 2 unit.toNat)
    else roundHalfEven (num * Nat.pow 2 (-unit).toNat) den) = rounded
  split <;> rfl

theorem roundedAt_eq {num den : ℕ} (hden : 0 < den) (unit : ℤ) {r : ℕ}
    (rounds : RoundsTo ((num : ℚ) / den / 2 ^ unit) r) : roundedAt num den unit = r := by
  have dPos : (0 : ℚ) < den := by exact_mod_cast hden
  unfold roundedAt
  split
  · next nonneg =>
    apply roundHalfEven_of_ratio (Nat.mul_pos hden (Nat.pow_pos (by norm_num))) _ rounds
    rw [← Int.toNat_of_nonneg nonneg, zpow_natCast, Int.toNat_natCast]
    push_cast [Nat.pow_eq]
    rw [div_div]
  · next negative =>
    apply roundHalfEven_of_ratio hden _ rounds
    rw [two_zpow_of_neg negative]
    push_cast [Nat.pow_eq]
    field_simp

/-- The unit `nearestBits` picks for a quotient in `[2 ^ (u + 52), 2 ^ (u + 53))`, or below
`2 ^ -1021` for the least unit, is `2 ^ u`. -/
theorem unit_eq {num den : ℕ} (hnum : 0 < num) (hden : 0 < den) {u : ℤ} (least : -1074 ≤ u)
    (below : (num : ℚ) / den < 2 ^ (u + 53))
    (above : 2 ^ (u + 52) ≤ (num : ℚ) / den ∨ u = -1074) :
    max (binadeOf num den - 52) (-1074) = u := by
  obtain ⟨low, high⟩ := binadeOf_spec hnum hden
  have notAbove : binadeOf num den < u + 53 :=
    (zpow_lt_zpow_iff_right₀ (by norm_num : (1 : ℚ) < 2)).1 (low.trans_lt below)
  rcases above with reached | least
  · have notBelow : u + 52 < binadeOf num den + 1 :=
      (zpow_lt_zpow_iff_right₀ (by norm_num : (1 : ℚ) < 2)).1 (reached.trans_lt high)
    omega
  · omega

/-! ## Reading back a double from its interval -/

namespace Binary

/-- A rational that reads back as `b` is, in units of `b`'s last mantissa bit, within a half of
its mantissa, and halfway only when the mantissa is even. -/
theorem roundsTo_of_admits {b : Binary} {q : ℚ} (admitted : b.Admits q) :
    RoundsTo (q / 2 ^ b.exponent) b.mantissa := by
  have unit : (0 : ℚ) < 2 ^ (b.exponent - 2) := by positivity
  have scaled : q = 4 * (q / 2 ^ b.exponent) * 2 ^ (b.exponent - 2) := by
    rw [two_zpow_eq_four_mul]; field_simp
  generalize q / 2 ^ b.exponent = x at scaled ⊢
  subst scaled
  unfold Admits lowMid highMid at admitted
  -- with the unit cancelled, the interval is `[4m - 2, 4m + 2]` or narrower below
  have cancel : ∀ a c : ℚ, a * 2 ^ (b.exponent - 2) ≤ c * 2 ^ (b.exponent - 2) → a ≤ c :=
    fun a c le => le_of_mul_le_mul_right le unit
  have cancelStrict :
      ∀ a c : ℚ, a * 2 ^ (b.exponent - 2) < c * 2 ^ (b.exponent - 2) → a < c :=
    fun a c lt => lt_of_mul_lt_mul_right lt unit.le
  have narrowing :
      (4 * b.mantissa - if b.narrowBelow then 1 else 2 : ℚ) ≥ 4 * b.mantissa - 2 := by
    split <;> linarith
  split at admitted
  · next even =>
    have low := cancel _ _ admitted.1
    have high := cancel _ _ admitted.2
    exact ⟨by linarith, by linarith, fun _ => even⟩
  · next odd =>
    have low := cancelStrict _ _ admitted.1
    have high := cancelStrict _ _ admitted.2
    refine ⟨by linarith, by linarith, ?_⟩
    rintro (tie | tie) <;> linarith

theorem highMid_lt_two_pow (b : Binary) (lt : b.mantissa < 2 ^ 53) :
    b.highMid < 2 ^ (b.exponent + 53) := by
  have unit : (0 : ℚ) < 2 ^ (b.exponent - 2) := by positivity
  have bits : (4 * b.mantissa + 2 : ℚ) < 2 ^ 55 := by
    have : (b.mantissa : ℚ) + 1 ≤ 2 ^ 53 := by exact_mod_cast lt
    linarith
  rw [highMid, show b.exponent + 53 = b.exponent - 2 + 55 by ring, zpow_add₀ (by norm_num),
    show (2 : ℚ) ^ (55 : ℤ) = 2 ^ 55 by norm_num, mul_comm ((2 : ℚ) ^ (b.exponent - 2))]
  exact mul_lt_mul_of_pos_right bits unit

/-- A quotient read back as `b` from below `b`'s binade needs `b`'s mantissa to be the least. -/
theorem mantissa_le_of_short {b : Binary} {q : ℚ} (admitted : b.Admits q)
    (short : q < 2 ^ (b.exponent + 52)) : b.mantissa ≤ 2 ^ 52 := by
  have unit : (0 : ℚ) < 2 ^ (b.exponent - 2) := by positivity
  have low := lowMid_le_of_admits admitted
  rw [show b.exponent + 52 = b.exponent - 2 + 54 by ring, zpow_add₀ (by norm_num)] at short
  have units : (4 * b.mantissa - if b.narrowBelow then 1 else 2 : ℚ) < 2 ^ 54 := by
    rw [lowMid] at low
    have : (4 * b.mantissa - if b.narrowBelow then 1 else 2 : ℚ) * 2 ^ (b.exponent - 2) <
        2 ^ 54 * 2 ^ (b.exponent - 2) := by norm_num at short ⊢; linarith
    exact lt_of_mul_lt_mul_right this unit.le
  have bound : (b.mantissa : ℚ) < 2 ^ 52 + 1 := by split at units <;> linarith
  have : b.mantissa < 2 ^ 52 + 1 := by exact_mod_cast bound
  omega

theorem lowMid_pos {b : Binary} (fin : b.Finite) : 0 < b.lowMid := by
  have unit : (0 : ℚ) < 2 ^ (b.exponent - 2) := by positivity
  have least : (1 : ℚ) ≤ b.mantissa := by exact_mod_cast fin.pos
  unfold lowMid
  apply mul_pos _ unit
  split <;> linarith

end Binary

/-! ## The three kinds of finite double -/

theorem bitsOf_small {m : ℕ} (small : m < 2 ^ 52) (u : ℤ) : bitsOf m u = UInt64.ofNat m := by
  simp only [bitsOf, Nat.pow_eq, small, if_true]

theorem bitsOf_normal {m : ℕ} (normal : 2 ^ 52 ≤ m) {u : ℤ} (inRange : u + 1075 < 2047) :
    bitsOf m u = UInt64.ofNat ((u + 1075).toNat * 2 ^ 52 + (m - 2 ^ 52)) := by
  simp only [bitsOf, Nat.pow_eq, show ¬ m < 2 ^ 52 by omega, show ¬ 2047 ≤ u + 1075 by omega,
    if_false]

/-- `nearestBits` with the unit and the rounded mantissa known. -/
theorem nearestBits_of_rounds {num den : ℕ} (hnum : 0 < num) (hden : 0 < den) {u : ℤ}
    (least : -1074 ≤ u) (below : (num : ℚ) / den < 2 ^ (u + 53))
    (above : 2 ^ (u + 52) ≤ (num : ℚ) / den ∨ u = -1074) {r : ℕ}
    (rounds : RoundsTo ((num : ℚ) / den / 2 ^ u) r) :
    nearestBits num den = if r = 2 ^ 53 then bitsOf (2 ^ 52) (u + 1) else bitsOf r u := by
  rw [nearestBits_eq hnum.ne' hden.ne']
  dsimp only
  rw [unit_eq hnum hden least below above, roundedAt_eq hden u rounds]
  rfl

variable {num den : ℕ}

/-- A subnormal double, at the least unit. -/
theorem nearestBits_subnormal (hnum : 0 < num) (hden : 0 < den) {b : Binary} (fin : b.Finite)
    (least : b.exponent = -1074) (small : b.mantissa < 2 ^ 52)
    (admitted : b.Admits (num / den)) :
    nearestBits num den = UInt64.ofNat b.mantissa := by
  have below := (Binary.le_highMid_of_admits admitted).trans_lt (Binary.highMid_lt_two_pow b fin.lt)
  have rounds := Binary.roundsTo_of_admits admitted
  rw [least] at below rounds
  rw [nearestBits_of_rounds hnum hden le_rfl below (.inr rfl) rounds,
    if_neg (show b.mantissa ≠ 2 ^ 53 by omega), bitsOf_small small]

/-- A normal double whose interval lies in its own binade, or in the least normal binade. -/
theorem nearestBits_normal (hnum : 0 < num) (hden : 0 < den) {b : Binary} (fin : b.Finite)
    (normal : 2 ^ 52 ≤ b.mantissa) (admitted : b.Admits (num / den))
    (reached : 2 ^ (b.exponent + 52) ≤ (num : ℚ) / den ∨ b.exponent = -1074) :
    nearestBits num den =
      UInt64.ofNat ((b.exponent + 1075).toNat * 2 ^ 52 + (b.mantissa - 2 ^ 52)) := by
  have below := (Binary.le_highMid_of_admits admitted).trans_lt (Binary.highMid_lt_two_pow b fin.lt)
  rw [nearestBits_of_rounds hnum hden fin.low below reached (Binary.roundsTo_of_admits admitted),
    if_neg (show b.mantissa ≠ 2 ^ 53 by have := fin.lt; omega),
    bitsOf_normal normal (by have := fin.high; omega)]

/-- The least mantissa of a binade above the least, read from below its binade: the mantissa
rounds to `2 ^ 53` one unit lower and carries back. -/
theorem nearestBits_narrow (hnum : 0 < num) (hden : 0 < den) {b : Binary} (fin : b.Finite)
    (leastMantissa : b.mantissa = 2 ^ 52) (narrow : b.narrowBelow = true)
    (aboveLeast : -1073 ≤ b.exponent) (admitted : b.Admits (num / den))
    (short : (num : ℚ) / den < 2 ^ (b.exponent + 52)) :
    nearestBits num den = UInt64.ofNat ((b.exponent + 1075).toNat * 2 ^ 52) := by
  have unit : (0 : ℚ) < 2 ^ (b.exponent - 2) := by positivity
  have low := Binary.lowMid_le_of_admits admitted
  simp only [Binary.lowMid, narrow, leastMantissa, if_true] at low
  push_cast at low
  -- a quarter unit below 2 ^ 52, at the unit below, is within a half of 2 ^ 53
  have half : (2 : ℚ) ^ (b.exponent - 1) = 2 * 2 ^ (b.exponent - 2) := by
    rw [show b.exponent - 1 = b.exponent - 2 + 1 by ring, zpow_add_one₀ (by norm_num)]; ring
  have top : (2 : ℚ) ^ (b.exponent + 52) = 2 ^ 54 * 2 ^ (b.exponent - 2) := by
    rw [show b.exponent + 52 = b.exponent - 2 + 54 by ring, zpow_add₀ (by norm_num)]
    norm_num
    ring
  have rounds : RoundsTo ((num : ℚ) / den / 2 ^ (b.exponent - 1)) (2 ^ 53) := by
    generalize (num : ℚ) / den = q at low short
    rw [top] at short
    rw [half]
    have lower : (2 ^ 54 - 1) * 2 ^ (b.exponent - 2) ≤ q := by linarith
    refine ⟨?_, ?_, fun _ => by norm_num⟩
    · push_cast
      rw [le_div_iff₀ (by positivity)]
      nlinarith
    · push_cast
      rw [div_le_iff₀ (by positivity)]
      nlinarith
  have above : (2 : ℚ) ^ (b.exponent - 1 + 52) ≤ num / den := by
    rw [show b.exponent - 1 + 52 = b.exponent - 2 + 53 by ring, zpow_add₀ (by norm_num)]
    norm_num
    nlinarith
  have below : (num : ℚ) / den < 2 ^ (b.exponent - 1 + 53) := by
    rwa [show b.exponent - 1 + 53 = b.exponent + 52 by ring]
  rw [nearestBits_of_rounds hnum hden (by omega) below (.inl above) rounds, if_pos rfl,
    bitsOf_normal le_rfl (by have := fin.high; omega), sub_add_cancel, Nat.sub_self, Nat.add_zero]

/-- **Reading back a finite double.** A quotient in the interval of a finite nonzero double reads
back, by `nearestBits`, as the double's magnitude: its bits with the sign bit clear. -/
theorem nearestBits_of_admits (bits : UInt64) (finite : bits.toNat / 2 ^ 52 % 2 ^ 11 ≠ 2047)
    (nonzero : (Binary.ofBits bits).mantissa ≠ 0) (hden : 0 < den)
    (admitted : (Binary.ofBits bits).Admits (num / den)) :
    nearestBits num den = UInt64.ofNat (bits.toNat % 2 ^ 63) := by
  have fin := Binary.ofBits_finite bits finite nonzero
  have hnum : 0 < num := by
    have positive := (Binary.lowMid_pos fin).trans_le (Binary.lowMid_le_of_admits admitted)
    rcases Nat.eq_zero_or_pos num with zero | pos
    · simp [zero] at positive
    · exact pos
  have magnitude : bits.toNat % 2 ^ 63 =
      bits.toNat / 2 ^ 52 % 2 ^ 11 * 2 ^ 52 + bits.toNat % 2 ^ 52 := by omega
  rw [magnitude]
  rcases Binary.ofBits_fields bits with ⟨subnormal, mantissa, exponent, -⟩ |
    ⟨normal, mantissa, exponent, narrowing⟩
  · rw [nearestBits_subnormal hnum hden fin exponent (by omega) admitted]
    exact congrArg UInt64.ofNat (by omega)
  · by_cases reached : 2 ^ ((Binary.ofBits bits).exponent + 52) ≤ (num : ℚ) / den ∨
        (Binary.ofBits bits).exponent = -1074
    · rw [nearestBits_normal hnum hden fin (by omega) admitted reached]
      exact congrArg UInt64.ofNat (by omega)
    · -- below its own binade: only the least mantissa of a binade above the least reads so
      rw [not_or, not_le] at reached
      have least := Binary.mantissa_le_of_short admitted reached.1
      have narrow : (Binary.ofBits bits).narrowBelow = true := by
        rw [narrowing]
        simp only [Bool.and_eq_true, beq_iff_eq, decide_eq_true_eq]
        omega
      rw [nearestBits_narrow hnum hden fin (by omega) narrow (by omega) admitted reached.1]
      exact congrArg UInt64.ofNat (by omega)

end Lox.Decimal