import Mathlib
import Lox.Decimal.Shortest
/-!
# The shortest digits of a double read back

A finite positive double `mantissa * 2 ^ exponent` is read back from every rational between the
midpoints to its two neighbours, the midpoints included when its mantissa is even
(`Binary.Admits`). This module proves that the decimal `Binary.shortest` returns lies in that
interval (`Binary.shortest_admits`).

The steps follow the definition. `compareScaled` compares exactly (`compareScaled_eq`), so
`admits` tests membership of the interval (`admits_iff`). `scale` is never too large
(`ten_pow_scale_le`): its estimate of the decimal logarithm from `78913 / 2 ^ 18` is close enough
over a double's range of binades (`ten_pow_guess_le`). Hence the grid of seventeen significant
digits is finer than the interval (`spacing_lt_width`), and on a grid that fine one of the
value's two neighbours lies inside, so `pickAt` finds a candidate (`pickAt_isSome`) and what it
finds reads back (`pickAt_admits`). Dropping trailing zeros keeps the value
(`trimZeros_value`).
-/

namespace Lox.Decimal

/-! ## Exact arithmetic on scaled numbers -/

theorem compare_congr {α β : Type} [LinearOrder α] [LinearOrder β] {a b : α} {c d : β}
    (lt : a < b ↔ c < d) (eq : a = b ↔ c = d) : compare a b = compare c d := by
  rcases lt_trichotomy a b with less | same | more
  · rw [compare_lt_iff_lt.2 less, compare_lt_iff_lt.2 (lt.1 less)]
  · rw [compare_eq_iff_eq.2 same, compare_eq_iff_eq.2 (eq.1 same)]
  · have notLess : ¬ c < d := fun h => (lt_asymm more) (lt.2 h)
    have notSame : c ≠ d := fun h => (ne_of_gt more) (eq.2 h)
    rw [compare_gt_iff_gt.2 more,
      compare_gt_iff_gt.2 (lt_of_le_of_ne (not_lt.1 notLess) (Ne.symm notSame))]

/-- A power with an integer exponent, times the power that cancels its negative part. -/
theorem zpow_mul_pow_toNat_neg (x : ℚ) (hx : x ≠ 0) (i : ℤ) :
    x ^ i * x ^ (-i).toNat = x ^ i.toNat := by
  rw [← zpow_natCast, ← zpow_natCast, ← zpow_add₀ hx]
  congr 1
  omega

theorem compareScaled_eq (a : ℕ) (i : ℤ) (b : ℕ) (j : ℤ) :
    compareScaled a i b j = compare ((a : ℚ) * 10 ^ i) ((b : ℚ) * 2 ^ j) := by
  have ten := zpow_mul_pow_toNat_neg 10 (by norm_num) i
  have two := zpow_mul_pow_toNat_neg 2 (by norm_num) j
  -- both sides times the positive 10 ^ i⁻ * 2 ^ j⁻ are the natural numbers compared
  have scale : (0 : ℚ) < 10 ^ (-i).toNat * 2 ^ (-j).toNat := by positivity
  have left : (a : ℚ) * 10 ^ i * (10 ^ (-i).toNat * 2 ^ (-j).toNat) =
      ((a * Nat.pow 10 i.toNat * Nat.pow 2 (-j).toNat : ℕ) : ℚ) := by
    push_cast [Nat.pow_eq]
    rw [← ten]; ring
  have right : (b : ℚ) * 2 ^ j * (10 ^ (-i).toNat * 2 ^ (-j).toNat) =
      ((b * Nat.pow 10 (-i).toNat * Nat.pow 2 j.toNat : ℕ) : ℚ) := by
    push_cast [Nat.pow_eq]
    rw [← two]; ring
  unfold compareScaled
  apply compare_congr
  · rw [← mul_lt_mul_iff_of_pos_right scale, left, right, Nat.cast_lt]
  · rw [← mul_left_inj' scale.ne', left, right, Nat.cast_inj]

/-- Dropping trailing zeros into the exponent keeps the value. -/
theorem trimZeros_value (c : ℕ) (i : ℤ) :
    ((trimZeros c i).1 : ℚ) * 10 ^ (trimZeros c i).2 = c * 10 ^ i := by
  fun_induction trimZeros c i with
  | case1 c i trailing ih =>
    rw [ih, zpow_add₀ (by norm_num),
      Nat.cast_div (Nat.dvd_of_mod_eq_zero trailing.2) (by norm_num)]
    push_cast
    field_simp
  | case2 => rfl

/-! ## The interval that reads back -/

namespace Binary

/-- The exact value `mantissa * 2 ^ exponent`. -/
def value (b : Binary) : ℚ :=
  b.mantissa * 2 ^ b.exponent

/-- The midpoint to the next smaller double, or a quarter unit below a binade's least mantissa. -/
def lowMid (b : Binary) : ℚ :=
  (4 * b.mantissa - if b.narrowBelow then 1 else 2) * 2 ^ (b.exponent - 2)

/-- The midpoint to the next larger double. -/
def highMid (b : Binary) : ℚ :=
  (4 * b.mantissa + 2) * 2 ^ (b.exponent - 2)

/-- **The rationals that read back as `b`**: those strictly between its two midpoints, and the
midpoints themselves when its mantissa is even, since reading rounds a tie to the even
mantissa. -/
def Admits (b : Binary) (q : ℚ) : Prop :=
  if b.mantissa % 2 = 0 then b.lowMid ≤ q ∧ q ≤ b.highMid else b.lowMid < q ∧ q < b.highMid

/-- The unit of the midpoints is a quarter of the last mantissa bit. -/
theorem two_zpow_eq_four_mul (e : ℤ) : (2 : ℚ) ^ e = 4 * 2 ^ (e - 2) := by
  rw [show e = e - 2 + 2 by ring, zpow_add₀ (by norm_num)]
  norm_num
  ring

theorem value_eq_units (b : Binary) : b.value = 4 * b.mantissa * 2 ^ (b.exponent - 2) := by
  rw [value, two_zpow_eq_four_mul]
  ring

theorem lowMid_lt_value (b : Binary) : b.lowMid < b.value := by
  have unit : (0 : ℚ) < 2 ^ (b.exponent - 2) := by positivity
  rw [value_eq_units, lowMid]
  split <;> nlinarith

theorem value_lt_highMid (b : Binary) : b.value < b.highMid := by
  have unit : (0 : ℚ) < 2 ^ (b.exponent - 2) := by positivity
  rw [value_eq_units, highMid]
  nlinarith

theorem admits_iff (b : Binary) (pos : 0 < b.mantissa) (c : ℕ) (i : ℤ) :
    b.admits c i = true ↔ b.Admits (c * 10 ^ i) := by
  have low : compareScaled c i (if b.narrowBelow then 4 * b.mantissa - 1 else 4 * b.mantissa - 2)
      (b.exponent - 2) = compare ((c : ℚ) * 10 ^ i) b.lowMid := by
    rw [compareScaled_eq, lowMid]
    congr 1
    split <;> push_cast [Nat.cast_sub (show 1 ≤ 4 * b.mantissa by omega),
      Nat.cast_sub (show 2 ≤ 4 * b.mantissa by omega)] <;> ring
  have high : compareScaled c i (4 * b.mantissa + 2) (b.exponent - 2) =
      compare ((c : ℚ) * 10 ^ i) b.highMid := by
    rw [compareScaled_eq, highMid]
    push_cast
    ring_nf
  have ordered := (lowMid_lt_value b).trans (value_lt_highMid b)
  unfold admits Admits
  simp only [low, high]
  generalize (c : ℚ) * 10 ^ i = q
  -- one case per verdict of the comparisons with the two midpoints
  split
  all_goals simp only [compare_lt_iff_lt, compare_eq_iff_eq, compare_gt_iff_gt] at *
  · next below =>
    simp only [Bool.false_eq_true, false_iff]
    split <;> exact fun ⟨lo, _⟩ => by linarith
  · next above _ =>
    simp only [Bool.false_eq_true, false_iff]
    split <;> exact fun ⟨_, hi⟩ => by linarith
  · next onLow _ =>
    subst onLow
    split <;> simp_all [ordered.le]
  · next onHigh _ _ =>
    subst onHigh
    split <;> simp_all [ordered.le]
  · next notBelow notLow notAbove notHigh =>
    have lo : b.lowMid < q := lt_of_le_of_ne (not_lt.1 notBelow) (Ne.symm notLow)
    have hi : q < b.highMid := lt_of_le_of_ne (not_lt.1 notAbove) notHigh
    split <;> simp [lo, hi, lo.le, hi.le]

theorem admits_of_inside (b : Binary) {q : ℚ} (lo : b.lowMid < q) (hi : q < b.highMid) :
    b.Admits q := by
  unfold Admits
  split
  · exact ⟨lo.le, hi.le⟩
  · exact ⟨lo, hi⟩

theorem lowMid_le_of_admits {b : Binary} {q : ℚ} (admitted : b.Admits q) : b.lowMid ≤ q := by
  unfold Admits at admitted
  split at admitted
  · exact admitted.1
  · exact admitted.1.le

theorem le_highMid_of_admits {b : Binary} {q : ℚ} (admitted : b.Admits q) : q ≤ b.highMid := by
  unfold Admits at admitted
  split at admitted
  · exact admitted.2
  · exact admitted.2.le

/-! ## The grid below the value -/

/-- The two numbers `floorAt` divides, as a quotient: the value over `10 ^ i`. -/
theorem floorAt_scaled (b : Binary) (i : ℤ) :
    ((b.mantissa * Nat.pow 2 b.exponent.toNat * Nat.pow 10 (-i).toNat : ℕ) : ℚ) * 10 ^ i =
      b.value * ((Nat.pow 2 (-b.exponent).toNat * Nat.pow 10 i.toNat : ℕ) : ℚ) := by
  have ten := zpow_mul_pow_toNat_neg 10 (by norm_num) i
  have two := zpow_mul_pow_toNat_neg 2 (by norm_num) b.exponent
  push_cast [Nat.pow_eq]
  unfold value
  rw [← ten, ← two]
  ring

theorem floorAt_le (b : Binary) (i : ℤ) : (b.floorAt i : ℚ) * 10 ^ i ≤ b.value := by
  have scaled := floorAt_scaled b i
  have den : 0 < Nat.pow 2 (-b.exponent).toNat * Nat.pow 10 i.toNat :=
    Nat.mul_pos (Nat.pow_pos (by norm_num)) (Nat.pow_pos (by norm_num))
  unfold floorAt
  generalize b.mantissa * Nat.pow 2 b.exponent.toNat * Nat.pow 10 (-i).toNat = num at scaled ⊢
  generalize Nat.pow 2 (-b.exponent).toNat * Nat.pow 10 i.toNat = d at scaled den ⊢
  have floor : ((num / d : ℕ) : ℚ) * d ≤ num := by exact_mod_cast Nat.div_mul_le_self num d
  have : ((num / d : ℕ) : ℚ) * 10 ^ i * d ≤ b.value * d := by
    rw [← scaled, mul_right_comm]
    exact mul_le_mul_of_nonneg_right floor (by positivity)
  exact le_of_mul_le_mul_right this (by exact_mod_cast den)

theorem value_lt_floorAt (b : Binary) (i : ℤ) : b.value < ((b.floorAt i : ℚ) + 1) * 10 ^ i := by
  have scaled := floorAt_scaled b i
  have den : 0 < Nat.pow 2 (-b.exponent).toNat * Nat.pow 10 i.toNat :=
    Nat.mul_pos (Nat.pow_pos (by norm_num)) (Nat.pow_pos (by norm_num))
  unfold floorAt
  generalize b.mantissa * Nat.pow 2 b.exponent.toNat * Nat.pow 10 (-i).toNat = num at scaled ⊢
  generalize Nat.pow 2 (-b.exponent).toNat * Nat.pow 10 i.toNat = d at scaled den ⊢
  have ceiling : (num : ℚ) < (((num / d : ℕ) : ℚ) + 1) * d := by
    rw [mul_comm]
    exact_mod_cast Nat.lt_mul_div_succ num den
  have : b.value * d < (((num / d : ℕ) : ℚ) + 1) * 10 ^ i * d := by
    rw [← scaled, mul_right_comm (((num / d : ℕ) : ℚ) + 1)]
    exact mul_lt_mul_of_pos_right ceiling (zpow_pos (by norm_num) i)
  exact lt_of_mul_lt_mul_right this (by positivity)

/-! ## Picking a neighbour on the grid -/

theorem pickAt_admits {b : Binary} {i : ℤ} {c : ℕ} (picked : b.pickAt i = some c) :
    b.admits c i = true := by
  unfold pickAt at picked
  dsimp only at picked
  -- each candidate is returned only when it reads back
  split at picked
  · cases picked
  · next _ _ first _ => cases picked; exact first
  · next _ _ _ second => cases picked; exact second
  · next _ _ first second =>
    split at picked
    · cases picked; exact first
    · cases picked; exact second
    · split at picked <;> cases picked
      · exact first
      · exact second

/-- One of the value's two neighbours on a grid finer than its interval reads back, so `pickAt`
finds a candidate. -/
theorem pickAt_isSome (b : Binary) (pos : 0 < b.mantissa) (i : ℤ)
    (fine : (10 : ℚ) ^ i < b.highMid - b.lowMid) : (b.pickAt i).isSome := by
  have below := floorAt_le b i
  have above := value_lt_floorAt b i
  have lo := lowMid_lt_value b
  have hi := value_lt_highMid b
  have next : ((b.floorAt i : ℚ) + 1) * 10 ^ i = b.floorAt i * 10 ^ i + 10 ^ i := by ring
  have either : b.admits (b.floorAt i) i = true ∨ b.admits (b.floorAt i + 1) i = true := by
    rw [admits_iff b pos, admits_iff b pos]
    by_cases clear : b.lowMid < (b.floorAt i : ℚ) * 10 ^ i
    · exact .inl (admits_of_inside b clear (by linarith))
    · -- the floor lies at or below the low midpoint, so the next point lies inside
      push_cast
      exact .inr (admits_of_inside b (by linarith) (by linarith))
  unfold pickAt
  dsimp only
  cases first : b.admits (b.floorAt i) i <;> cases second : b.admits (b.floorAt i + 1) i
  · simp [first, second] at either
  · rfl
  · rfl
  · dsimp only
    split <;> rfl

/-! ## The scale -/

/-- The estimate behind `scale`: `78913 / 2 ^ 18` lies within `10 ^ -5` of `log10 2`, so over the
binades of a double it puts `10 ^ (guess - 2)` at or below `2 ^ binade`. -/
theorem ten_pow_guess_le (binade : ℤ) (low : -1200 ≤ binade) (high : binade ≤ 1200) :
    (10 : ℚ) ^ (binade * 78913 / 262144 - 2) ≤ 2 ^ binade := by
  set g := binade * 78913 / 262144 with guess
  rcases le_or_gt 0 binade with nonneg | negative
  · rcases le_or_gt (g - 2) 0 with small | large
    · calc (10 : ℚ) ^ (g - 2) ≤ 1 := zpow_le_one_of_nonpos₀ (by norm_num) small
        _ ≤ 2 ^ binade := one_le_zpow₀ (by norm_num) nonneg
    · -- ten times the exponent is at most three times the binade, and 10 ^ 3 ≤ 2 ^ 10
      obtain ⟨G, hG⟩ : ∃ G : ℕ, g - 2 = G := ⟨(g - 2).toNat, by omega⟩
      obtain ⟨B, hB⟩ : ∃ B : ℕ, binade = B := ⟨binade.toNat, by omega⟩
      have tenths : 10 * G ≤ 3 * B := by omega
      rw [hG, hB, zpow_natCast, zpow_natCast]
      have tenth : ((10 : ℚ) ^ G) ^ 10 ≤ ((2 : ℚ) ^ B) ^ 10 := by
        calc ((10 : ℚ) ^ G) ^ 10 = 10 ^ (10 * G) := by rw [← pow_mul, Nat.mul_comm]
          _ ≤ 10 ^ (3 * B) := pow_le_pow_right₀ (by norm_num) tenths
          _ = (10 ^ 3) ^ B := by rw [pow_mul]
          _ ≤ (2 ^ 10) ^ B := by gcongr; norm_num
          _ = ((2 : ℚ) ^ B) ^ 10 := by rw [← pow_mul, ← pow_mul, Nat.mul_comm]
      exact le_of_pow_le_pow_left₀ (by norm_num) (by positivity) tenth
  · -- 28 times the binade's magnitude is at most 93 times the exponent's, and 2 ^ 93 ≤ 10 ^ 28
    obtain ⟨G, hG⟩ : ∃ G : ℕ, 2 - g = G := ⟨(2 - g).toNat, by omega⟩
    obtain ⟨B, hB⟩ : ∃ B : ℕ, -binade = B := ⟨(-binade).toNat, by omega⟩
    have digits : 28 * B ≤ 93 * G := by omega
    have power : ((2 : ℚ) ^ B) ^ 93 ≤ ((10 : ℚ) ^ G) ^ 93 := by
      calc ((2 : ℚ) ^ B) ^ 93 = (2 ^ 93) ^ B := by rw [← pow_mul, ← pow_mul, Nat.mul_comm]
        _ ≤ (10 ^ 28) ^ B := by gcongr; norm_num
        _ = 10 ^ (28 * B) := by rw [← pow_mul]
        _ ≤ 10 ^ (93 * G) := pow_le_pow_right₀ (by norm_num) digits
        _ = ((10 : ℚ) ^ G) ^ 93 := by rw [← pow_mul, Nat.mul_comm]
    have inverse := le_of_pow_le_pow_left₀ (by norm_num) (by positivity) power
    rw [show g - 2 = -(G : ℤ) by omega, show binade = -(B : ℤ) by omega, zpow_neg, zpow_neg,
      zpow_natCast, zpow_natCast]
    exact inv_anti₀ (by positivity) inverse

theorem two_pow_binade_le (b : Binary) (pos : 0 < b.mantissa) :
    (2 : ℚ) ^ ((Nat.log2 b.mantissa : ℤ) + b.exponent) ≤ b.value := by
  have leading : ((2 ^ Nat.log2 b.mantissa : ℕ) : ℚ) ≤ b.mantissa :=
    Nat.cast_le.2 (Nat.log2_self_le pos.ne')
  rw [zpow_add₀ (by norm_num), zpow_natCast, value]
  push_cast at leading
  exact mul_le_mul_of_nonneg_right leading (by positivity)

/-- **The scale is not too large**: the value is at least `10 ^ (scale - 1)`. -/
theorem ten_pow_scale_le (b : Binary) (pos : 0 < b.mantissa)
    (low : -1200 ≤ (Nat.log2 b.mantissa : ℤ) + b.exponent)
    (high : (Nat.log2 b.mantissa : ℤ) + b.exponent ≤ 1200) :
    (10 : ℚ) ^ (b.scale - 1) ≤ b.value := by
  have first := (ten_pow_guess_le _ low high).trans (two_pow_binade_le b pos)
  -- a candidate found not below the value is at most the value
  have notBelow : ∀ k : ℤ, (compareScaled 1 k b.mantissa b.exponent == .gt) = false →
      (10 : ℚ) ^ k ≤ b.value := by
    intro k above
    rw [compareScaled_eq, beq_eq_false_iff_ne, ne_eq, compare_gt_iff_gt, not_lt] at above
    simpa [value] using above
  unfold scale
  dsimp only
  generalize ((Nat.log2 b.mantissa : ℤ) + b.exponent) * 78913 / 262144 = g at first
  simp only [List.find?_cons, List.find?_nil]
  -- the first candidate is covered by the estimate, each later one by the candidate before it
  split
  · simpa [show g - 1 - 1 = g - 2 by ring] using first
  · next notFirst =>
    split
    · simpa using notBelow _ notFirst
    · next notSecond =>
      split
      · simpa using notBelow _ notSecond
      · next notThird =>
        split
        · simpa [show g + 2 - 1 = g + 1 by ring] using notBelow _ notThird
        · next notFourth =>
          simpa [show g + 3 - 1 = g + 2 by ring] using notBelow _ notFourth

/-! ## Finite doubles -/

/-- The binaries of the finite positive doubles: a positive mantissa of at most 53 bits, an
exponent within the format's range, and a narrow gap below only at a binade's least mantissa. -/
structure Finite (b : Binary) : Prop where
  pos : 0 < b.mantissa
  lt : b.mantissa < 2 ^ 53
  low : -1074 ≤ b.exponent
  high : b.exponent ≤ 971
  narrow : b.narrowBelow = true → b.mantissa = 2 ^ 52

theorem Finite.binade_low {b : Binary} (fin : b.Finite) :
    -1200 ≤ (Nat.log2 b.mantissa : ℤ) + b.exponent := by
  have := fin.low
  omega

theorem Finite.binade_high {b : Binary} (fin : b.Finite) :
    (Nat.log2 b.mantissa : ℤ) + b.exponent ≤ 1200 := by
  have digits : Nat.log2 b.mantissa < 53 := (Nat.log2_lt fin.pos.ne').2 fin.lt
  have := fin.high
  omega

theorem width_eq (b : Binary) :
    b.highMid - b.lowMid = (if b.narrowBelow then 3 else 4) * 2 ^ (b.exponent - 2) := by
  unfold highMid lowMid
  split <;> ring

/-- The grid of seventeen significant digits is finer than the interval of a finite double. -/
theorem spacing_lt_width {b : Binary} (fin : b.Finite) :
    (10 : ℚ) ^ (b.scale - 17) < b.highMid - b.lowMid := by
  have scaled := ten_pow_scale_le b fin.pos fin.binade_low fin.binade_high
  have grid : (10 : ℚ) ^ (b.scale - 17) * 10 ^ 16 = 10 ^ (b.scale - 1) := by
    rw [← zpow_natCast, ← zpow_add₀ (by norm_num)]
    ring_nf
  have unit := value_eq_units b
  -- the mantissa is below 10 ^ 16 / 4 times the interval's width in units
  have digits : (b.mantissa : ℚ) * 4 < (if b.narrowBelow then 3 else 4) * 10 ^ 16 := by
    split
    · next narrow => rw [fin.narrow narrow]; norm_num
    · have : (b.mantissa : ℚ) < 2 ^ 53 := by exact_mod_cast fin.lt
      linarith
  have key := mul_lt_mul_of_pos_right digits (show (0 : ℚ) < 2 ^ (b.exponent - 2) by positivity)
  rw [width_eq]
  nlinarith

/-- The fields of a pattern's binary: with a zero exponent field the fraction alone at the least
exponent, otherwise the fraction under the hidden bit at the biased exponent. -/
theorem ofBits_fields (bits : UInt64) :
    (bits.toNat / 2 ^ 52 % 2 ^ 11 = 0 ∧ (ofBits bits).mantissa = bits.toNat % 2 ^ 52 ∧
        (ofBits bits).exponent = -1074 ∧ (ofBits bits).narrowBelow = false) ∨
      (bits.toNat / 2 ^ 52 % 2 ^ 11 ≠ 0 ∧
        (ofBits bits).mantissa = bits.toNat % 2 ^ 52 + 2 ^ 52 ∧
        (ofBits bits).exponent = ((bits.toNat / 2 ^ 52 % 2 ^ 11 : ℕ) : ℤ) - 1075 ∧
        (ofBits bits).narrowBelow =
          (bits.toNat % 2 ^ 52 == 0 && decide (1 < bits.toNat / 2 ^ 52 % 2 ^ 11))) := by
  unfold ofBits
  simp only [Nat.pow_eq]
  split
  · next zero => exact .inl ⟨zero, rfl, rfl, rfl⟩
  · next nonzero => exact .inr ⟨nonzero, rfl, rfl, rfl⟩

theorem ofBits_finite (bits : UInt64) (finite : bits.toNat / 2 ^ 52 % 2 ^ 11 ≠ 2047)
    (nonzero : (ofBits bits).mantissa ≠ 0) : (ofBits bits).Finite := by
  have fraction : bits.toNat % 2 ^ 52 < 2 ^ 52 := Nat.mod_lt _ (by norm_num)
  have biased : bits.toNat / 2 ^ 52 % 2 ^ 11 < 2 ^ 11 := Nat.mod_lt _ (by norm_num)
  rcases ofBits_fields bits with ⟨_, mantissa, exponent, narrowing⟩ |
    ⟨normal, mantissa, exponent, narrowing⟩
  · refine ⟨by omega, by omega, by omega, by omega, ?_⟩
    simp [narrowing]
  · refine ⟨by omega, by omega, by omega, by omega, ?_⟩
    rw [narrowing, mantissa]
    simp only [Bool.and_eq_true, beq_iff_eq, decide_eq_true_eq]
    intro ⟨noFraction, _⟩
    omega

/-! ## Shortest digits -/

/-- **The shortest digits read back.** The decimal `shortest` returns for a finite double lies
in the interval of rationals that read back as it. -/
theorem shortest_admits {b : Binary} (fin : b.Finite) :
    b.Admits ((b.shortest.1 : ℚ) * 10 ^ b.shortest.2) := by
  unfold shortest
  dsimp only
  -- the last of the seventeen grids always has a candidate
  obtain ⟨⟨c, i⟩, found⟩ : ∃ p, (List.range 17).findSome? (fun (n : ℕ) =>
      (b.pickAt (b.scale - ((n : ℤ) + 1))).map fun c => (c, b.scale - ((n : ℤ) + 1))) =
        some p := by
    apply Option.isSome_iff_exists.1
    apply List.findSome?_isSome_iff.2
    refine ⟨16, by simp, ?_⟩
    simpa using pickAt_isSome b fin.pos _ (by simpa using spacing_lt_width fin)
  obtain ⟨n, _, picked⟩ := List.exists_of_findSome?_eq_some found
  obtain ⟨c', pick, same⟩ := Option.map_eq_some_iff.1 picked
  cases same
  rw [found]
  simp only [Option.getD_some, trimZeros_value]
  exact (admits_iff b fin.pos _ _).1 (pickAt_admits pick)

end Binary

end Lox.Decimal
