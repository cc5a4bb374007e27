import Mathlib
import Lox.Proofs.Decimal.Nearest
import Lox.Proofs.Number.Bits
/-!
# The text of a number as a numeral

A finite double is written as an optional minus sign and a numeral: its whole digits, at least
one, then a point and its fraction digits when it has any (`Digits.positional`). The digits are
those of the shortest decimal that reads back, so the numeral, read as the exact quotient of its
digits by a power of ten and rounded to the nearest double (`nearestBits`), gives back the
double's magnitude. A zero of either sign is written `0`.
-/

namespace Lox.Decimal

/-! ## Digits as characters -/

/-- The code of a decimal digit lies between those of `0` and `9`. -/
theorem isDigit_toNat {ch : Char} (digit : ch.isDigit = true) :
    48 ≤ ch.toNat ∧ ch.toNat ≤ 57 := by
  have bounds := Char.isDigit_iff_toNat.1 digit
  simpa only [Char.reduceToNat] using bounds

/-- A decimal digit is the character of its value. -/
theorem char_toNat_sub {ch : Char} (digit : ch.isDigit = true) :
    Digits.char (ch.toNat - 48) = ch := by
  have bounds := isDigit_toNat digit
  unfold Digits.char
  rw [show 48 + (ch.toNat - 48) = ch.toNat by omega, Char.ofNat_toNat]

/-- The digits of a number, as characters, are its decimal representation. -/
theorem map_char_decimalDigits (c : ℕ) :
    (decimalDigits c).map Digits.char = Nat.toDigits 10 c := by
  unfold decimalDigits
  rw [List.map_map, Nat.toString_eq_repr, Nat.toList_repr]
  conv_rhs => rw [← List.map_id (Nat.toDigits 10 c)]
  apply List.map_congr_left
  intro ch member
  exact char_toNat_sub (Nat.isDigit_of_mem_toDigits (by norm_num) (by norm_num) member)

theorem length_decimalDigits (c : ℕ) :
    (decimalDigits c).length = (Nat.toDigits 10 c).length := by
  rw [← map_char_decimalDigits, List.length_map]

theorem length_decimalDigits_pos (c : ℕ) : 0 < (decimalDigits c).length := by
  rw [length_decimalDigits]
  exact Nat.length_toDigits_pos

/-! ## Windows on the digits -/

namespace Digits

theorem window_zero (d : Digits) (count : ℕ) :
    d.window 0 count =
      (d.digits.take count).map char ++ List.replicate (count - d.digits.length) '0' := by
  unfold window
  simp
  omega

theorem window_within (d : Digits) {start count : ℕ}
    (inside : start + count ≤ d.digits.length) :
    d.window start count = ((d.digits.drop start).take count).map char := by
  unfold window
  simp only [Int.toNat_natCast, Int.toNat_neg_natCast]
  simp
  omega

theorem window_before (d : Digits) (gap : ℕ) :
    d.window (-(gap : ℤ)) (gap + d.digits.length) =
      List.replicate gap '0' ++ d.digits.map char := by
  unfold window
  simp

end Digits

/-- The characters of a numeral: its whole digits, then a point and its fraction digits when it
has any. -/
def numeralChars (whole fraction : List Char) : List Char :=
  whole ++ if fraction = [] then [] else '.' :: fraction

/-! ## The three positional layouts -/

section Layouts

variable (c : ℕ)

/-- With the point at or after the last digit, the layout is the digits and then zeros. -/
theorem positional_after (n : ℕ) :
    Digits.positional ⟨decimalDigits c, (decimalDigits c).length + n⟩ 0 =
      String.ofList (numeralChars (Nat.toDigits 10 c ++ List.replicate n '0') []) := by
  have long := length_decimalDigits_pos c
  unfold Digits.positional numeralChars
  dsimp only
  rw [if_neg (by omega), if_pos rfl,
    show (((decimalDigits c).length : ℤ) + n).toNat = (decimalDigits c).length + n by omega,
    Digits.window_zero]
  simp [map_char_decimalDigits, List.take_of_length_le]

/-- With the point after the `k`-th digit and before the last, the layout is the first `k`
digits, the point, and the rest. -/
theorem positional_inside {k : ℕ} (pos : 0 < k) (short : k < (decimalDigits c).length) :
    Digits.positional ⟨decimalDigits c, k⟩ ((decimalDigits c).length - k) =
      String.ofList (numeralChars ((Nat.toDigits 10 c).take k) ((Nat.toDigits 10 c).drop k)) := by
  unfold Digits.positional numeralChars
  dsimp only
  rw [if_neg (by omega), if_neg (by omega), Int.toNat_natCast, Digits.window_zero,
    Digits.window_within _ (by simp; omega),
    if_neg (by simp [← length_decimalDigits]; omega)]
  simp [← map_char_decimalDigits, List.map_take, List.map_drop, List.take_of_length_le]
  omega

/-- With the point `gap` places before the first digit, the layout is `0`, the point, `gap`
zeros and the digits. -/
theorem positional_before (gap : ℕ) :
    Digits.positional ⟨decimalDigits c, -gap⟩ (gap + (decimalDigits c).length) =
      String.ofList (numeralChars ['0'] (List.replicate gap '0' ++ Nat.toDigits 10 c)) := by
  have long := length_decimalDigits_pos c
  unfold Digits.positional numeralChars
  dsimp only
  rw [if_pos (by omega), if_neg (by omega), Digits.window_before,
    if_neg (by simp [List.ne_nil_of_length_pos Nat.length_toDigits_pos])]
  simp [map_char_decimalDigits]

end Layouts

/-- **The positional layout.** For `c ≠ 0` the text of the digits of `c * 10 ^ i` is its whole
digits, then a point and its fraction digits when it has any; all are decimal digits, and as a
numeral they stand for `c * 10 ^ i`. -/
theorem positional_ofScaled (c : ℕ) (i : ℤ) (hc : c ≠ 0) :
    ∃ whole fraction : List Char,
      (Digits.ofScaled c i).positional
          ((Digits.ofScaled c i).digits.length - (Digits.ofScaled c i).point).toNat =
        String.ofList (numeralChars whole fraction) ∧
      whole ≠ [] ∧ (∀ ch ∈ whole ++ fraction, ch.isDigit = true) ∧
      (Nat.ofDigitChars 10 (whole ++ fraction) 0 : ℚ) / 10 ^ fraction.length = c * 10 ^ i := by
  have value := trimZeros_value c i
  unfold Digits.ofScaled
  simp only [hc, if_false]
  generalize trimZeros c i = trimmed at value
  obtain ⟨c', i'⟩ := trimmed
  dsimp only at value ⊢
  rw [← value]
  have length := length_decimalDigits c'
  have long : 0 < (Nat.toDigits 10 c').length := Nat.length_toDigits_pos
  have allDigits : ∀ ch ∈ Nat.toDigits 10 c', ch.isDigit = true :=
    fun ch member => Nat.isDigit_of_mem_toDigits (by norm_num) (by norm_num) member
  -- the exponent places the point after the digits, among them, or before them
  rcases le_or_gt 0 i' with nonneg | negative
  · obtain ⟨n, rfl⟩ := Int.eq_ofNat_of_zero_le nonneg
    refine ⟨Nat.toDigits 10 c' ++ List.replicate n '0', [], ?_,
      by simp [List.ne_nil_of_length_pos long], ?_, ?_⟩
    · rw [show (((decimalDigits c').length : ℤ) - ((decimalDigits c').length + n)).toNat = 0 by
        omega]
      exact positional_after c' n
    · simp only [List.append_nil, List.mem_append, List.mem_replicate]
      rintro ch (member | ⟨-, rfl⟩)
      · exact allDigits ch member
      · rfl
    · simp [Nat.ofDigitChars_append, Nat.ofDigitChars_ten_toDigits, mul_comm]
  rcases lt_or_ge 0 ((decimalDigits c').length + i') with inside | before
  · obtain ⟨k, split⟩ : ∃ k : ℕ, ((decimalDigits c').length : ℤ) + i' = k :=
      ⟨_, (Int.toNat_of_nonneg inside.le).symm⟩
    refine ⟨(Nat.toDigits 10 c').take k, (Nat.toDigits 10 c').drop k, ?_, by simp; omega, ?_,
      ?_⟩
    · rw [split,
        show (((decimalDigits c').length : ℤ) - k).toNat = (decimalDigits c').length - k by omega]
      exact positional_inside c' (by omega) (by omega)
    · rw [List.take_append_drop]
      exact allDigits
    · rw [List.take_append_drop, Nat.ofDigitChars_ten_toDigits, List.length_drop, ← length,
        show i' = -(((decimalDigits c').length - k : ℕ) : ℤ) by omega, zpow_neg, zpow_natCast]
      rfl
  · obtain ⟨gap, split⟩ : ∃ gap : ℕ, ((decimalDigits c').length : ℤ) + i' = -gap :=
      ⟨(-((decimalDigits c').length + i')).toNat, by omega⟩
    refine ⟨['0'], List.replicate gap '0' ++ Nat.toDigits 10 c', ?_, by simp, ?_, ?_⟩
    · rw [split, show (((decimalDigits c').length : ℤ) - -gap).toNat =
        gap + (decimalDigits c').length by omega]
      exact positional_before c' gap
    · simp only [List.mem_append, List.mem_singleton, List.mem_replicate]
      rintro ch (rfl | ⟨-, rfl⟩ | member)
      · rfl
      · rfl
      · exact allDigits ch member
    · -- leading zeros add nothing to the value
      have zeros : ['0'] ++ (List.replicate gap '0' ++ Nat.toDigits 10 c') =
          List.replicate (gap + 1) '0' ++ Nat.toDigits 10 c' := by
        simp [List.replicate_succ]
      rw [zeros, Nat.ofDigitChars_append, Nat.ofDigitChars_replicate_zero, mul_zero,
        Nat.ofDigitChars_ten_toDigits, List.length_append, List.length_replicate, ← length,
        show i' = -((gap + (decimalDigits c').length : ℕ) : ℤ) by omega, zpow_neg, zpow_natCast]
      rfl

end Lox.Decimal

namespace Lox.Number

open Decimal

/-- Whole digits `whole` and fraction digits `fraction` spell a numeral, with at least one whole
digit and only decimal digits, whose value rounds to the double with bits `bits`. -/
structure Spells (whole fraction : List Char) (bits : UInt64) : Prop where
  whole_ne_nil : whole ≠ []
  digits : ∀ ch ∈ whole ++ fraction, ch.isDigit = true
  rounds : nearestBits (Nat.ofDigitChars 10 (whole ++ fraction) 0) (10 ^ fraction.length) = bits

/-- A double whose mantissa is zero is a zero: all its bits but the sign are clear. -/
theorem magnitude_of_mantissa_eq_zero (bits : UInt64) (zero : (Binary.ofBits bits).mantissa = 0) :
    bits.toNat % 2 ^ 63 = 0 := by
  rcases Binary.ofBits_fields bits with ⟨biased, mantissa, -, -⟩ | ⟨-, mantissa, -⟩ <;>
    omega

/-- **The text of a finite double** is its sign, a minus for a set sign bit, then a numeral that
reads back as the double's magnitude. -/
theorem text_spells (x : Float) (finite : x.isFinite = true) :
    ∃ whole fraction,
      text x = (if signBit x then "-" else "") ++ String.ofList (numeralChars whole fraction) ∧
      Spells whole fraction (UInt64.ofNat (x.toBits.toNat % 2 ^ 63)) := by
  have fields := (isFinite_iff x).1 finite
  unfold text
  simp only [isNaN_of_isFinite finite, isInf_of_isFinite finite, Bool.false_eq_true, if_false]
  by_cases zero : (Binary.ofBits x.toBits).mantissa = 0
  · -- both zeros are written `0`
    refine ⟨['0'], [], ?_, ⟨by simp, by simp, ?_⟩⟩
    · simp only [Binary.shortestDigits, zero, if_true]
      rfl
    · rw [magnitude_of_mantissa_eq_zero _ zero]
      rfl
  · have fin := Binary.ofBits_finite x.toBits fields zero
    have admitted := Binary.shortest_admits fin
    simp only [Binary.shortestDigits, zero, if_false]
    generalize (Binary.ofBits x.toBits).shortest = short at admitted ⊢
    obtain ⟨c, i⟩ := short
    have hc : c ≠ 0 := by
      rintro rfl
      have := (Binary.lowMid_pos fin).trans_le (Binary.lowMid_le_of_admits admitted)
      simp at this
    obtain ⟨whole, fraction, layout, whole_ne_nil, isDigit, value⟩ := positional_ofScaled c i hc
    refine ⟨whole, fraction, by rw [layout], whole_ne_nil, isDigit, ?_⟩
    apply nearestBits_of_admits x.toBits fields zero (by positivity)
    rw [Nat.cast_pow, Nat.cast_ofNat, value]
    exact admitted

end Lox.Number
