import Mathlib
import Lox.Number
/-!
# The bits of a double

A double is a 64-bit pattern: a sign bit, an 11-bit biased exponent and a 52-bit fraction. `Float`
is modelled by unpacking a pattern into a zero, a finite value, an infinity or `NaN`, and by
packing such a value back. This module reads that model on the three fields of a *finite*
pattern, one whose exponent field is not all ones: unpacking and packing it again gives the same
pattern (`toBits_ofBits`), `abs` clears the sign bit (`toBits_abs`), negation flips it
(`toBits_neg`), and a double is finite exactly when its exponent field is not all ones
(`isFinite_iff`). From these follow the facts a reader of a printed number needs: the double
whose bits are the magnitude of `x` is `|x|` (`ofBits_magnitude`), and `x` is `|x|` or its
negation as its sign bit says (`abs_of_signBit_false`, `neg_abs_of_signBit`).
-/

open Float.Model Float.Model.UnpackedFloat

namespace Lox.Number

/-! ## The three fields -/

theorem mantissa_toNat (b : BitVec 64) :
    (@unpackMantissa Format.binary64 b).toNat = b.toNat % 2 ^ 52 := by
  simp [unpackMantissa, BitVec.extractLsb]

theorem exponent_toNat (b : BitVec 64) :
    (@unpackExponent Format.binary64 b).toNat = b.toNat / 2 ^ 52 % 2 ^ 11 := by
  simp [unpackExponent, BitVec.extractLsb, Nat.shiftRight_eq_div_pow]

theorem sign_toNat (b : BitVec 64) :
    (@unpackSign Format.binary64 b).toNat = b.toNat / 2 ^ 63 := by
  have := b.isLt
  simp [unpackSign, BitVec.extractLsb, Nat.shiftRight_eq_div_pow]
  omega

theorem exponent_eq_allOnes_iff (b : BitVec 64) :
    @unpackExponent Format.binary64 b = -1#11 ↔ b.toNat / 2 ^ 52 % 2 ^ 11 = 2047 := by
  rw [← BitVec.toNat_inj, exponent_toNat]
  simp

theorem toBitVec_ofBitVec (v : BitVec 1) : (Sign.ofBitVec v).toBitVec = v := by
  revert v
  decide

theorem toNat_toBitVec_neg (s : Sign) : (-s).toBitVec.toNat = 1 - s.toBitVec.toNat := by
  cases s <;> rfl

theorem toNat_hidden_append (m : BitVec 52) : (1#1 ++ m).toNat = 2 ^ 52 + m.toNat := by
  rw [BitVec.toNat_append, ← Nat.shiftLeft_add_eq_or_of_lt m.isLt, Nat.shiftLeft_eq]
  simp

/-- A mantissa with its hidden bit lies in the binade of `2 ^ 52`. -/
theorem log2_hidden_append (m : BitVec 52) : (1#1 ++ m).toNat.log2 = 52 := by
  have small := m.isLt
  rw [Nat.log2_eq_iff (by rw [toNat_hidden_append]; omega), toNat_hidden_append]
  omega

/-- Dropping the hidden bit gives back the stored fraction. -/
theorem setWidth_hidden_append (m : BitVec 52) : BitVec.setWidth 52 (1#1 ++ m) = m := by
  have small := m.isLt
  apply BitVec.eq_of_toNat_eq
  rw [BitVec.toNat_setWidth, toNat_hidden_append]
  omega

theorem packComponents_toNat (s : Sign) (e : BitVec 11) (m : BitVec 52) :
    (packComponents Format.binary64 s e m).toNat =
      s.toBitVec.toNat * 2 ^ 63 + e.toNat * 2 ^ 52 + m.toNat := by
  rw [packComponents, BitVec.toNat_append, BitVec.toNat_append,
    ← Nat.shiftLeft_add_eq_or_of_lt m.isLt, ← Nat.shiftLeft_add_eq_or_of_lt e.isLt,
    Nat.shiftLeft_eq, Nat.shiftLeft_eq]
  ring

theorem toNat_eq_fields (b : BitVec 64) :
    b.toNat =
      b.toNat / 2 ^ 63 * 2 ^ 63 + b.toNat / 2 ^ 52 % 2 ^ 11 * 2 ^ 52 + b.toNat % 2 ^ 52 := by
  have := b.isLt
  omega

theorem packComponents_unpack (b : BitVec 64) :
    packComponents Format.binary64 (Sign.ofBitVec (@unpackSign Format.binary64 b))
      (@unpackExponent Format.binary64 b) (@unpackMantissa Format.binary64 b) = b := by
  apply BitVec.eq_of_toNat_eq
  rw [packComponents_toNat, toBitVec_ofBitVec, sign_toNat, exponent_toNat, mantissa_toNat]
  exact (toNat_eq_fields b).symm

/-! ## Unpacking a finite pattern -/

/-- A finite pattern unpacks to a zero or a finite value, with the pattern's sign. -/
theorem unpack_of_finite (b : BitVec 64) (finite : b.toNat / 2 ^ 52 % 2 ^ 11 ≠ 2047) :
    UnpackedFloat.unpack Format.binary64 b =
        .zero (Sign.ofBitVec (@unpackSign Format.binary64 b)) ∨
      ∃ m e h, UnpackedFloat.unpack Format.binary64 b =
        .finite (Sign.ofBitVec (@unpackSign Format.binary64 b)) m e h := by
  have notAll : ¬ @unpackExponent Format.binary64 b = -1#11 := by
    rwa [exponent_eq_allOnes_iff]
  unfold UnpackedFloat.unpack
  simp only [notAll, if_false]
  split
  · split
    · exact .inl rfl
    · next nonzero =>
      exact .inr ⟨_, _, by simpa [BitVec.toNat_pos, BitVec.pos_iff_ne_zero], rfl⟩
  · exact .inr ⟨_, _, by rw [toNat_hidden_append]; omega, rfl⟩

/-- A zero or a finite value with its sign replaced; infinities and `NaN` are left alone. -/
def resign (s : Sign) : UnpackedFloat → UnpackedFloat
  | .zero _ => .zero s
  | .finite _ m e h => .finite s m e h
  | f => f

theorem resign_unpack (b : BitVec 64) (finite : b.toNat / 2 ^ 52 % 2 ^ 11 ≠ 2047) :
    resign (Sign.ofBitVec (@unpackSign Format.binary64 b))
        (UnpackedFloat.unpack Format.binary64 b) =
      UnpackedFloat.unpack Format.binary64 b := by
  rcases unpack_of_finite b finite with zero | ⟨m, e, h, nonzero⟩
  · rw [zero]; rfl
  · rw [nonzero]; rfl

theorem abs_unpack (b : BitVec 64) (finite : b.toNat / 2 ^ 52 % 2 ^ 11 ≠ 2047) :
    (UnpackedFloat.unpack Format.binary64 b).abs =
      resign .positive (UnpackedFloat.unpack Format.binary64 b) := by
  rcases unpack_of_finite b finite with zero | ⟨m, e, h, nonzero⟩
  · rw [zero]; rfl
  · rw [nonzero]; rfl

theorem neg_unpack (b : BitVec 64) (finite : b.toNat / 2 ^ 52 % 2 ^ 11 ≠ 2047) :
    (UnpackedFloat.unpack Format.binary64 b).neg =
      resign (-Sign.ofBitVec (@unpackSign Format.binary64 b))
        (UnpackedFloat.unpack Format.binary64 b) := by
  rcases unpack_of_finite b finite with zero | ⟨m, e, h, nonzero⟩
  · rw [zero]; rfl
  · rw [nonzero]; rfl

/-- **Packing a finite pattern back.** Whatever sign it is given, an unpacked finite pattern packs
to its own exponent and fraction fields. -/
theorem pack_resign (b : BitVec 64) (finite : b.toNat / 2 ^ 52 % 2 ^ 11 ≠ 2047) (s : Sign) :
    UnpackedFloat.pack Format.binary64 (resign s (UnpackedFloat.unpack Format.binary64 b)) =
      packComponents Format.binary64 s (@unpackExponent Format.binary64 b)
        (@unpackMantissa Format.binary64 b) := by
  have notAll : ¬ @unpackExponent Format.binary64 b = -1#11 := by
    rwa [exponent_eq_allOnes_iff]
  unfold UnpackedFloat.unpack
  simp only [notAll, if_false]
  split
  · next low =>
    split
    · next none =>
      simp [resign, UnpackedFloat.pack, packedZero, low, none]
    · next some =>
      -- a subnormal mantissa lies below the hidden bit, so it packs back with exponent 0
      have nonzero : (@unpackMantissa Format.binary64 b).toNat ≠ 0 :=
        fun zero => some (BitVec.eq_of_toNat_eq (by simpa using zero))
      have below : (@unpackMantissa Format.binary64 b).toNat.log2 < 52 :=
        (Nat.log2_lt nonzero).2 (BitVec.isLt _)
      simp [resign, UnpackedFloat.pack, low, Format.exponentBias, Format.mantissaBits]
      omega
  · next normal =>
    -- a normal mantissa carries the hidden bit, so its logarithm is 52 and its biased exponent
    -- is the stored one
    have stored : (@unpackExponent Format.binary64 b).toNat < 2047 := by
      rw [exponent_toNat]; omega
    have positive : 0 < (@unpackExponent Format.binary64 b).toNat :=
      Nat.pos_of_ne_zero fun zero => normal (BitVec.eq_of_toNat_eq (by simpa using zero))
    have biased : ((@unpackExponent Format.binary64 b).toNat - 1075 + 1023 + 52 : Int).toNat =
        (@unpackExponent Format.binary64 b).toNat := by
      omega
    have noInf : ¬ 2047 ≤ (@unpackExponent Format.binary64 b).toNat := by omega
    simp [resign, UnpackedFloat.pack, Format.exponentBias, Format.mantissaBits,
      log2_hidden_append, biased, noInf, setWidth_hidden_append]

theorem pack_unpack (b : BitVec 64) (finite : b.toNat / 2 ^ 52 % 2 ^ 11 ≠ 2047) :
    UnpackedFloat.pack Format.binary64 (UnpackedFloat.unpack Format.binary64 b) = b := by
  rw [← resign_unpack b finite, pack_resign b finite, packComponents_unpack]

/-! ## Doubles -/

theorem toBits_injective {x y : Float} (same : x.toBits = y.toBits) : x = y := by
  obtain ⟨⟨a, _⟩⟩ := x
  obtain ⟨⟨b, _⟩⟩ := y
  cases same
  rfl

theorem toBits_ofBits (bits : UInt64) (finite : bits.toNat / 2 ^ 52 % 2 ^ 11 ≠ 2047) :
    (Float.ofBits bits).toBits = bits := by
  show UInt64.ofBitVec (UnpackedFloat.pack Format.binary64
    (UnpackedFloat.unpack Format.binary64 bits.toBitVec)) = bits
  rw [pack_unpack bits.toBitVec (by simpa using finite)]

theorem toBits_abs (x : Float) (finite : x.toBits.toNat / 2 ^ 52 % 2 ^ 11 ≠ 2047) :
    x.abs.toBits.toNat = x.toBits.toNat % 2 ^ 63 := by
  have finite' : x.toBits.toBitVec.toNat / 2 ^ 52 % 2 ^ 11 ≠ 2047 := by simpa using finite
  show (UInt64.ofBitVec (UnpackedFloat.pack Format.binary64
    (UnpackedFloat.unpack Format.binary64 x.toBits.toBitVec).abs)).toNat = _
  rw [abs_unpack _ finite', pack_resign _ finite', UInt64.toNat_ofBitVec, packComponents_toNat,
    exponent_toNat, mantissa_toNat]
  have := toNat_eq_fields x.toBits.toBitVec
  simp only [UInt64.toNat_toBitVec] at this ⊢
  have positive : Sign.positive.toBitVec.toNat = 0 := rfl
  rw [positive]
  omega

theorem toBits_neg (x : Float) (finite : x.toBits.toNat / 2 ^ 52 % 2 ^ 11 ≠ 2047) :
    (-x).toBits.toNat = (x.toBits.toNat + 2 ^ 63) % 2 ^ 64 := by
  have finite' : x.toBits.toBitVec.toNat / 2 ^ 52 % 2 ^ 11 ≠ 2047 := by simpa using finite
  show (UInt64.ofBitVec (UnpackedFloat.pack Format.binary64
    (UnpackedFloat.unpack Format.binary64 x.toBits.toBitVec).neg)).toNat = _
  rw [neg_unpack _ finite', pack_resign _ finite', UInt64.toNat_ofBitVec, packComponents_toNat,
    toNat_toBitVec_neg, toBitVec_ofBitVec, sign_toNat, exponent_toNat, mantissa_toNat]
  have := toNat_eq_fields x.toBits.toBitVec
  have := x.toBits.toBitVec.isLt
  simp only [UInt64.toNat_toBitVec] at *
  omega

theorem isFinite_iff (x : Float) :
    x.isFinite = true ↔ x.toBits.toNat / 2 ^ 52 % 2 ^ 11 ≠ 2047 := by
  show (UnpackedFloat.unpack Format.binary64 x.toBits.toBitVec).isFinite = true ↔ _
  constructor
  · intro finite allOnes
    have top : @unpackExponent Format.binary64 x.toBits.toBitVec = -1#11 := by
      rw [exponent_eq_allOnes_iff]; simpa using allOnes
    unfold UnpackedFloat.unpack at finite
    simp only [top, if_true] at finite
    split at finite <;> simp [UnpackedFloat.isFinite] at finite
  · intro finite
    rcases unpack_of_finite _ (by rw [UInt64.toNat_toBitVec]; exact finite) with
      zero | ⟨m, e, h, nonzero⟩
    · rw [zero]; rfl
    · rw [nonzero]; rfl

theorem isNaN_of_isFinite {x : Float} (finite : x.isFinite = true) : x.isNaN = false := by
  revert finite
  show (UnpackedFloat.unpack Format.binary64 x.toBits.toBitVec).isFinite = true →
    (UnpackedFloat.unpack Format.binary64 x.toBits.toBitVec).isNaN = false
  cases UnpackedFloat.unpack Format.binary64 x.toBits.toBitVec <;>
    simp [UnpackedFloat.isFinite, UnpackedFloat.isNaN]

theorem isInf_of_isFinite {x : Float} (finite : x.isFinite = true) : x.isInf = false := by
  revert finite
  show (UnpackedFloat.unpack Format.binary64 x.toBits.toBitVec).isFinite = true →
    (UnpackedFloat.unpack Format.binary64 x.toBits.toBitVec).isInf = false
  cases UnpackedFloat.unpack Format.binary64 x.toBits.toBitVec <;>
    simp [UnpackedFloat.isFinite, UnpackedFloat.isInf]

/-- The magnitude of a finite double is finite. -/
theorem isFinite_abs {x : Float} (finite : x.isFinite = true) : x.abs.isFinite = true := by
  have fields := (isFinite_iff x).1 finite
  rw [isFinite_iff, toBits_abs x fields]
  omega

theorem signBit_iff (x : Float) : signBit x = true ↔ 2 ^ 63 ≤ x.toBits.toNat := by
  have := x.toBits.toNat_lt
  rw [signBit, beq_iff_eq, ← UInt64.toNat_inj, UInt64.toNat_shiftRight]
  simp [Nat.shiftRight_eq_div_pow]
  omega

/-! ## Magnitude and sign -/

/-- The double whose bits are the magnitude of a finite `x` is `|x|`. -/
theorem ofBits_magnitude (x : Float) (finite : x.isFinite = true) :
    Float.ofBits (UInt64.ofNat (x.toBits.toNat % 2 ^ 63)) = x.abs := by
  have fields := (isFinite_iff x).1 finite
  have lt := x.toBits.toNat_lt
  have magnitude : (UInt64.ofNat (x.toBits.toNat % 2 ^ 63)).toNat = x.toBits.toNat % 2 ^ 63 := by
    rw [UInt64.toNat_ofNat']; omega
  apply toBits_injective
  rw [toBits_ofBits _ (by rw [magnitude]; omega), ← UInt64.toNat_inj, magnitude,
    toBits_abs x fields]

theorem abs_of_signBit_false (x : Float) (finite : x.isFinite = true)
    (positive : signBit x = false) : x.abs = x := by
  have below : ¬ 2 ^ 63 ≤ x.toBits.toNat := by rw [← signBit_iff, positive]; simp
  apply toBits_injective
  rw [← UInt64.toNat_inj, toBits_abs x ((isFinite_iff x).1 finite)]
  omega

theorem neg_abs_of_signBit (x : Float) (finite : x.isFinite = true)
    (negative : signBit x = true) : -x.abs = x := by
  have fields := (isFinite_iff x).1 finite
  have above := (signBit_iff x).1 negative
  have lt := x.toBits.toNat_lt
  have absBits := toBits_abs x fields
  apply toBits_injective
  rw [← UInt64.toNat_inj, toBits_neg x.abs (by rw [absBits]; omega), absBits]
  omega

end Lox.Number
