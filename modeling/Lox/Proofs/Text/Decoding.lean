import Mathlib
import Lox.Text.Utf8
/-!
# Decoding the first character

`Utf8.head` reads the character at the head of a byte string. Here it is held to UTF-8 itself, as
`String.utf8EncodeChar` writes it (`FirstChar`): where the bytes begin with the encoding of a
character, `head` reads that character and takes the rest of its encoding (`head_of_encoding`);
where they begin with the encoding of no character (a stray continuation byte, an over-long form,
a surrogate, a code point above U+10FFFF, or a sequence the end of the bytes cuts short), it reads
U+FFFD over the first byte alone (`head_of_unencoded`), since nothing else can come out
(`head_encoded`). So `head` is exactly the reading `FirstChar` describes (`head_eq_iff`). No
encoding is a prefix of another, so at most one character qualifies, and the size `head` reports
is the length of that encoding.
-/

namespace Lox.Utf8

/-- The first character of a byte string, as UTF-8 decoding reads it, is `c` over `size` bytes:
the bytes begin with the encoding of `c`, which is `size` bytes long; or they begin with the
encoding of no character, and `c` is U+FFFD over the first byte alone. -/
def FirstChar (bytes : List UInt8) (c : Char) (size : Nat) : Prop :=
  String.utf8EncodeChar c <+: bytes ∧ size = c.utf8Size ∨
    (∀ d : Char, ¬ String.utf8EncodeChar d <+: bytes) ∧ c = '\uFFFD' ∧ size = 1

/-! ## Bytes as numbers -/

theorem within_iff {lo hi : Nat} {b : UInt8} :
    within lo hi b = true ↔ lo ≤ b.toNat ∧ b.toNat ≤ hi := by
  simp [within]

theorem continues_iff {b : UInt8} : continues b = true ↔ 0x80 ≤ b.toNat ∧ b.toNat ≤ 0xBF :=
  within_iff

/-- The second byte of a sequence is a continuation byte, narrowed after `E0`, `ED`, `F0` and
`F4`. -/
theorem within_secondRange {b x : UInt8} :
    within (secondRange b).1 (secondRange b).2 x = true ↔
      0x80 ≤ x.toNat ∧ x.toNat ≤ 0xBF ∧ (b.toNat = 0xE0 → 0xA0 ≤ x.toNat) ∧
        (b.toNat = 0xED → x.toNat ≤ 0x9F) ∧ (b.toNat = 0xF0 → 0x90 ≤ x.toNat) ∧
        (b.toNat = 0xF4 → x.toNat ≤ 0x8F) := by
  rw [within_iff]
  unfold secondRange
  split
  · dsimp only; omega
  · dsimp only; omega
  · dsimp only; omega
  · dsimp only; omega
  · rename_i notE0 notED notF0 notF4
    -- the match leaves its failed patterns as implications, which omega does not read
    simp only [imp_false] at notE0 notED notF0 notF4
    dsimp only
    omega

theorem toNat_ofNat_small {e : Nat} (small : e < 256) : (UInt8.ofNat e).toNat = e := by
  rw [UInt8.toNat_ofNat']
  exact Nat.mod_eq_of_lt small

theorem toNat_of_ofNat_eq {e : Nat} {b : UInt8} (h : UInt8.ofNat e = b) (small : e < 256) :
    b.toNat = e :=
  h ▸ toNat_ofNat_small small

theorem ofNat_eq {e : Nat} {b : UInt8} (h : e % 256 = b.toNat) : UInt8.ofNat e = b :=
  UInt8.toNat_inj.1 (by rw [UInt8.toNat_ofNat']; exact h)

/-! ## The encoding of a character -/

/-- The code point of a character is a Unicode scalar value: below the surrogates, or above them
and at most U+10FFFF. -/
theorem toNat_scalar (c : Char) :
    c.toNat < 0xD800 ∨ 0xDFFF < c.toNat ∧ c.toNat ≤ 0x10FFFF := by
  have valid := c.valid
  simp only [UInt32.isValidChar, Nat.isValidChar, Char.toNat_val] at valid
  omega

theorem toNat_ofNat_of_valid {m : Nat} (valid : m.isValidChar) : (Char.ofNat m).toNat = m := by
  simp [Char.toNat_ofNat, valid]

theorem encode_one {m : Nat} (hi : m ≤ 0x7F) :
    String.utf8EncodeChar (Char.ofNat m) = [UInt8.ofNat m] := by
  have own := toNat_ofNat_of_valid (m := m) (.inl (by omega))
  simp only [String.utf8EncodeChar, Char.toNat_val, own, if_pos hi]

theorem encode_two {m : Nat} (lo : 0x7F < m) (hi : m ≤ 0x7FF) :
    String.utf8EncodeChar (Char.ofNat m) =
      [UInt8.ofNat (m / 64 % 32 + 0xC0), UInt8.ofNat (m % 64 + 0x80)] := by
  have own := toNat_ofNat_of_valid (m := m) (.inl (by omega))
  simp only [String.utf8EncodeChar, Char.toNat_val, own, if_neg (Nat.not_le.2 lo), if_pos hi]

theorem encode_three {m : Nat} (lo : 0x7FF < m) (hi : m ≤ 0xFFFF)
    (scalar : m < 0xD800 ∨ 0xDFFF < m) :
    String.utf8EncodeChar (Char.ofNat m) =
      [UInt8.ofNat (m / 4096 % 16 + 0xE0), UInt8.ofNat (m / 64 % 64 + 0x80),
        UInt8.ofNat (m % 64 + 0x80)] := by
  have own := toNat_ofNat_of_valid (m := m) (by unfold Nat.isValidChar; omega)
  simp only [String.utf8EncodeChar, Char.toNat_val, own, if_neg (show ¬ m ≤ 0x7F by omega),
    if_neg (Nat.not_le.2 lo), if_pos hi]

theorem encode_four {m : Nat} (lo : 0xFFFF < m) (hi : m ≤ 0x10FFFF) :
    String.utf8EncodeChar (Char.ofNat m) =
      [UInt8.ofNat (m / 262144 % 8 + 0xF0), UInt8.ofNat (m / 4096 % 64 + 0x80),
        UInt8.ofNat (m / 64 % 64 + 0x80), UInt8.ofNat (m % 64 + 0x80)] := by
  have own := toNat_ofNat_of_valid (m := m) (.inr (by omega))
  simp only [String.utf8EncodeChar, Char.toNat_val, own, if_neg (show ¬ m ≤ 0x7F by omega),
    if_neg (show ¬ m ≤ 0x7FF by omega), if_neg (Nat.not_le.2 lo)]

/-! ## What `head` reads, by the length of the sequence -/

theorem head_one {b : UInt8} (rest : List UInt8) (ascii : b.toNat < 0x80) :
    head b rest = (Char.ofNat b.toNat, 0) := by
  simp [head, ascii]

theorem head_two {b b1 : UInt8} (more : List UInt8) (lead : 0xC2 ≤ b.toNat ∧ b.toNat ≤ 0xDF)
    (second : 0x80 ≤ b1.toNat ∧ b1.toNat ≤ 0xBF) :
    head b (b1 :: more) = (Char.ofNat (b.toNat % 32 * 64 + b1.toNat % 64), 1) := by
  have inRange : within (secondRange b).1 (secondRange b).2 b1 = true :=
    within_secondRange.2 (by omega)
  simp [head, inRange, lead, show ¬ b.toNat < 0x80 by omega]

theorem head_three {b b1 b2 : UInt8} (more : List UInt8)
    (lead : 0xE0 ≤ b.toNat ∧ b.toNat ≤ 0xEF)
    (second : within (secondRange b).1 (secondRange b).2 b1 = true)
    (third : continues b2 = true) :
    head b (b1 :: b2 :: more) =
      (Char.ofNat (b.toNat % 16 * 4096 + b1.toNat % 64 * 64 + b2.toNat % 64), 2) := by
  simp [head, second, third, lead, show ¬ b.toNat < 0x80 by omega,
    show ¬ (0xC2 ≤ b.toNat ∧ b.toNat ≤ 0xDF) by omega]

theorem head_four {b b1 b2 b3 : UInt8} (more : List UInt8)
    (lead : 0xF0 ≤ b.toNat ∧ b.toNat ≤ 0xF4)
    (second : within (secondRange b).1 (secondRange b).2 b1 = true)
    (third : continues b2 = true) (fourth : continues b3 = true) :
    head b (b1 :: b2 :: b3 :: more) =
      (Char.ofNat (b.toNat % 8 * 262144 + b1.toNat % 64 * 4096 + b2.toNat % 64 * 64 +
        b3.toNat % 64), 3) := by
  simp [head, second, third, fourth, lead, show ¬ b.toNat < 0x80 by omega,
    show ¬ (0xC2 ≤ b.toNat ∧ b.toNat ≤ 0xDF) by omega,
    show ¬ (0xE0 ≤ b.toNat ∧ b.toNat ≤ 0xEF) by omega]

/-! ## Decoding against encoding -/

/-- **Decoding reads every encoded character.** Where the bytes begin with the encoding of a
character, `head` reads that character and takes the rest of its encoding. -/
theorem head_of_encoding {b : UInt8} {rest : List UInt8} {c : Char}
    (begins : String.utf8EncodeChar c <+: b :: rest) : head b rest = (c, c.utf8Size - 1) := by
  obtain ⟨after, whole⟩ := begins
  rw [← String.length_utf8EncodeChar]
  rw [← Char.ofNat_toNat c] at whole ⊢
  have scalar := toNat_scalar c
  generalize c.toNat = m at whole scalar ⊢
  -- one case per length of the encoding; its bytes decide the branch `head` takes
  by_cases one : m ≤ 0x7F
  · rw [encode_one one] at whole ⊢
    obtain ⟨lead, rfl⟩ : UInt8.ofNat m = b ∧ after = rest := by simpa using whole
    have x0 := toNat_of_ofNat_eq lead (by omega)
    rw [head_one _ (by omega), x0]
    rfl
  by_cases two : m ≤ 0x7FF
  · rw [encode_two (by omega) two] at whole ⊢
    obtain ⟨lead, rfl⟩ : UInt8.ofNat (m / 64 % 32 + 0xC0) = b ∧
        UInt8.ofNat (m % 64 + 0x80) :: after = rest := by simpa using whole
    have x0 := toNat_of_ofNat_eq lead (by omega)
    have x1 := toNat_ofNat_small (e := m % 64 + 0x80) (by omega)
    rw [head_two _ (by omega) (by omega)]
    congr 2
    omega
  by_cases three : m ≤ 0xFFFF
  · rw [encode_three (by omega) three (by omega)] at whole ⊢
    obtain ⟨lead, rfl⟩ : UInt8.ofNat (m / 4096 % 16 + 0xE0) = b ∧
        [UInt8.ofNat (m / 64 % 64 + 0x80), UInt8.ofNat (m % 64 + 0x80)] ++ after = rest := by
      simpa using whole
    have x0 := toNat_of_ofNat_eq lead (by omega)
    have x1 := toNat_ofNat_small (e := m / 64 % 64 + 0x80) (by omega)
    have x2 := toNat_ofNat_small (e := m % 64 + 0x80) (by omega)
    -- after `ED` the second byte stays below `A0`, since the code point is no surrogate
    rw [List.cons_append, List.cons_append, List.nil_append,
      head_three _ (by omega) (within_secondRange.2 (by omega)) (continues_iff.2 (by omega))]
    congr 2
    omega
  · rw [encode_four (by omega) (by omega)] at whole ⊢
    obtain ⟨lead, rfl⟩ : UInt8.ofNat (m / 262144 % 8 + 0xF0) = b ∧
        [UInt8.ofNat (m / 4096 % 64 + 0x80), UInt8.ofNat (m / 64 % 64 + 0x80),
          UInt8.ofNat (m % 64 + 0x80)] ++ after = rest := by
      simpa using whole
    have x0 := toNat_of_ofNat_eq lead (by omega)
    have x1 := toNat_ofNat_small (e := m / 4096 % 64 + 0x80) (by omega)
    have x2 := toNat_ofNat_small (e := m / 64 % 64 + 0x80) (by omega)
    have x3 := toNat_ofNat_small (e := m % 64 + 0x80) (by omega)
    -- after `F4` the second byte stays below `90`, since the code point is at most U+10FFFF
    rw [List.cons_append, List.cons_append, List.cons_append, List.nil_append,
      head_four _ (by omega) (within_secondRange.2 (by omega)) (continues_iff.2 (by omega))
        (continues_iff.2 (by omega))]
    congr 2
    omega

/-- **Decoding reads only encoded characters.** Unless `head` reads U+FFFD over the first byte
alone, the bytes it takes are the encoding of the character it reads. -/
theorem head_encoded (b : UInt8) (rest : List UInt8) :
    String.utf8EncodeChar (head b rest).1 = b :: rest.take (head b rest).2 ∨
      head b rest = ('\uFFFD', 0) := by
  have x0 := b.toNat_lt
  unfold head
  dsimp only
  -- every branch of `head` that reads a character builds it from bytes whose encoding it is
  split
  · left
    rw [encode_one (by omega), UInt8.ofNat_toNat, List.take_zero]
  split
  case h_2 => exact .inr rfl
  rename_i b1 more
  split
  · exact .inr rfl
  rename_i second
  simp only [Bool.not_eq_true', Bool.not_eq_false] at second
  have x1 := within_secondRange.1 second
  split
  · left
    rw [List.take_succ_cons, List.take_zero, encode_two (by omega) (by omega)]
    simp only [List.cons.injEq, and_true]
    exact ⟨ofNat_eq (by omega), ofNat_eq (by omega)⟩
  split
  case h_2 => exact .inr rfl
  rename_i b2 more2
  split
  · exact .inr rfl
  rename_i third
  simp only [Bool.not_eq_true', Bool.not_eq_false] at third
  have x2 := continues_iff.1 third
  split
  · left
    rw [List.take_succ_cons, List.take_succ_cons, List.take_zero,
      encode_three (by omega) (by omega) (by omega)]
    simp only [List.cons.injEq, and_true]
    exact ⟨ofNat_eq (by omega), ofNat_eq (by omega), ofNat_eq (by omega)⟩
  split
  case h_2 => exact .inr rfl
  split
  · rename_i fourth
    have x3 := continues_iff.1 fourth.1
    left
    rw [List.take_succ_cons, List.take_succ_cons, List.take_succ_cons, List.take_zero,
      encode_four (by omega) (by omega)]
    simp only [List.cons.injEq, and_true]
    exact ⟨ofNat_eq (by omega), ofNat_eq (by omega), ofNat_eq (by omega), ofNat_eq (by omega)⟩
  · exact .inr rfl

/-- Where no character's encoding begins the bytes, `head` reads U+FFFD over the first byte. -/
theorem head_of_unencoded {b : UInt8} {rest : List UInt8}
    (unencoded : ∀ d : Char, ¬ String.utf8EncodeChar d <+: b :: rest) :
    head b rest = ('\uFFFD', 0) := by
  rcases head_encoded b rest with encoded | fallback
  · refine absurd ?_ (unencoded (head b rest).1)
    rw [encoded]
    exact List.cons_prefix_cons.2 ⟨rfl, List.take_prefix _ rest⟩
  · exact fallback

/-- **`head` is UTF-8 decoding.** `head` reads `c` and takes `n` more bytes exactly when the
first character of the bytes, as UTF-8 decoding reads it, is `c` over `n + 1` bytes. -/
theorem head_eq_iff {b : UInt8} {rest : List UInt8} {c : Char} {n : Nat} :
    head b rest = (c, n) ↔ FirstChar (b :: rest) c (n + 1) := by
  constructor
  · intro read
    by_cases found : ∃ d, String.utf8EncodeChar d <+: b :: rest
    · obtain ⟨d, begins⟩ := found
      rw [head_of_encoding begins, Prod.mk.injEq] at read
      obtain ⟨rfl, rfl⟩ := read
      exact .inl ⟨begins, by have := d.utf8Size_pos; omega⟩
    · have unencoded : ∀ d : Char, ¬ String.utf8EncodeChar d <+: b :: rest :=
        fun d begins => found ⟨d, begins⟩
      rw [head_of_unencoded unencoded, Prod.mk.injEq] at read
      obtain ⟨rfl, rfl⟩ := read
      exact .inr ⟨unencoded, rfl, rfl⟩
  · rintro (⟨begins, size⟩ | ⟨unencoded, rfl, size⟩)
    · rw [head_of_encoding begins, ← size, Nat.add_sub_cancel]
    · rw [head_of_unencoded unencoded, show n = 0 by omega]

-- the euro sign, its encoding cut short, and the encoding of a surrogate
example : head 0xE2 [0x82, 0xAC] = ('\u20AC', 2) := by decide
example : head 0xE2 [0x82] = ('\uFFFD', 0) := by decide
example : head 0xED [0xA0, 0x80] = ('\uFFFD', 0) := by decide

end Lox.Utf8
