/-!
# Reading UTF-8 bytes

Source text arrives as bytes. A well-formed UTF-8 sequence (shortest form, no surrogate, at most
U+10FFFF) stands for its character; any other byte stands alone for U+FFFD, the replacement
character, so every byte is read exactly once and reading never fails.

A byte *begins* a character unless it is a continuation byte (`0x80` to `0xBF`); counting the
bytes that begin characters is how columns are counted.
-/

namespace Lox.Utf8

/-- Whether a byte begins a character, that is, is not a continuation byte. -/
def begins (b : UInt8) : Bool :=
  b &&& 0xC0 != 0x80

/-- Whether a byte lies in an inclusive range. -/
def within (lo hi : Nat) (b : UInt8) : Bool :=
  decide (lo ≤ b.toNat ∧ b.toNat ≤ hi)

/-- Whether a byte continues a character. -/
def continues (b : UInt8) : Bool :=
  within 0x80 0xBF b

/-- The range the second byte of a sequence must lie in, given its first byte; the narrower ranges
exclude the over-long forms, the surrogates and the code points above U+10FFFF. -/
def secondRange (b : UInt8) : Nat × Nat :=
  match b.toNat with
  | 0xE0 => (0xA0, 0xBF)
  | 0xED => (0x80, 0x9F)
  | 0xF0 => (0x90, 0xBF)
  | 0xF4 => (0x80, 0x8F)
  | _ => (0x80, 0xBF)

/-- The character at the head of `b :: rest`, with the number of bytes of `rest` it also takes:
a well-formed sequence gives its character, anything else gives U+FFFD for `b` alone. -/
def head (b : UInt8) (rest : List UInt8) : Char × Nat :=
  let n := b.toNat
  let second := secondRange b
  let bits (x : UInt8) : Nat := x.toNat % 64
  if n < 0x80 then (Char.ofNat n, 0)
  else match rest with
    | b1 :: more =>
      if !within second.1 second.2 b1 then ('\uFFFD', 0)
      else if 0xC2 ≤ n ∧ n ≤ 0xDF then (Char.ofNat ((n % 32) * 64 + bits b1), 1)
      else match more with
        | b2 :: more2 =>
          if !continues b2 then ('\uFFFD', 0)
          else if 0xE0 ≤ n ∧ n ≤ 0xEF then
            (Char.ofNat ((n % 16) * 4096 + bits b1 * 64 + bits b2), 2)
          else match more2 with
            | b3 :: _ =>
              if continues b3 ∧ 0xF0 ≤ n ∧ n ≤ 0xF4 then
                (Char.ofNat ((n % 8) * 262144 + bits b1 * 4096 + bits b2 * 64 + bits b3), 3)
              else ('\uFFFD', 0)
            | [] => ('\uFFFD', 0)
        | [] => ('\uFFFD', 0)
    | [] => ('\uFFFD', 0)

/-- The characters of a byte string, each ill-formed byte read as U+FFFD. -/
def chars : List UInt8 → List Char
  | [] => []
  | b :: rest => (head b rest).1 :: chars (rest.drop (head b rest).2)
termination_by bytes => bytes.length
decreasing_by simp only [List.length_drop, List.length_cons]; omega

/-- The text of a byte string, each ill-formed byte read as U+FFFD. -/
def decode (bytes : List UInt8) : String :=
  String.ofList (chars bytes)

/-- The bytes of a text. -/
def encode (s : String) : List UInt8 :=
  s.toUTF8.toList

end Lox.Utf8
