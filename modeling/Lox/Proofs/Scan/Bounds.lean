import Mathlib
import Lox.Proofs.Scan.Lines
import Lox.Proofs.Scan.Munch
import Lox.Proofs.Text.Decoding
/-!
# The scan stays within its source

The scanner reads its source in steps, each at the head of what is left (`Scan.pieces`): it takes
the first byte, and the piece that byte begins decides how many more it takes. Every step stays
within the source and moves forward (`Scan.Bounded`, `Scan.first_bounded`): it takes at least the
first byte and never more bytes than are left; an unexpected character takes exactly the bytes of
the character UTF-8 decoding reads there, its encoding, or the first byte alone where no encoding
begins there; and a string takes its literal from between its quotes only once it has taken the
closing quote. So the whole scan is a run of such steps, each starting where the last one
stopped and the last one stopping at the end of the source, with at most one step per byte
(`scan_stays_in_bounds`).
-/

namespace Lox

namespace Scan

/-- What one step of the scan does with the bytes `b :: rest` ahead of it, reading `piece` and
taking `b` and `n` more bytes. -/
structure Bounded (b : UInt8) (rest : List UInt8) (piece : Piece) (n : Nat) : Prop where
  /-- The step takes no byte past the end of the source. -/
  within : n ≤ rest.length
  /-- An unexpected character takes the bytes of the character that UTF-8 decoding reads at the
  head of what is left. -/
  character : ∀ c, piece = .problem (.unexpectedCharacter c) →
    Utf8.FirstChar (b :: rest) c (n + 1)
  /-- A string begins at a quote and is cut just after the next quote, which it takes; its
  literal is the text between the two. -/
  closed : ∀ literal, piece = .token .string literal →
    b = 0x22 ∧ ∃ body after, 0x22 ∉ body ∧ rest = body ++ 0x22 :: after ∧
      n = body.length + 1 ∧ literal = some (.str (Utf8.decode body))

/-! ## How far one step goes -/

theorem numeral_le (whole after : List UInt8) :
    (numeral whole after).2 ≤ whole.length + after.length := by
  unfold numeral
  split
  · rename_i d more
    -- the point and the fraction digits come out of `after`
    have fraction := (List.takeWhile_prefix isDigit (l := more)).length_le
    split
    · simp
      omega
    · simp
  · simp

theorem first_le (b : UInt8) (rest : List UInt8) : (first b rest).2 ≤ rest.length := by
  -- one case per branch of `first`: what each takes after `b` is a run of what follows
  unfold first
  split
  · simp
  split
  · split
    · rename_i equal
      cases rest with
      | nil => cases equal
      | cons => simp
    · simp
  split
  · split
    · exact (List.takeWhile_prefix _).length_le
    · simp
  split
  · simp
  split
  · dsimp only
    split
    · omega
    · exact le_rfl
  split
  · have numeral := numeral_le (b :: rest.takeWhile isDigit) (rest.dropWhile isDigit)
    have digits :=
      congrArg List.length (List.takeWhile_append_dropWhile (p := isDigit) (l := rest))
    rw [List.length_append] at digits
    dsimp only
    simp only [List.length_cons] at numeral
    omega
  split
  · simp only [word, List.length_cons, Nat.add_sub_cancel]
    exact (List.takeWhile_prefix _).length_le
  · exact Scan.head_snd_le b rest

/-! ## What one step reads -/

/-- Where maximal munch reads an unexpected character, `head` reads it over the bytes the segment
takes after the first. -/
theorem head_of_unexpected_munch {c : Char} {b : UInt8} {tail after : List UInt8}
    (munch : Munch (.problem (.unexpectedCharacter c)) (b :: tail) after) :
    Utf8.head b (tail ++ after) = (c, tail.length) := by
  generalize read : Piece.problem (.unexpectedCharacter c) = piece at munch
  generalize bytes : b :: tail = seg at munch
  cases munch with
  | unexpected _ decoded =>
    cases read
    cases bytes
    exact decoded
  | numeral =>
    dsimp only [numeralPiece] at read
    split at read <;> cases read
  | name =>
    unfold namePiece at read
    split at read <;> cases read
  | _ => cases read

/-- Where maximal munch reads a string, its segment is the body between two quotes, and its
literal is the text of the body. -/
theorem string_of_munch {literal : Option Literal} {b : UInt8} {tail after : List UInt8}
    (munch : Munch (.token .string literal) (b :: tail) after) :
    b = 0x22 ∧ ∃ body, 0x22 ∉ body ∧ tail = body ++ [0x22] ∧
      literal = some (.str (Utf8.decode body)) := by
  generalize read : Piece.token .string literal = piece at munch
  generalize bytes : b :: tail = seg at munch
  -- an operator is spelled by its bytes, and the string kind has no spelling
  have unspelled : ∀ seg, ¬ Spells .string seg := by simp [Spells, TokenKind.spelling]
  cases munch with
  | string noQuote =>
    cases read
    cases bytes
    exact ⟨rfl, _, noQuote, rfl, rfl⟩
  | punctuation _ spelled =>
    cases read
    exact absurd spelled (unspelled _)
  | comparisonEqual _ spelled =>
    cases read
    exact absurd spelled (unspelled _)
  | comparison _ _ spelled =>
    cases read
    exact absurd spelled (unspelled _)
  | numeral =>
    dsimp only [numeralPiece] at read
    split at read <;> cases read
  | name =>
    unfold namePiece at read
    split at read
    · rename_i k found
      cases read
      exact absurd rfl (keyword?_constant found).2
    · cases read
  | _ => cases read

/-- **One step is bounded.** The step the scanner takes at the head of `b :: rest` stays within
it; an unexpected character takes the bytes of the character decoding reads there, and a string
takes its closing quote before its literal is cut. -/
theorem first_bounded (b : UInt8) (rest : List UInt8) :
    Bounded b rest (first b rest).1 (first b rest).2 where
  within := first_le b rest
  character c unexpected := by
    have munch := first_munch b rest
    rw [unexpected] at munch
    have read := head_of_unexpected_munch munch
    rw [List.take_append_drop, List.length_take, Nat.min_eq_left (first_le b rest)] at read
    exact Utf8.head_eq_iff.1 read
  closed literal string := by
    have munch := first_munch b rest
    rw [string] at munch
    obtain ⟨quote, body, noQuote, taken, rfl⟩ := string_of_munch munch
    have count := congrArg List.length taken
    rw [List.length_take, Nat.min_eq_left (first_le b rest), List.length_append,
      List.length_singleton] at count
    have whole := List.take_append_drop (first b rest).2 rest
    rw [taken, List.append_assoc, List.singleton_append] at whole
    exact ⟨quote, body, rest.drop (first b rest).2, noQuote, whole.symm, count, rfl⟩

/-! ## The run -/

/-- **A run of bounded steps.** The pieces read from `bytes`, each by a bounded step at the head of
what is left, each next step starting just after the bytes the last one took, until nothing is
left. -/
inductive Run : List UInt8 → List (Piece × List UInt8 × Cursor) → Prop
  | nil : Run [] []
  | cons {b : UInt8} {rest : List UInt8} {piece : Piece} {n : Nat} {origin : Cursor}
      {entries : List (Piece × List UInt8 × Cursor)} :
      Bounded b rest piece n → Run (rest.drop n) entries →
      Run (b :: rest) ((piece, b :: rest.take n, origin) :: entries)

/-- A run takes at least one byte a step, so it has no more steps than bytes. -/
theorem Run.length_le {bytes : List UInt8} {entries : List (Piece × List UInt8 × Cursor)}
    (run : Run bytes entries) : entries.length ≤ bytes.length := by
  induction run with
  | nil => exact le_rfl
  | cons _ _ ih =>
    simp only [List.length_cons, List.length_drop] at ih ⊢
    omega

theorem run_pieces : (bytes : List UInt8) → (origin : Cursor) →
    Run bytes (pieces bytes origin) := by
  intro bytes origin
  fun_induction pieces bytes origin with
  | case1 origin => exact .nil
  | case2 origin b rest piece n read taken ih =>
    have bounded := first_bounded b rest
    rw [read] at bounded
    exact .cons bounded ih

end Scan

/-- **The scan stays within its source.** For every source and every place it starts from, the
scanner's loop is a run of bounded steps: each takes the first byte left and no byte past the end
of the source, the next starts just after it, and the last stops at the end of the source, after
at most one step per byte. An unexpected character takes exactly the bytes of the character UTF-8
decoding reads there: its encoding, or the first byte alone where no encoding begins there. A
string is cut only once it has taken its closing quote, and its literal is the text between the
quotes. -/
theorem scan_stays_in_bounds (source : List UInt8) (origin : Cursor) :
    Scan.Run source (Scan.pieces source origin) ∧
      (Scan.pieces source origin).length ≤ source.length :=
  ⟨Scan.run_pieces source origin, (Scan.run_pieces source origin).length_le⟩

end Lox
