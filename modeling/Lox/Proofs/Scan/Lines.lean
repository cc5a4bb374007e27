import Mathlib
import Lox.Proofs.Parse.WellFormed
import Lox.Proofs.Scan.Segments
/-!
# What the scanned tokens carry

Every token a scan makes comes from the piece the scanner reads at the head of what is left
(`Scan.first`), placed where some prefix of the source leaves the cursor (`Scan.mem_pieces`).
Two facts about the tokens follow, which the parser passes on to the trees it builds:

* every number and every string token carries its constant (`scan_carries`), since the only
  pieces of those kinds are the ones the scanner builds with their value;
* every token stands on the first line or after it (`scan_lines`), as long as the first line moved
  on by all the newlines of the source is still a 64-bit line: the line of a token is the first
  line moved on by the newlines before it, and a move that stays in range only goes forward. A
  move past the largest line wraps around to negative lines.
-/

namespace Lox

namespace Scan

/-! ## Constants of the first piece -/

theorem single?_constant {b : UInt8} {k : TokenKind} (found : single? b = some k) :
    k ≠ .number ∧ k ≠ .string := by
  unfold single? at found
  split at found <;> cases found <;> decide

theorem pair?_constant {b : UInt8} {alone withEqual : TokenKind}
    (found : pair? b = some (alone, withEqual)) :
    (alone ≠ .number ∧ alone ≠ .string) ∧ withEqual ≠ .number ∧ withEqual ≠ .string := by
  unfold pair? at found
  split at found <;> cases found <;> decide

theorem keyword?_constant {text : String} {k : TokenKind}
    (found : TokenKind.keyword? text = some k) : k ≠ .number ∧ k ≠ .string := by
  obtain ⟨word, member⟩ := keyword?_mem found
  have kinds : ∀ entry ∈ TokenKind.keywords, entry.2 ≠ .number ∧ entry.2 ≠ .string := by
    decide
  exact kinds _ member

/-- A token piece that carries its constant when it is a number or a string. -/
def Carries : Piece → Prop
  | .token kind literal => kind = .number ∨ kind = .string → literal.isSome = true
  | .problem _ | .blank => True

theorem carries_of_plain {kind : TokenKind} (plain : kind ≠ .number ∧ kind ≠ .string) :
    Carries (.token kind none) := by
  rintro (rfl | rfl)
  · exact absurd rfl plain.1
  · exact absurd rfl plain.2

theorem numeral_carries (whole rest : List UInt8) : Carries (numeral whole rest).1 := by
  -- a numeral is a number token with its value, or a problem if it is too large
  have either : ∀ (large : Bool) (p : Problem) (x : Float),
      Carries (if large then Piece.problem p else Piece.token .number (some (.number x))) := by
    intro large p x
    cases large <;> simp [Carries]
  exact either _ _ _

theorem word_carries (name : List UInt8) : Carries (word name).1 := by
  unfold word
  dsimp only
  split
  · next k found => exact carries_of_plain (keyword?_constant found)
  · simp [Carries]

/-- **The first piece carries its constant.** The scanner builds number and string tokens only
with their values; every other token it makes has a kind without one. -/
theorem first_carries (b : UInt8) (rest : List UInt8) : Carries (first b rest).1 := by
  unfold first
  split
  · next k found => exact carries_of_plain (single?_constant found)
  · split
    · next alone withEqual found =>
      have plain := pair?_constant found
      split
      · exact carries_of_plain plain.2
      · exact carries_of_plain plain.1
    · split
      · split
        · exact trivial
        · exact carries_of_plain (by decide)
      · split
        · exact trivial
        · split
          · dsimp only
            split <;> simp [Carries]
          · split
            · dsimp only
              exact numeral_carries _ _
            · split
              · dsimp only
                exact word_carries _
              · exact trivial

/-! ## Where the pieces stand -/

/-- **Every piece is a first piece at a prefix.** Each piece of the input is the piece the
scanner reads at the head of some bytes, and stands where some prefix of the input leaves the
cursor. -/
theorem mem_pieces {entry : Piece × List UInt8 × Cursor} :
    (bytes : List UInt8) → (origin : Cursor) → entry ∈ pieces bytes origin →
      (∃ b rest, entry.1 = (first b rest).1) ∧
        ∃ pre, pre <+: bytes ∧ entry.2.2 = origin.over pre := by
  intro bytes origin member
  fun_induction pieces bytes origin with
  | case1 origin => cases member
  | case2 origin b rest piece n read taken ih =>
    rcases List.mem_cons.1 member with rfl | later
    · exact ⟨⟨b, rest, by rw [read]⟩, [], List.nil_prefix, rfl⟩
    · obtain ⟨made, pre, before, placedAt⟩ := ih later
      refine ⟨made, taken ++ pre, ?_, by rw [placedAt, Cursor.over_append]⟩
      have whole : b :: rest = taken ++ rest.drop n :=
        congrArg (b :: ·) (List.take_append_drop n rest).symm
      rw [whole]
      exact (List.prefix_append_right_inj _).2 before

end Scan

theorem Piece.emit_token {entry : Piece × List UInt8 × Cursor} {t : Token}
    (made : Piece.emit entry = some (.inl t)) :
    entry.1 = .token t.kind t.literal ∧ t.line = entry.2.2.line := by
  obtain ⟨piece, bytes, origin⟩ := entry
  cases piece with
  | token kind literal =>
    simp only [Piece.emit, Option.some.injEq, Sum.inl.injEq] at made
    subst made
    exact ⟨rfl, rfl⟩
  | problem p => simp [Piece.emit] at made
  | blank => simp [Piece.emit] at made

/-- A token of a scan is the end token or a token some piece of the source makes. -/
theorem mem_scan {source : List UInt8} {line : Int64} {t : Token}
    (member : t ∈ (scan source line).1) :
    t = ⟨.eof, "", none, (placeAfter (startLine line) source).line,
        (placeAfter (startLine line) source).column⟩ ∨
      ∃ entry ∈ Scan.pieces source ⟨startLine line, 0⟩, Piece.emit entry = some (.inl t) := by
  simp only [scan, Cursor.over_start, List.mem_append, List.mem_singleton] at member
  rcases member with made | theEnd
  · obtain ⟨made, emittedFrom, picked⟩ := List.mem_filterMap.1 made
    obtain ⟨entry, piece, emitted⟩ := List.mem_filterMap.1 emittedFrom
    cases made with
    | inl u =>
      cases picked
      exact .inr ⟨entry, piece, emitted⟩
    | inr f => cases picked
  · exact .inl theEnd

/-! ## Constants and lines of the tokens -/

/-- **Scanned tokens carry their constants.** Every number and string token of a scan has its
literal. -/
theorem scan_carries (source : List UInt8) (line : Int64) :
    ∀ t ∈ (scan source line).1, t.Carries := by
  intro t member
  rcases mem_scan member with rfl | ⟨entry, member, made⟩
  · intro constant
    simp at constant
  · obtain ⟨piece, -⟩ := Piece.emit_token made
    obtain ⟨⟨b, rest, first⟩, -⟩ := Scan.mem_pieces _ _ member
    have carries := Scan.first_carries b rest
    rw [← first, piece] at carries
    exact carries

theorem startLine_pos (line : Int64) : 1 ≤ (startLine line).toInt := by
  unfold startLine
  split
  · decide
  · next high =>
    have := Int64.lt_iff_toInt_lt.not.1 high
    simp only [Int64.toInt_one] at this
    omega

/-- A line moved on by a count of newlines that keeps it below 2⁶³ does not go back. -/
theorem line_le_add {start : Int64} {k : ℕ} (pos : 0 ≤ start.toInt)
    (fits : start.toInt + k < 2 ^ 63) : start ≤ start + Int64.ofNat k := by
  rw [Int64.le_iff_toInt_le, Int64.toInt_add, Int64.toInt_ofNat_of_lt (by omega),
    Int.bmod_eq_of_le (by omega) (by omega)]
  omega

/-- **Scanned tokens stand at or after the first line.** While the first line moved on by every
newline of the source stays below 2⁶³, every token of the scan, the end included, stands on the
first line or later. -/
theorem scan_lines (source : List UInt8) (line : Int64)
    (fits : (startLine line).toInt + source.count 0x0A < 2 ^ 63) :
    ∀ t ∈ (scan source line).1, startLine line ≤ t.line := by
  -- a token stands at the place after a prefix of the source, with no more newlines before it
  have after : ∀ pre, pre <+: source → startLine line ≤ (placeAfter (startLine line) pre).line := by
    intro pre before
    have fewer := before.sublist.count_le 0x0A
    exact line_le_add (by have := startLine_pos line; omega) (by omega)
  intro t member
  rcases mem_scan member with rfl | ⟨entry, member, made⟩
  · exact after source List.prefix_rfl
  · obtain ⟨-, placedAt⟩ := Piece.emit_token made
    obtain ⟨-, pre, before, origin⟩ := Scan.mem_pieces _ _ member
    rw [placedAt, origin, Cursor.over_start]
    exact after pre before

end Lox
