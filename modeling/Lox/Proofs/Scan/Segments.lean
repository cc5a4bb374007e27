import Mathlib.Data.List.Basic
import Mathlib.Data.List.Induction
import Mathlib.Data.List.TakeWhile
import Lox.Token.Scan
/-!
# How scanning cuts the source

The scanner cuts its source from left to right into segments, with no gaps and no overlaps
(`Cuts`): the bytes of a token, which is never the end token; the bytes of an error; one
whitespace byte; or a comment from `//` up to the next newline, which it leaves. Every token and
every error stands at the place of its first byte (`placeAfter`): its line counts the newlines
before it from the first line, and its column counts from one the bytes since the last newline
that begin a character. The tokens are those of the token segments in order, followed by one end
token with an empty lexeme at the place after the last byte; the errors are those of the error
segments in order.

The place is computed by the scanner step by step, by `Cursor.over`; here it is a closed formula
of the bytes before, and `Cursor.over_start` proves the two agree, by induction from the right.
-/

namespace Lox

/-! ## The place of a byte -/

/-- The place of the byte after `before`, in a scan whose first line is numbered `start`: the
line counts the newlines in `before`, and the characters read on it are the bytes after the last
newline that begin a character. -/
def placeAfter (start : Int64) (before : List UInt8) : Cursor :=
  ⟨start + Int64.ofNat (before.count 0x0A),
    (before.reverse.takeWhile (· != 0x0A)).countP Utf8.begins⟩

namespace Cursor

/-- The cursor after one byte. -/
def step (c : Cursor) (b : UInt8) : Cursor :=
  if b = 0x0A then ⟨c.line + 1, 0⟩ else if Utf8.begins b then ⟨c.line, c.read + 1⟩ else c

theorem over_cons (c : Cursor) (b : UInt8) (bs : List UInt8) :
    c.over (b :: bs) = (c.step b).over bs := rfl

theorem over_append (c : Cursor) (xs ys : List UInt8) :
    c.over (xs ++ ys) = (c.over xs).over ys := by
  induction xs generalizing c with
  | nil => rfl
  | cons x xs ih => rw [List.cons_append, over_cons, over_cons, ih]

theorem over_concat (c : Cursor) (bs : List UInt8) (b : UInt8) :
    c.over (bs ++ [b]) = (c.over bs).step b := by
  rw [over_append]
  rfl

/-- **The scanner's place is the closed formula.** Read from the start of a line, bytes leave the
cursor at the place `placeAfter` gives. -/
theorem over_start (start : Int64) (before : List UInt8) :
    (⟨start, 0⟩ : Cursor).over before = placeAfter start before := by
  -- from the right: the last byte either starts a new line or adds its own count to the line
  induction before using List.reverseRecOn with
  | nil => simp [placeAfter, Cursor.over]
  | append_singleton bs b ih =>
    rw [over_concat, ih]
    by_cases newline : b = 0x0A
    · simp [step, placeAfter, newline, List.count_append, Int64.ofNat_add, Int64.add_assoc]
    · by_cases starts : Utf8.begins b
      · simp [step, placeAfter, newline, starts, List.count_append, Nat.add_comm]
      · simp [step, placeAfter, newline, starts, List.count_append]

theorem placeAfter_over (start : Int64) (before more : List UInt8) :
    (placeAfter start before).over more = placeAfter start (before ++ more) := by
  rw [← over_start, ← over_start, over_append]

end Cursor

/-! ## The sorts of segment -/

/-- The bytes a blank of one byte may be: space, carriage return, tab and newline. -/
def Scan.Whitespace (b : UInt8) : Prop :=
  b = 0x20 ∨ b = 0x0D ∨ b = 0x09 ∨ b = 0x0A

/-- A piece over `bytes`, followed by the bytes `after`, is one of the four sorts of segment: a
token of a kind other than the end, or an error, over some bytes; one whitespace byte; or a
comment from `//` up to the next newline or the end of the source. -/
def Piece.Fits : Piece → List UInt8 → List UInt8 → Prop
  | .token kind _, bytes, _ => kind ≠ .eof ∧ bytes ≠ []
  | .problem _, bytes, _ => bytes ≠ []
  | .blank, bytes, after =>
    (∃ b, Scan.Whitespace b ∧ bytes = [b]) ∨
      ∃ text, 0x0A ∉ text ∧ bytes = 0x2F :: 0x2F :: text ∧
        (after = [] ∨ ∃ more, after = 0x0A :: more)

/-- **Segments.** The source is the bytes of the segments one after another, each of one of the
four sorts. -/
inductive Cuts : List UInt8 → List (Piece × List UInt8) → Prop
  | nil : Cuts [] []
  | cons {piece : Piece} {bytes rest : List UInt8} {segs : List (Piece × List UInt8)} :
      piece.Fits bytes rest → Cuts rest segs → Cuts (bytes ++ rest) ((piece, bytes) :: segs)

/-- Each segment with the place of its first byte, for segments that follow the bytes
`before`. -/
def placed (start : Int64) :
    List UInt8 → List (Piece × List UInt8) → List (Piece × List UInt8 × Cursor)
  | _, [] => []
  | before, (piece, bytes) :: segs =>
    (piece, bytes, placeAfter start before) :: placed start (before ++ bytes) segs

namespace Scan

/-! ## The first piece -/

theorem single?_ne_eof {b : UInt8} {k : TokenKind} (found : single? b = some k) : k ≠ .eof := by
  unfold single? at found
  split at found <;> cases found <;> decide

theorem pair?_ne_eof {b : UInt8} {alone withEqual : TokenKind}
    (found : pair? b = some (alone, withEqual)) : alone ≠ .eof ∧ withEqual ≠ .eof := by
  unfold pair? at found
  split at found <;> cases found <;> decide

/-- A reserved word's kind is one of the kinds of the table of reserved words. -/
theorem keyword?_mem {text : String} {k : TokenKind} (found : TokenKind.keyword? text = some k) :
    ∃ word, (word, k) ∈ TokenKind.keywords := by
  obtain ⟨entry, hit, rfl⟩ := Option.map_eq_some_iff.1 found
  exact ⟨entry.1, List.mem_of_find?_eq_some hit⟩

theorem keyword?_ne_eof {text : String} {k : TokenKind} (found : TokenKind.keyword? text = some k) :
    k ≠ .eof := by
  obtain ⟨word, member⟩ := keyword?_mem found
  have kinds : ∀ entry ∈ TokenKind.keywords, entry.2 ≠ .eof := by decide
  exact kinds _ member

/-- A piece that makes a token other than the end, or an error. -/
def Emits : Piece → Prop
  | .token kind _ => kind ≠ .eof
  | .problem _ => True
  | .blank => False

theorem numeral_emits (whole rest : List UInt8) : Emits (numeral whole rest).1 := by
  -- a numeral is a number token, or a problem if it is too large
  have either : ∀ (large : Bool) (p : Problem) (l : Option Literal),
      Emits (if large then Piece.problem p else Piece.token .number l) := by
    intro large p l
    cases large <;> simp [Emits]
  exact either _ _ _

theorem word_emits (name : List UInt8) : Emits (word name).1 := by
  unfold word
  dsimp only
  split
  · next k found => exact keyword?_ne_eof found
  · simp [Emits]

/-- What the first piece can be: a blank only over a whitespace byte, or over a comment up to
the next newline; otherwise a token other than the end, or an error. -/
theorem first_cases (b : UInt8) (rest : List UInt8) :
    (first b rest).1 = .blank ∧ Whitespace b ∧ (first b rest).2 = 0 ∨
      (first b rest).1 = .blank ∧ b = 0x2F ∧ rest.head? = some 0x2F ∧
        (first b rest).2 = (rest.takeWhile (· != 0x0A)).length ∨
      Emits (first b rest).1 := by
  unfold first
  split
  · next k found => exact .inr (.inr (single?_ne_eof found))
  · split
    · next alone withEqual found =>
      have kinds := pair?_ne_eof found
      split
      · exact .inr (.inr kinds.2)
      · exact .inr (.inr kinds.1)
    · split
      · next slash =>
        split
        · next comment => exact .inr (.inl ⟨rfl, slash, comment, rfl⟩)
        · exact .inr (.inr (by simp [Emits]))
      · split
        · next blank => exact .inl ⟨rfl, blank, rfl⟩
        · split
          · dsimp only
            split <;> exact .inr (.inr (by simp [Emits]))
          · split
            · dsimp only
              exact .inr (.inr (numeral_emits _ _))
            · split
              · dsimp only
                exact .inr (.inr (word_emits _))
              · exact .inr (.inr (by simp [Emits]))

theorem take_length_takeWhile (p : UInt8 → Bool) :
    ∀ l : List UInt8, l.take (l.takeWhile p).length = l.takeWhile p
  | [] => rfl
  | x :: xs => by
    by_cases keep : p x
    · simp [keep, take_length_takeWhile p xs]
    · simp [keep]

theorem drop_length_takeWhile (p : UInt8 → Bool) :
    ∀ l : List UInt8, l.drop (l.takeWhile p).length = l.dropWhile p
  | [] => rfl
  | x :: xs => by
    by_cases keep : p x
    · simp [keep, drop_length_takeWhile p xs]
    · simp [keep]

/-- The bytes a comment takes: the `//` and everything before the next newline, which stays. -/
theorem comment_fits {rest : List UInt8} (opens : rest.head? = some 0x2F) :
    Piece.Fits .blank (0x2F :: rest.take (rest.takeWhile (· != 0x0A)).length)
      (rest.drop (rest.takeWhile (· != 0x0A)).length) := by
  obtain ⟨tail, rfl⟩ : ∃ tail, rest = 0x2F :: tail := by
    cases rest with
    | nil => cases opens
    | cons x tail => cases opens; exact ⟨tail, rfl⟩
  have taken : (0x2F :: tail).take ((0x2F :: tail).takeWhile (· != 0x0A)).length =
      0x2F :: tail.takeWhile (· != 0x0A) := by
    simp [take_length_takeWhile]
  have left : (0x2F :: tail).drop ((0x2F :: tail).takeWhile (· != 0x0A)).length =
      tail.dropWhile (· != 0x0A) := by
    simp [drop_length_takeWhile]
  refine .inr ⟨tail.takeWhile (· != 0x0A), ?_, by rw [taken], ?_⟩
  · intro member
    simpa using List.mem_takeWhile_imp member
  · rw [left]
    -- what is left begins at the newline, if there is one
    cases stop : tail.dropWhile (· != 0x0A) with
    | nil => exact .inl rfl
    | cons x more =>
      have head := @List.head_dropWhile_not _ (· != 0x0A) tail (by simp [stop])
      simp only [stop, List.head_cons, bne_eq_false_iff_eq] at head
      exact .inr ⟨more, by rw [head]⟩

/-- The first piece fits the bytes it takes and those it leaves. -/
theorem first_fits (b : UInt8) (rest : List UInt8) :
    (first b rest).1.Fits (b :: rest.take (first b rest).2) (rest.drop (first b rest).2) := by
  rcases first_cases b rest with
    ⟨blank, space, none⟩ | ⟨blank, slash, opens, length⟩ | emits
  · rw [blank, none]
    exact .inl ⟨b, space, rfl⟩
  · rw [blank, length, slash]
    exact comment_fits opens
  · cases piece : (first b rest).1 with
    | token kind literal =>
      rw [piece] at emits
      exact ⟨emits, List.cons_ne_nil _ _⟩
    | problem p => exact List.cons_ne_nil _ _
    | blank =>
      rw [piece] at emits
      exact emits.elim

/-! ## The scan -/

theorem pieces_cons (b : UInt8) (rest : List UInt8) (origin : Cursor) :
    pieces (b :: rest) origin = ((first b rest).1, b :: rest.take (first b rest).2, origin) ::
      pieces (rest.drop (first b rest).2) (origin.over (b :: rest.take (first b rest).2)) := by
  rw [pieces]

/-- The pieces of the bytes after `before` are segments of them, each at its place. -/
theorem pieces_eq_placed (start : Int64) : (bytes before : List UInt8) →
    ∃ segs, Cuts bytes segs ∧
      pieces bytes (placeAfter start before) = placed start before segs := by
  intro bytes before
  -- the induction follows the scanner's loop, from any cursor that some bytes before lead to
  generalize placedAt : placeAfter start before = origin
  fun_induction pieces bytes origin generalizing before with
  | case1 origin => exact ⟨[], .nil, by rw [placed]⟩
  | case2 origin b rest piece n read taken ih =>
    have after : placeAfter start (before ++ taken) = origin.over taken := by
      rw [← placedAt, Cursor.placeAfter_over]
    obtain ⟨segs, cuts, later⟩ := ih (before ++ taken) after
    refine ⟨(piece, taken) :: segs, ?_, by rw [later, placed, placedAt]⟩
    have fits := first_fits b rest
    rw [read] at fits
    have whole : b :: rest = taken ++ rest.drop n :=
      congrArg (b :: ·) (List.take_append_drop n rest).symm
    rw [whole]
    exact .cons fits cuts

end Scan

theorem placeAfter_nil (start : Int64) : placeAfter start [] = ⟨start, 0⟩ := by
  simp [placeAfter]

/-- **Scanning cuts the source into segments.** For every source and first line: the source is
cut into token, error, whitespace and comment segments; the tokens are those of the token
segments, each with the bytes of its segment as lexeme and at the place of its first byte,
followed by one end token with an empty lexeme at the place after the source; the errors are
those of the error segments, raised at an `ILLEGAL` token over the bytes of the segment, at the
place of its first byte. The first line is the one given, or one if that is less than one. -/
theorem scan_cuts (source : List UInt8) (line : Int64) :
    ∃ segs, Cuts source segs ∧
      scan source line =
        (((placed (startLine line) [] segs).filterMap Piece.emit).filterMap Sum.getLeft? ++
            [⟨.eof, "", none, (placeAfter (startLine line) source).line,
              (placeAfter (startLine line) source).column⟩],
          ((placed (startLine line) [] segs).filterMap Piece.emit).filterMap Sum.getRight?) := by
  obtain ⟨segs, cuts, pieced⟩ := Scan.pieces_eq_placed (startLine line) source []
  rw [placeAfter_nil] at pieced
  refine ⟨segs, cuts, ?_⟩
  simp only [scan, pieced, Cursor.over_start]
  -- the scanner's own selectors of tokens and errors are the two projections of a sum
  refine Prod.ext ?_ ?_
  · exact congrArg (· ++ _) (List.filterMap_congr fun made _ => by cases made <;> rfl)
  · exact List.filterMap_congr fun made _ => by cases made <;> rfl

end Lox
