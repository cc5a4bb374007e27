import Mathlib
import Lox.Proofs.Scan.Segments
/-!
# Maximal munch

Each segment the scanner cuts is decided by its first byte and, where the language allows it,
by the bytes after it, taking as much as its class allows (`Scan.Munch`):

* `( ) { } , . - + ; *` are a token of one byte each;
* `!`, `=`, `<` and `>` take a following `=` into a two-byte operator, and are an operator of one
  byte otherwise; `/` followed by `/` begins a comment up to the next newline, and is a slash
  otherwise;
* a whitespace byte is a blank of its own;
* a quote begins a string running to the next quote, newlines included and with no escapes,
  whose literal is the text between the quotes; with no quote after it, it is an unterminated
  string over the rest of the source;
* a digit begins the longest run of digits, followed by a point and the longest run of digits
  after it only when a digit follows the point; the numeral is a number token with the double
  nearest to its value, or an invalid number when that value is too large for a double;
* a letter or an underscore begins the longest run of letters, digits and underscores, which is
  a keyword without a literal or an identifier with its name;
* any other byte is an unexpected character, over the bytes of the character it begins.

The operators are named by their spelling (`TokenKind.spelling`), the table of the texts of
the kinds of token that have a fixed text.
-/

namespace Lox

/-- The text of the kinds of token that have a fixed one: punctuation and operators. -/
def TokenKind.spelling : TokenKind → Option (List Char)
  | .leftParen => some ['('] | .rightParen => some [')']
  | .leftBrace => some ['\x7b'] | .rightBrace => some ['\x7d']
  | .comma => some [','] | .dot => some ['.'] | .minus => some ['-'] | .plus => some ['+']
  | .semicolon => some [';'] | .slash => some ['/'] | .star => some ['*']
  | .bang => some ['!'] | .bangEqual => some ['!', '=']
  | .equal => some ['='] | .equalEqual => some ['=', '=']
  | .greater => some ['>'] | .greaterEqual => some ['>', '=']
  | .less => some ['<'] | .lessEqual => some ['<', '=']
  | _ => none

namespace Scan

/-- The kind `k` is spelled by the bytes `seg`. -/
def Spells (k : TokenKind) (seg : List UInt8) : Prop :=
  k.spelling.map (List.map Char.toUInt8) = some seg

/-- The bytes that are a token of their own. -/
def punctuation : List UInt8 :=
  ['(', ')', '\x7b', '\x7d', ',', '.', '-', '+', ';', '*'].map Char.toUInt8

/-- The bytes that begin an operator that a following `=` extends. -/
def comparisons : List UInt8 :=
  ['!', '=', '<', '>'].map Char.toUInt8

/-- The bytes that begin something other than an unexpected character. -/
def Starter (b : UInt8) : Prop :=
  b ∈ punctuation ∨ b ∈ comparisons ∨ b = 0x2F ∨ Whitespace b ∨ b = 0x22 ∨ isDigit b = true ∨
    isAlpha b = true

/-- The bytes of a numeral: its whole digits, then a point and its fraction digits if it has
any. -/
def numeralBytes (whole fraction : List UInt8) : List UInt8 :=
  whole ++ if fraction = [] then [] else 0x2E :: fraction

/-- The piece of a numeral: a number token with the double nearest to its value, or an invalid
number, named by its text, when that value is too large for a double. -/
def numeralPiece (whole fraction : List UInt8) : Piece :=
  let value := Number.ofDigits (whole.map digitValue) (fraction.map digitValue)
  if value.isInf then .problem (.invalidNumber (Utf8.decode (numeralBytes whole fraction)))
  else .token .number (some (.number value))

/-- The piece of a name: its keyword's kind with no literal, or an identifier with its name. -/
def namePiece (name : List UInt8) : Piece :=
  match TokenKind.keyword? (Utf8.decode name) with
  | some k => .token k none
  | none => .token .identifier (some (.identifier (Utf8.decode name)))

/-- **Maximal munch.** The bytes `seg`, followed in the source by `after`, are one segment that
makes `piece`, as its first byte decides. -/
inductive Munch : Piece → List UInt8 → List UInt8 → Prop where
  /-- `( ) { } , . - + ; *` are a token of one byte each. -/
  | punctuation {b : UInt8} {k : TokenKind} {after : List UInt8} :
      b ∈ punctuation → Spells k [b] → Munch (.token k none) [b] after
  /-- `!`, `=`, `<` or `>` followed by `=` are an operator of two bytes. -/
  | comparisonEqual {b : UInt8} {k : TokenKind} {after : List UInt8} :
      b ∈ comparisons → Spells k [b, 0x3D] → Munch (.token k none) [b, 0x3D] after
  /-- `!`, `=`, `<` or `>` not followed by `=` are an operator of one byte. -/
  | comparison {b : UInt8} {k : TokenKind} {after : List UInt8} :
      b ∈ comparisons → after.head? ≠ some 0x3D → Spells k [b] → Munch (.token k none) [b] after
  /-- `/` not followed by `/` is a slash. -/
  | slash {after : List UInt8} : after.head? ≠ some 0x2F → Munch (.token .slash none) [0x2F] after
  /-- `//` begins a comment up to the next newline, which it leaves, or to the end. -/
  | comment {text after : List UInt8} : 0x0A ∉ text → (after = [] ∨ ∃ more, after = 0x0A :: more) →
      Munch .blank (0x2F :: 0x2F :: text) after
  /-- A whitespace byte is a blank of its own. -/
  | blank {b : UInt8} {after : List UInt8} : Whitespace b → Munch .blank [b] after
  /-- A string runs to the next quote; its literal is the text between the quotes. -/
  | string {body after : List UInt8} : 0x22 ∉ body →
      Munch (.token .string (some (.str (Utf8.decode body)))) (0x22 :: (body ++ [0x22])) after
  /-- A quote with no quote after it is an unterminated string over the rest of the source. -/
  | unterminated {rest : List UInt8} : 0x22 ∉ rest →
      Munch (.problem .unterminatedString) (0x22 :: rest) []
  /-- A numeral: the longest run of digits, then a point and the longest run of digits after it
  only when a digit follows the point. -/
  | numeral {whole fraction after : List UInt8} : whole ≠ [] →
      (∀ d ∈ whole ++ fraction, isDigit d = true) →
      (∀ d more, after = d :: more → isDigit d = false) →
      (fraction = [] → ∀ d more, after = 0x2E :: d :: more → isDigit d = false) →
      Munch (numeralPiece whole fraction) (numeralBytes whole fraction) after
  /-- A name: a letter or an underscore, then the longest run of letters, digits and
  underscores. -/
  | name {b : UInt8} {more after : List UInt8} : isAlpha b = true →
      (∀ c ∈ more, isAlphaNumeric c = true) →
      (∀ c rest, after = c :: rest → isAlphaNumeric c = false) →
      Munch (namePiece (b :: more)) (b :: more) after
  /-- Any other byte is an unexpected character, over the bytes of the character it begins. -/
  | unexpected {b : UInt8} {c : Char} {tail after : List UInt8} : ¬ Starter b →
      Utf8.head b (tail ++ after) = (c, tail.length) →
      Munch (.problem (.unexpectedCharacter c)) (b :: tail) after

/-! ## The first piece is a munch -/

theorem single?_spec {b : UInt8} {k : TokenKind} (found : single? b = some k) :
    b ∈ punctuation ∧ Spells k [b] := by
  unfold single? at found
  split at found <;> cases found <;> exact ⟨by decide, rfl⟩

theorem pair?_spec {b : UInt8} {alone withEqual : TokenKind}
    (found : pair? b = some (alone, withEqual)) :
    b ∈ comparisons ∧ Spells alone [b] ∧ Spells withEqual [b, 0x3D] := by
  unfold pair? at found
  split at found <;> cases found <;> exact ⟨by decide, rfl, rfl⟩

theorem isSome_single?_of_mem {b : UInt8} (member : b ∈ punctuation) : (single? b).isSome := by
  simp only [punctuation, List.map_cons, List.map_nil, List.mem_cons, List.not_mem_nil,
    or_false] at member
  rcases member with rfl | rfl | rfl | rfl | rfl | rfl | rfl | rfl | rfl | rfl <;> rfl

theorem isSome_pair?_of_mem {b : UInt8} (member : b ∈ comparisons) : (pair? b).isSome := by
  simp only [comparisons, List.map_cons, List.map_nil, List.mem_cons, List.not_mem_nil,
    or_false] at member
  rcases member with rfl | rfl | rfl | rfl <;> rfl

theorem head_snd_le (b : UInt8) : ∀ rest : List UInt8, (Utf8.head b rest).2 ≤ rest.length
  | [] | [_] | [_, _] | _ :: _ :: _ :: _ => by unfold Utf8.head; dsimp only; split_ifs <;> simp

/-- Where a run of bytes stops, the byte that stops it is outside the run. -/
theorem stops_of_dropWhile {p : UInt8 → Bool} {l rest : List UInt8} {c : UInt8}
    (stop : l.dropWhile p = c :: rest) : p c = false := by
  have := List.head_dropWhile_not p (l := l) (by simp [stop])
  simpa [stop] using this

theorem word_eq (name : List UInt8) : word name = (namePiece name, name.length) := rfl

/-- A name takes the longest run of letters, digits and underscores. -/
theorem name_munch {b : UInt8} (alpha : isAlpha b = true) (rest : List UInt8) :
    Munch (namePiece (b :: rest.takeWhile isAlphaNumeric))
      (b :: rest.take (rest.takeWhile isAlphaNumeric).length)
      (rest.drop (rest.takeWhile isAlphaNumeric).length) := by
  rw [take_length_takeWhile, drop_length_takeWhile]
  refine .name alpha (fun c member => List.mem_takeWhile_imp member) fun c more stop => ?_
  exact stops_of_dropWhile stop

/-- A numeral with a fraction: a point followed by a digit. -/
theorem numeral_of_fraction (whole more : List UInt8) {d : UInt8} (digit : isDigit d = true) :
    numeral whole (0x2E :: d :: more) =
      (numeralPiece whole (d :: more.takeWhile isDigit),
        (numeralBytes whole (d :: more.takeWhile isDigit)).length) := by
  simp [numeral, numeralPiece, numeralBytes, digit]

/-- A numeral without a fraction: no point, or a point not followed by a digit. -/
theorem numeral_of_plain (whole after : List UInt8)
    (plain : ∀ d more, after = 0x2E :: d :: more → isDigit d = false) :
    numeral whole after = (numeralPiece whole [], whole.length) := by
  unfold numeral
  split
  · next d more => simp [plain d more rfl, numeralPiece, numeralBytes]
  · simp [numeralPiece, numeralBytes]

/-- A numeral takes the longest run of digits, and a fraction when a digit follows the point. -/
theorem numeral_munch {b : UInt8} (digit : isDigit b = true) (rest : List UInt8) :
    Munch (numeral (b :: rest.takeWhile isDigit) (rest.dropWhile isDigit)).1
      (b :: rest.take ((numeral (b :: rest.takeWhile isDigit) (rest.dropWhile isDigit)).2 - 1))
      (rest.drop ((numeral (b :: rest.takeWhile isDigit) (rest.dropWhile isDigit)).2 - 1)) := by
  have digits : ∀ d ∈ rest.takeWhile isDigit, isDigit d = true :=
    fun d member => List.mem_takeWhile_imp member
  have stops : ∀ d more, rest.dropWhile isDigit = d :: more → isDigit d = false :=
    fun d more stop => stops_of_dropWhile stop
  have whole := (List.takeWhile_append_dropWhile (p := isDigit) (l := rest)).symm
  generalize rest.takeWhile isDigit = ds at digits whole ⊢
  generalize rest.dropWhile isDigit = after at stops whole ⊢
  subst whole
  by_cases fraction : ∃ d more, after = 0x2E :: d :: more ∧ isDigit d = true
  · -- the point and the digits after it belong to the numeral
    obtain ⟨d, more, rfl, digit'⟩ := fraction
    rw [numeral_of_fraction _ _ digit']
    have shape : ds ++ 0x2E :: d :: more =
        (ds ++ 0x2E :: d :: more.takeWhile isDigit) ++ more.dropWhile isDigit := by simp
    have count : (numeralBytes (b :: ds) (d :: more.takeWhile isDigit)).length - 1 =
        (ds ++ 0x2E :: d :: more.takeWhile isDigit).length := by simp [numeralBytes]
    have munch := @Munch.numeral (b :: ds) (d :: more.takeWhile isDigit) (more.dropWhile isDigit)
      (List.cons_ne_nil _ _) (fun e member => ?_)
      (fun e rest' stop => stops_of_dropWhile stop)
      (fun empty => absurd empty (List.cons_ne_nil _ _))
    · rw [show numeralBytes (b :: ds) (d :: more.takeWhile isDigit) =
        b :: (ds ++ 0x2E :: d :: more.takeWhile isDigit) by simp [numeralBytes]] at munch
      rwa [count, shape, List.take_left, List.drop_left]
    · simp only [List.cons_append, List.mem_cons, List.mem_append] at member
      rcases member with rfl | early | rfl | late
      · exact digit
      · exact digits e early
      · exact digit'
      · exact List.mem_takeWhile_imp late
  · -- the numeral ends with its whole digits
    have plain : ∀ d more, after = 0x2E :: d :: more → isDigit d = false := by
      intro d more shape
      cases known : isDigit d
      · rfl
      · exact absurd ⟨d, more, shape, known⟩ fraction
    rw [numeral_of_plain _ _ plain, List.length_cons, Nat.add_sub_cancel, List.take_left,
      List.drop_left]
    have munch := @Munch.numeral (b :: ds) [] after (List.cons_ne_nil _ _) (fun e member => ?_)
      stops fun _ => plain
    · rwa [show numeralBytes (b :: ds) [] = b :: ds by simp [numeralBytes]] at munch
    · simp only [List.append_nil, List.mem_cons] at member
      rcases member with rfl | early
      · exact digit
      · exact digits e early

/-- A quote with a quote after it: a string up to that quote. -/
theorem string_munch {rest : List UInt8}
    (closed : (rest.takeWhile (· != 0x22)).length < rest.length) :
    Munch (.token .string (some (.str (Utf8.decode (rest.takeWhile (· != 0x22))))))
      (0x22 :: rest.take ((rest.takeWhile (· != 0x22)).length + 1))
      (rest.drop ((rest.takeWhile (· != 0x22)).length + 1)) := by
  have whole := (List.takeWhile_append_dropWhile (p := (· != 0x22)) (l := rest)).symm
  have noQuote : 0x22 ∉ rest.takeWhile (· != 0x22) := by
    intro member
    simpa using List.mem_takeWhile_imp member
  generalize rest.takeWhile (· != 0x22) = body at closed whole noQuote ⊢
  cases stop : rest.dropWhile (· != 0x22) with
  | nil =>
    rw [stop, List.append_nil] at whole
    rw [whole] at closed
    exact absurd closed (Nat.lt_irrefl _)
  | cons c more =>
    -- the run stops at the closing quote
    have quote : c = 0x22 := by simpa using stops_of_dropWhile stop
    rw [stop, quote] at whole
    have shape : rest = (body ++ [0x22]) ++ more := by rw [whole]; simp
    have count : body.length + 1 = (body ++ [0x22]).length := by simp
    rw [count, shape, List.take_left, List.drop_left]
    exact .string noQuote

/-- A quote with no quote after it: an unterminated string over the rest. -/
theorem unterminated_munch {rest : List UInt8}
    (open_ : ¬ (rest.takeWhile (· != 0x22)).length < rest.length) :
    Munch (.problem .unterminatedString) (0x22 :: rest.take rest.length)
      (rest.drop rest.length) := by
  have all : rest.takeWhile (· != 0x22) = rest := by
    have fits := (List.takeWhile_prefix (· != 0x22) (l := rest)).length_le
    exact (List.takeWhile_prefix _).eq_of_length (by omega)
  rw [List.take_length, List.drop_length]
  refine .unterminated fun member => ?_
  rw [← all] at member
  simpa using List.mem_takeWhile_imp member

/-- `//`: a comment up to the next newline, which it leaves. -/
theorem comment_munch {rest : List UInt8} (opens : rest.head? = some 0x2F) :
    Munch .blank (0x2F :: rest.take (rest.takeWhile (· != 0x0A)).length)
      (rest.drop (rest.takeWhile (· != 0x0A)).length) := by
  rcases comment_fits opens with ⟨b, -, single⟩ | ⟨text, noNewline, bytes, stops⟩
  · -- the comment holds the second slash too, so it is not one byte long
    obtain ⟨tail, rfl⟩ : ∃ tail, rest = 0x2F :: tail := by
      cases rest with
      | nil => cases opens
      | cons x tail => cases opens; exact ⟨tail, rfl⟩
    simp at single
  · rw [bytes]
    exact .comment noNewline stops

/-- Any other byte: an unexpected character over the bytes of the character it begins. -/
theorem unexpected_munch {b : UInt8} (other : ¬ Starter b) {rest : List UInt8} {c : Char} {n : Nat}
    (decoded : Utf8.head b rest = (c, n)) :
    Munch (.problem (.unexpectedCharacter c)) (b :: rest.take n) (rest.drop n) := by
  have within : n ≤ rest.length := by simpa [decoded] using head_snd_le b rest
  refine .unexpected other ?_
  rw [List.take_append_drop, List.length_take, Nat.min_eq_left within, decoded]

/-- **The first piece is a munch.** The piece the scanner reads at the head of the source, over
the bytes it takes, is the segment that maximal munch gives there. -/
theorem first_munch (b : UInt8) (rest : List UInt8) :
    Munch (first b rest).1 (b :: rest.take (first b rest).2) (rest.drop (first b rest).2) := by
  unfold first
  split
  · next k found =>
    obtain ⟨single, spelled⟩ := single?_spec found
    exact .punctuation single spelled
  · next _ noSingle =>
    split
    · next alone withEqual found =>
      obtain ⟨comparison, spelledAlone, spelledEqual⟩ := pair?_spec found
      split
      · next equal =>
        obtain ⟨more, rfl⟩ : ∃ more, rest = 0x3D :: more := by
          cases rest with
          | nil => cases equal
          | cons x more => cases equal; exact ⟨more, rfl⟩
        exact .comparisonEqual comparison spelledEqual
      · next other => exact .comparison comparison other spelledAlone
    · next _ noPair =>
      split
      · next slash =>
        subst slash
        split
        · next comment => exact comment_munch comment
        · next other => exact .slash other
      · next notSlash =>
        split
        · next space => exact .blank space
        · next notSpace =>
          split
          · next quote =>
            subst quote
            dsimp only
            split
            · next closed => exact string_munch closed
            · next open_ => exact unterminated_munch open_
          · next notQuote =>
            split
            · next digit =>
              dsimp only
              have munch := numeral_munch digit rest
              rcases read : numeral (b :: rest.takeWhile isDigit) (rest.dropWhile isDigit) with
                ⟨piece, n⟩
              rw [read] at munch
              exact munch
            · next notDigit =>
              split
              · next alpha =>
                rw [word_eq]
                simp only [List.length_cons, Nat.add_sub_cancel]
                exact name_munch alpha rest
              · next notAlpha =>
                -- no class of token, blank or string begins with `b`
                have other : ¬ Starter b := by
                  rintro (single | pair | slash | space | quote | digit | alpha)
                  · have found := isSome_single?_of_mem single
                    rw [noSingle] at found
                    cases found
                  · have found := isSome_pair?_of_mem pair
                    rw [noPair] at found
                    cases found
                  · exact notSlash slash
                  · exact notSpace space
                  · exact notQuote quote
                  · exact notDigit digit
                  · exact notAlpha alpha
                rcases decoded : Utf8.head b rest with ⟨c, n⟩
                exact unexpected_munch other decoded

/-! ## The scan -/

/-- **Segments by maximal munch.** The source is the bytes of the segments one after another, each
the munch of its first byte given the bytes after it. -/
inductive Munches : List UInt8 → List (Piece × List UInt8) → Prop
  | nil : Munches [] []
  | cons {piece : Piece} {bytes rest : List UInt8} {segs : List (Piece × List UInt8)} :
      Munch piece bytes rest → Munches rest segs → Munches (bytes ++ rest) ((piece, bytes) :: segs)

/-- The pieces of a scan, without their places, are its segments by maximal munch. -/
theorem munches_pieces : (bytes : List UInt8) → (origin : Cursor) →
    Munches bytes ((pieces bytes origin).map fun entry => (entry.1, entry.2.1)) := by
  intro bytes origin
  fun_induction pieces bytes origin with
  | case1 origin => exact .nil
  | case2 origin b rest piece n read taken ih =>
    have munch := first_munch b rest
    rw [read] at munch
    have whole : b :: rest = taken ++ rest.drop n :=
      congrArg (b :: ·) (List.take_append_drop n rest).symm
    rw [List.map_cons, whole]
    exact .cons munch ih

end Scan

/-- The segments placed after `before` are the segments, with their places. -/
theorem map_placed (start : Int64) :
    (before : List UInt8) → (segs : List (Piece × List UInt8)) →
      (placed start before segs).map (fun entry => (entry.1, entry.2.1)) = segs
  | _, [] => rfl
  | before, (piece, bytes) :: segs => by rw [placed, List.map_cons, map_placed]

/-- A scan makes its tokens and errors from its pieces, each at its place. -/
theorem scan_eq_placed {source : List UInt8} {line : Int64} {segs : List (Piece × List UInt8)}
    (pieced : Scan.pieces source ⟨startLine line, 0⟩ = placed (startLine line) [] segs) :
    scan source line =
      (((placed (startLine line) [] segs).filterMap Piece.emit).filterMap Sum.getLeft? ++
          [⟨.eof, "", none, (placeAfter (startLine line) source).line,
            (placeAfter (startLine line) source).column⟩],
        ((placed (startLine line) [] segs).filterMap Piece.emit).filterMap Sum.getRight?) := by
  simp only [scan, pieced, Cursor.over_start]
  -- the scanner's selectors of tokens and errors are the two projections of a sum
  refine Prod.ext ?_ ?_
  · exact congrArg (· ++ _) (List.filterMap_congr fun made _ => by cases made <;> rfl)
  · exact List.filterMap_congr fun made _ => by cases made <;> rfl

/-- **Scanning by maximal munch.** For every source and first line, the scan cuts the source
into segments each of which its first byte decides, taking as much as its class allows: a token
of one byte for `( ) { } , . - + ; *`; an operator of two bytes for `!`, `=`, `<` or `>` followed
by `=`, and of one byte otherwise; a comment from `//` to the next newline, and a slash for `/`
otherwise; a blank for a whitespace byte; a string to the next quote, newlines included and no
escapes, with the text between the quotes as literal, or an unterminated string over the rest of
the source when no quote follows; the longest run of digits, with a point and the longest run of
digits after it only when a digit follows the point, a number with the double nearest to its
value or an invalid number when that value is too large for a double; the longest run of
letters, digits and underscores after a letter or underscore, a keyword without a literal or an
identifier with its name; and for any other byte an unexpected character over the bytes of the
character it begins. The tokens are those of the token segments followed by the end token, and
the errors those of the error segments, each at the place of its first byte. -/
theorem scan_munch (source : List UInt8) (line : Int64) :
    ∃ segs, Scan.Munches source segs ∧
      scan source line =
        (((placed (startLine line) [] segs).filterMap Piece.emit).filterMap Sum.getLeft? ++
            [⟨.eof, "", none, (placeAfter (startLine line) source).line,
              (placeAfter (startLine line) source).column⟩],
          ((placed (startLine line) [] segs).filterMap Piece.emit).filterMap Sum.getRight?) := by
  obtain ⟨segs, -, pieced⟩ := Scan.pieces_eq_placed (startLine line) source []
  rw [placeAfter_nil] at pieced
  have munches := Scan.munches_pieces source ⟨startLine line, 0⟩
  rw [pieced, map_placed] at munches
  exact ⟨segs, munches, scan_eq_placed pieced⟩

end Lox
