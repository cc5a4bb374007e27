import Mathlib
import Lox.Proofs.Number.Text
import Lox.Proofs.Scan.Segments
import Lox.Proofs.Parse.Complete
import Lox.Proofs.Eval.Depth
/-!
# A printed number reads back

The text of a finite double is a numeral, after a minus sign when the sign bit is set
(`Number.text_spells`). Its bytes are ASCII. The scanner cuts them into at most two tokens, a
`MINUS` and a `NUMBER` carrying the nearest double to the numeral's value, which is the printed
double's magnitude, so no error is raised. The parser reads a lone number as a literal and a minus
before it as a unary negation, and evaluating either gives back the printed double, its sign bit
included: negating the magnitude of `-0` gives `-0`.
-/

namespace Lox

open Decimal Number Grammar

/-! ## The bytes of a number's text -/

theorem toList_eq_data (bs : ByteArray) : bs.toList = bs.data.toList := by
  suffices walk : ∀ i r, ByteArray.toList.loop bs i r = r.reverse ++ bs.data.toList.drop i by
    simpa [ByteArray.toList] using walk 0 []
  intro i r
  fun_induction ByteArray.toList.loop bs i r with
  | case1 i r lt ih =>
    have inside : i < bs.data.toList.length := by simpa using lt
    rw [ih, List.drop_eq_getElem_cons inside]
    simp [ByteArray.get!, getElem!_pos bs.data i lt]
  | case2 i r ge =>
    simpa using ge

theorem encode_ofList (cs : List Char) :
    Utf8.encode (String.ofList cs) = cs.flatMap String.utf8EncodeChar := by
  simp [Utf8.encode, toList_eq_data, List.utf8Encode]

/-- The byte of an ASCII character. -/
def asciiByte (c : Char) : UInt8 :=
  c.val.toUInt8

@[simp] theorem asciiByte_point : asciiByte '.' = 0x2E := rfl

theorem encode_ofList_of_ascii (cs : List Char) (ascii : ∀ c ∈ cs, c.toNat < 128) :
    Utf8.encode (String.ofList cs) = cs.map asciiByte := by
  rw [encode_ofList, List.map_eq_flatMap]
  apply List.flatMap_congr
  intro c member
  apply String.utf8EncodeChar_eq_singleton
  rw [Char.utf8Size_eq_one_iff, UInt32.le_iff_toNat_le]
  have := ascii c member
  simp only [Char.toNat] at this
  simp only [UInt32.reduceToNat]
  omega

theorem toNat_asciiByte {c : Char} (ascii : c.toNat < 128) : (asciiByte c).toNat = c.toNat := by
  unfold asciiByte
  rw [UInt32.toNat_toUInt8]
  exact Nat.mod_eq_of_lt (by simp only [Char.toNat] at ascii; omega)

theorem numeralChars_ascii {whole fraction : List Char}
    (digits : ∀ ch ∈ whole ++ fraction, ch.isDigit = true) :
    ∀ c ∈ numeralChars whole fraction, c.toNat < 128 := by
  intro c member
  have digitLt (ch : Char) (digit : ch.isDigit = true) : ch.toNat < 128 := by
    have := isDigit_toNat digit
    omega
  unfold numeralChars at member
  split at member
  · exact digitLt c (digits c (List.mem_append_left _ (by simpa using member)))
  · simp only [List.mem_append, List.mem_cons] at member
    rcases member with member | rfl | member
    · exact digitLt c (digits c (List.mem_append_left _ member))
    · decide
    · exact digitLt c (digits c (List.mem_append_right _ member))

theorem encode_text (negative : Bool) {whole fraction : List Char}
    (digits : ∀ ch ∈ whole ++ fraction, ch.isDigit = true) :
    Utf8.encode ((if negative then "-" else "") ++ String.ofList (numeralChars whole fraction)) =
      (if negative then [0x2D] else []) ++ (numeralChars whole fraction).map asciiByte := by
  have ascii := numeralChars_ascii digits
  cases negative
  · simp [encode_ofList_of_ascii _ ascii]
  · have signed : "-" ++ String.ofList (numeralChars whole fraction) =
        String.ofList ('-' :: numeralChars whole fraction) := by
      rw [String.ofList_cons]
      rfl
    rw [if_pos rfl, signed, encode_ofList_of_ascii]
    · rfl
    · intro c member
      rcases List.mem_cons.1 member with rfl | member
      · decide
      · exact ascii c member

/-! ## Scanning a numeral -/

namespace Scan

theorem single?_of_isDigit {b : UInt8} (digit : isDigit b = true) : single? b = none := by
  simp only [isDigit, Utf8.within, decide_eq_true_eq] at digit
  unfold single?
  split <;> simp_all

theorem pair?_of_isDigit {b : UInt8} (digit : isDigit b = true) : pair? b = none := by
  simp only [isDigit, Utf8.within, decide_eq_true_eq] at digit
  unfold pair?
  split <;> simp_all

theorem first_of_isDigit {b : UInt8} (digit : isDigit b = true) (rest : List UInt8) :
    first b rest = ((numeral (b :: rest.takeWhile isDigit) (rest.dropWhile isDigit)).1,
      (numeral (b :: rest.takeWhile isDigit) (rest.dropWhile isDigit)).2 - 1) := by
  have bounds := digit
  simp only [isDigit, Utf8.within, decide_eq_true_eq] at bounds
  have notSlash : b ≠ 0x2F := by rintro rfl; simp at bounds
  have notBlank : ¬(b = 0x20 ∨ b = 0x0D ∨ b = 0x09 ∨ b = 0x0A) := by
    rintro (rfl | rfl | rfl | rfl) <;> simp at bounds
  have notQuote : b ≠ 0x22 := by rintro rfl; simp at bounds
  rw [first, single?_of_isDigit digit, pair?_of_isDigit digit]
  simp only [notSlash, notBlank, notQuote, digit, if_false, if_true]

end Scan

theorem isDigit_asciiByte {c : Char} (digit : c.isDigit = true) :
    Scan.isDigit (asciiByte c) = true := by
  have bounds := isDigit_toNat digit
  simp only [Scan.isDigit, Utf8.within, toNat_asciiByte (show c.toNat < 128 by omega)]
  simp only [decide_eq_true_eq]
  omega

theorem digitValue_asciiByte {c : Char} (digit : c.isDigit = true) :
    Scan.digitValue (asciiByte c) = c.toNat - 48 := by
  have bounds := isDigit_toNat digit
  simp only [Scan.digitValue, toNat_asciiByte (show c.toNat < 128 by omega)]

/-- The value the scanner gives the bytes of a numeral is the double nearest to the quotient of
its digits by a power of ten. -/
theorem ofDigits_asciiBytes {whole fraction : List Char}
    (digits : ∀ ch ∈ whole ++ fraction, ch.isDigit = true) :
    Number.ofDigits ((whole.map asciiByte).map Scan.digitValue)
        ((fraction.map asciiByte).map Scan.digitValue) =
      nearest (Nat.ofDigitChars 10 (whole ++ fraction) 0) (10 ^ fraction.length) := by
  unfold Number.ofDigits
  simp only [List.map_map, ← List.map_append, List.foldl_map, List.length_map, Nat.pow_eq]
  congr 1
  apply List.foldl_ext
  intro acc ch member
  simp [digitValue_asciiByte (digits ch member)]

/-- The piece of a numeral's bytes: its value, unless that is too large for a double. -/
theorem numeral_asciiBytes {whole fraction : List Char}
    (digits : ∀ ch ∈ whole ++ fraction, ch.isDigit = true) :
    Scan.numeral (whole.map asciiByte)
        (if fraction = [] then [] else 0x2E :: fraction.map asciiByte) =
      (if (nearest (Nat.ofDigitChars 10 (whole ++ fraction) 0) (10 ^ fraction.length)).isInf then
        Piece.problem (.invalidNumber (Utf8.decode ((numeralChars whole fraction).map asciiByte)))
      else Piece.token .number
        (some (.number
          (nearest (Nat.ofDigitChars 10 (whole ++ fraction) 0) (10 ^ fraction.length)))),
        (numeralChars whole fraction).length) := by
  have fractionDigits : ∀ ch ∈ fraction, Scan.isDigit (asciiByte ch) = true :=
    fun ch member => isDigit_asciiByte (digits ch (List.mem_append_right _ member))
  rw [← ofDigits_asciiBytes digits]
  cases fraction with
  | nil => simp [Scan.numeral, numeralChars]
  | cons f more =>
    have rest : (more.map asciiByte).takeWhile Scan.isDigit = more.map asciiByte :=
      List.takeWhile_eq_self_iff.2 fun b member => by
        obtain ⟨ch, chMember, rfl⟩ := List.mem_map.1 member
        exact fractionDigits ch (List.mem_cons_of_mem _ chMember)
    simp [Scan.numeral, fractionDigits f (by simp), rest, numeralChars]

/-- **A numeral is one token.** The bytes of a numeral whose value is a finite double are one
`NUMBER` piece carrying that double. -/
theorem pieces_numeral {whole fraction : List Char} {bits : UInt64}
    (spelled : Spells whole fraction bits) (finite : (Float.ofBits bits).isInf = false)
    (origin : Cursor) :
    Scan.pieces ((numeralChars whole fraction).map asciiByte) origin =
      [(.token .number (some (.number (Float.ofBits bits))),
        (numeralChars whole fraction).map asciiByte, origin)] := by
  have numeral := numeral_asciiBytes spelled.digits
  rw [show nearest _ _ = Float.ofBits bits from congrArg Float.ofBits spelled.rounds, finite]
    at numeral
  simp only [Bool.false_eq_true, if_false] at numeral
  obtain ⟨w, ws, rfl⟩ := List.exists_cons_of_ne_nil spelled.whole_ne_nil
  have lead : Scan.isDigit (asciiByte w) = true := isDigit_asciiByte (spelled.digits w (by simp))
  have wholeDigits : ∀ b ∈ ws.map asciiByte, Scan.isDigit b = true := by
    intro b member
    obtain ⟨ch, chMember, rfl⟩ := List.mem_map.1 member
    exact isDigit_asciiByte (spelled.digits ch (by simp [chMember]))
  -- after the whole digits come nothing, or the point and the fraction digits
  set tail := (if fraction = [] then [] else 0x2E :: fraction.map asciiByte) with tailEq
  have stops : tail.takeWhile Scan.isDigit = [] ∧ tail.dropWhile Scan.isDigit = tail := by
    rw [tailEq]
    split <;> simp [Scan.isDigit, Utf8.within]
  have bytes : (numeralChars (w :: ws) fraction).map asciiByte =
      asciiByte w :: (ws.map asciiByte ++ tail) := by
    rw [tailEq]
    unfold numeralChars
    split <;> simp
  have taken :
      (numeralChars (w :: ws) fraction).length - 1 = (ws.map asciiByte ++ tail).length := by
    rw [← List.length_map asciiByte, bytes, List.length_cons, Nat.add_sub_cancel]
  rw [bytes, Scan.pieces_cons, Scan.first_of_isDigit lead,
    List.takeWhile_append_of_pos wholeDigits, List.dropWhile_append_of_pos wholeDigits, stops.1,
    stops.2, List.append_nil, ← List.map_cons, numeral]
  simp only [taken, List.take_length, List.drop_length]
  rw [Scan.pieces]

/-- The minus sign is a token of its own. -/
theorem pieces_minus (bytes : List UInt8) (origin : Cursor) :
    Scan.pieces (0x2D :: bytes) origin =
      (.token .minus none, [0x2D], origin) :: Scan.pieces bytes (origin.over [0x2D]) := by
  rw [Scan.pieces_cons]
  simp [Scan.first, Scan.single?]

/-- The tokens of a numeral: its `NUMBER` and the end, with no error. -/
theorem scan_numeral {whole fraction : List Char} {bits : UInt64}
    (spelled : Spells whole fraction bits) (finite : (Float.ofBits bits).isInf = false)
    (line : Int64) :
    ∃ number finish,
      scan ((numeralChars whole fraction).map asciiByte) line = ([number, finish], []) ∧
      number.kind = .number ∧ number.literal = some (.number (Float.ofBits bits)) ∧
      finish.kind = .eof := by
  unfold scan
  simp only [pieces_numeral spelled finite]
  exact ⟨_, _, rfl, rfl, rfl, rfl⟩

/-- The tokens of a numeral after a minus sign: `MINUS`, the `NUMBER` and the end, with no
error. -/
theorem scan_negative {whole fraction : List Char} {bits : UInt64}
    (spelled : Spells whole fraction bits) (finite : (Float.ofBits bits).isInf = false)
    (line : Int64) :
    ∃ minus number finish,
      scan (0x2D :: (numeralChars whole fraction).map asciiByte) line =
        ([minus, number, finish], []) ∧
      minus.kind = .minus ∧ number.kind = .number ∧
      number.literal = some (.number (Float.ofBits bits)) ∧ finish.kind = .eof := by
  unfold scan
  simp only [pieces_minus, pieces_numeral spelled finite]
  exact ⟨_, _, _, rfl, rfl, rfl, rfl, rfl⟩

/-! ## Parsing a signed literal -/

/-- The parser reads tokens that end with their first `EOF` as they are. -/
theorem prepare_append_eof {body : List Token} {finish : Token}
    (noEnd : ∀ t ∈ body, t.kind ≠ .eof) (isEnd : finish.kind = .eof) :
    Parse.prepare (body ++ [finish]) = body ++ [finish] := by
  induction body with
  | nil => simp [Parse.prepare, isEnd]
  | cons t body ih =>
    simp only [List.cons_append, Parse.prepare, noEnd t (by simp), if_false]
    rw [ih (fun u member => noEnd u (by simp [member]))]

/-- A phrase that stands alone before the end of the input, read from a unary operation or
something tighter, is what the parser gives. -/
theorem parse_of_unary {body : List Token} {finish : Token} {e : Expr}
    (phrase : Unary false (body ++ [finish]) e [finish]) (fits : Fits 0 e)
    (noEnd : ∀ t ∈ body, t.kind ≠ .eof) (isEnd : finish.kind = .eof) :
    Expr.parse (body ++ [finish]) = .ok e := by
  have closes : ClosesAssignment (Parse.peek [finish]).kind := by
    simp only [Parse.peek, isEnd]
    decide
  rw [← prepare_append_eof noEnd isEnd] at phrase
  obtain ⟨le, read⟩ :=
    Parse.assignment_complete (.lone (Chain.ofUnary phrase 5)) closes fits #[]
  unfold Expr.parse
  rw [read]
  simp [Parse.peek, isEnd]

theorem parse_number {number finish : Token} (isNumber : number.kind = .number)
    (isEnd : finish.kind = .eof) :
    Expr.parse [number, finish] = .ok (.literal number.literal) :=
  @parse_of_unary [number] finish _ (.call (.calls (.number isNumber) .done)) fits_literal
    (by simp [isNumber]) isEnd

theorem parse_negated {minus number finish : Token} (isMinus : minus.kind = .minus)
    (isNumber : number.kind = .number) (isEnd : finish.kind = .eof) :
    Expr.parse [minus, number, finish] = .ok (.unary minus (.literal number.literal)) :=
  @parse_of_unary [minus, number] finish _
    (.op (.inr isMinus) (.call (.calls (.number isNumber) .done)))
    (fits_unary.2 ⟨by decide, fits_literal⟩) (by simp [isMinus, isNumber]) isEnd

/-! ## Evaluating it -/

theorem interpret_number (m : Machine) {bound : DepthBound} (room : bound.exceeded 0 = false)
    (x : Float) : m.interpret bound (.literal (some (.number x))) = (.ok (.number x), m) := by
  simp [Machine.interpret, Expr.eval, room, Value.ofLiteral]

theorem interpret_negated (m : Machine) {bound : DepthBound} (room : bound.exceeded 1 = false)
    {minus : Token} (isMinus : minus.kind = .minus) (x : Float) :
    m.interpret bound (.unary minus (.literal (some (.number x)))) = (.ok (.number (-x)), m) := by
  have shallow := Expr.exceeded_eq_false_of_le (Nat.zero_le 1) room
  simp [Machine.interpret, Expr.eval, room, shallow, isMinus, TokenKind.isUnary, Expr.andThen,
    Value.ofLiteral]

/-! ## Reading back -/

/-- **A printed number reads back.** The text of a finite double scans without errors; it parses
as a literal of the double when its sign bit is clear, and otherwise as a minus over the literal
of its magnitude; and interpreting that tree gives back the double itself, `-0` included. -/
theorem text_reads_back (x : Float) (finite : x.isFinite = true) (line : Int64)
    {bound : DepthBound} (room : bound.exceeded 1 = false) (m : Machine) :
    ∃ tokens tree,
      scan (Utf8.encode (text x)) line = (tokens, []) ∧ Expr.parse tokens = .ok tree ∧
      (signBit x = false ∧ tree = .literal (some (.number x)) ∨
        signBit x = true ∧ ∃ minus : Token, minus.kind = .minus ∧
          tree = .unary minus (.literal (some (.number x.abs)))) ∧
      m.interpret bound tree = (.ok (.number x), m) := by
  obtain ⟨whole, fraction, written, spelled⟩ := text_spells x finite
  have magnitude := ofBits_magnitude x finite
  have readable : (Float.ofBits (UInt64.ofNat (x.toBits.toNat % 2 ^ 63))).isInf = false := by
    rw [magnitude]
    exact isInf_of_isFinite (isFinite_abs finite)
  rw [written, encode_text _ spelled.digits]
  cases sign : signBit x
  · -- a clear sign bit: one numeral, read as the double itself
    obtain ⟨number, finish, scanned, isNumber, literal, isEnd⟩ :=
      scan_numeral spelled readable line
    have same : x.abs = x := abs_of_signBit_false x finite sign
    rw [magnitude, same] at literal
    refine ⟨_, _, by simpa using scanned, parse_number isNumber isEnd,
      .inl ⟨rfl, by rw [literal]⟩, ?_⟩
    rw [literal]
    exact interpret_number m (Expr.exceeded_eq_false_of_le (Nat.zero_le 1) room) x
  · -- a set sign bit: a minus, then the numeral of the magnitude
    obtain ⟨minus, number, finish, scanned, isMinus, isNumber, literal, isEnd⟩ :=
      scan_negative spelled readable line
    rw [magnitude] at literal
    refine ⟨_, _, by simpa using scanned, parse_negated isMinus isNumber isEnd,
      .inr ⟨rfl, minus, isMinus, by rw [literal]⟩, ?_⟩
    rw [literal, interpret_negated m room isMinus, neg_abs_of_signBit x finite sign]

/-- The least subnormal double with its sign bit set, `-5e-324`, reads back. -/
theorem text_reads_back_least_negative :
    (Float.ofBits 0x8000000000000001).isFinite = true ∧
      (DepthBound.ofEvaluator 1024).exceeded 1 = false ∧
      ∃ tokens tree,
        scan (Utf8.encode (text (Float.ofBits 0x8000000000000001))) 1 = (tokens, []) ∧
        Expr.parse tokens = .ok tree ∧
        (signBit (Float.ofBits 0x8000000000000001) = false ∧
            tree = .literal (some (.number (Float.ofBits 0x8000000000000001))) ∨
          signBit (Float.ofBits 0x8000000000000001) = true ∧ ∃ minus : Token,
            minus.kind = .minus ∧
            tree = .unary minus
              (.literal (some (.number (Float.ofBits 0x8000000000000001).abs)))) ∧
        (default : Machine).interpret (DepthBound.ofEvaluator 1024) tree =
          (.ok (.number (Float.ofBits 0x8000000000000001)), default) :=
  ⟨by decide, by decide, text_reads_back _ (by decide) 1 (by decide) default⟩

end Lox
