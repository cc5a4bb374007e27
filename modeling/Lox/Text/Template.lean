import Lox.Decimal.Fixed
import Lox.Text.Quote
/-!
# Message templates

A template is text with directives: `%`, then flags (`+ - # 0` and space), an optional width and
an optional precision after a point (either may be `*`, taking it from the next argument), then a
verb. Each directive but `%%` formats the next argument: a whole number, a double, a text, a truth
value, or the absent value. An index `[n]` before the width, the precision's count or the verb
makes the `n`-th argument (from one) the next.

| verb | whole number | double | text |
|---|---|---|---|
| `v` | decimal | shortest `g` | as is (`#`: quoted) |
| `d` `b` `o` `O` `x` `X` | in base 10, 2, 8, 8 with `0o`, 16 | `b` `x` `X`: binary and hex layouts | `x` `X`: hex of the bytes |
| `c` `q` `U` | the character, quoted, `U+` code | – | `q`: quoted |
| `e` `E` `f` `F` `g` `G` | – | scientific, positional, the shorter of them | – |
| `s` | – | – | as is |

`t` and `v` write a truth value, `v` writes the absent value as `<nil>`, and `T` writes the name of
any argument's type. Under `v` the `+` and `#` flags do not apply to numbers; `#` quotes a text.

A verb that does not suit its argument is written `%!verb(type=value)`; a directive without an
argument `%!verb(MISSING)`; one whose index is out of range or misplaced `%!verb(BADINDEX)`; a
width or precision argument that is not a whole number within a million `%!(BADWIDTH)` or
`%!(BADPREC)`; a template that ends inside a directive, or has a count over a million,
`%!(NOVERB)`; and arguments left over are listed at the end as `%!(EXTRA type=value, …)`, unless
an index was written.
-/

namespace Lox.Template

/-- An argument of a template. -/
inductive Arg where
  | int (n : Int)
  | float (x : Float)
  | str (s : String)
  | bool (b : Bool)
  /-- The absent value, which has no type. -/
  | absent
  deriving Inhabited

/-- The name of an argument's type. -/
def Arg.typeName : Arg → String
  | int _ => "int"
  | float _ => "float64"
  | str _ => "string"
  | bool _ => "bool"
  | absent => "<nil>"

/-- How a width or precision is given. -/
inductive Count where
  | given (n : Nat)
  | fromArg
  deriving Inhabited

/-- An argument index `[n]` as written: the position it names, counted from zero (so `[0]` names
`-1`), or `none` when the brackets do not hold a count. -/
abbrev Index := Option Int

/-- A directive as written. An index may stand before the width, before the precision's count and
before the verb. `misplaced` marks an index that a written width or a point follows, which spoils
the directive's argument; a directive without a verb ends the template. -/
structure Directive where
  plus : Bool := false
  minus : Bool := false
  sharp : Bool := false
  zero : Bool := false
  space : Bool := false
  widthIndex : Option Index := none
  width : Option Count := none
  precisionIndex : Option Index := none
  precision : Option Count := none
  verbIndex : Option Index := none
  misplaced : Bool := false
  verb : Option Char := none
  deriving Inhabited

/-- A piece of a template: text to copy, or a directive. -/
inductive Piece where
  | text (s : List Char)
  | directive (d : Directive)
  deriving Inhabited

/-- Counts are bounded: one that passes a million with digits still to come is refused. -/
def countLimit : Nat := 1000000

/-- A count at the head of the input: its value if digits stand there, and the rest; `none` when
the count passes `countLimit` with digits still to come. -/
def count (cs : List Char) : Option (Option Nat × List Char) :=
  go none cs
where
  /-- Reads on with the value of the digits read so far. -/
  go (acc : Option Nat) : List Char → Option (Option Nat × List Char)
    | c :: r =>
      if c.isDigit then
        if countLimit < acc.getD 0 then none else go (some (10 * acc.getD 0 + (c.toNat - 48))) r
      else some (acc, c :: r)
    | [] => some (acc, [])

/-- An argument index at the head of the input, and the rest; `none` if no `[` stands there. A
`[` among the last two characters, or without a `]` after it, is a broken index of the `[` alone;
brackets that do not hold just a count make a broken index up to the `]`. -/
def index (cs : List Char) : Option (Index × List Char) :=
  match cs with
  | '[' :: r =>
    if cs.length < 3 then some (none, r)
    else
      let inside := r.takeWhile (· != ']')
      if inside.length = r.length then some (none, r)
      else
        let rest := r.drop (inside.length + 1)
        match count inside with
        | some (some n, []) => some (some ((n : Int) - 1), rest)
        | _ => some (none, rest)
  | _ => none

/-- The flags of a directive, read from its head. -/
def flags (d : Directive) : List Char → Directive × List Char
  | '+' :: r => flags { d with plus := true } r
  | '-' :: r => flags { d with minus := true } r
  | '#' :: r => flags { d with sharp := true } r
  | '0' :: r => flags { d with zero := true } r
  | ' ' :: r => flags { d with space := true } r
  | r => (d, r)

/-- The verb of a directive, after an index unless one stands just before. -/
def verbPart (d : Directive) (cs : List Char) (afterIndex : Bool) : Directive × List Char :=
  let (d, cs) := if afterIndex then (d, cs) else match index cs with
    | some (i, r) => ({ d with verbIndex := some i }, r)
    | none => (d, cs)
  match cs with
  | v :: r => ({ d with verb := some v }, r)
  | [] => (d, [])

/-- The precision of a directive and what follows. A point starts a precision only when something
follows it; a point alone is a precision of zero. -/
def precisionPart (d : Directive) (cs : List Char) (afterIndex : Bool) : Directive × List Char :=
  match cs with
  | '.' :: r@(_ :: _) =>
    let d := if afterIndex then { d with misplaced := true } else d
    let (d, r, afterIndex) := match index r with
      | some (i, r') => ({ d with precisionIndex := some i }, r', i.isSome)
      | none => (d, r, false)
    match r with
    | '*' :: r' => verbPart { d with precision := some .fromArg } r' false
    | _ => match count r with
      | none => (d, [])
      | some (p, r') => verbPart { d with precision := some (.given (p.getD 0)) } r' afterIndex
  | _ => verbPart d cs afterIndex

/-- A directive after its `%`, and the rest of the template. A count that is too long ends the
template inside the directive. -/
def directive (cs : List Char) : Directive × List Char :=
  let (d, cs) := flags {} cs
  let (d, cs, afterIndex) := match index cs with
    | some (i, r) => ({ d with widthIndex := some i }, r, i.isSome)
    | none => (d, cs, false)
  match cs with
  | '*' :: r => precisionPart { d with width := some .fromArg } r false
  | _ => match count cs with
    | none => (d, [])
    | some (w, r) =>
      precisionPart { d with width := w.map .given, misplaced := afterIndex && w.isSome } r
        afterIndex

/-- The pieces of a template. -/
def pieces : List Char → List Piece
  | [] => []
  | '%' :: r =>
    let (d, rest) := directive r
    if _h : rest.length ≤ r.length then .directive d :: pieces rest else [.directive d]
  | c :: r =>
    let t := r.takeWhile (· != '%')
    .text (c :: t) :: pieces (r.drop t.length)
termination_by cs => cs.length
decreasing_by all_goals simp only [List.length_cons, List.length_drop]; omega

/-- The settings a directive formats with, once widths and precisions are known. `sharpV` is the
`#` flag as the verb `v` reads it. -/
structure Settings where
  plus : Bool := false
  minus : Bool := false
  sharp : Bool := false
  sharpV : Bool := false
  zero : Bool := false
  space : Bool := false
  width : Option Nat := none
  precision : Option Nat := none
  deriving Inhabited

/-- Pads a text to the width: on the left with spaces (or zeros if asked), or on the right with
spaces under `-`. -/
def Settings.pad (s : Settings) (text : String) : String :=
  match s.width with
  | some w =>
    if text.length < w then
      if s.minus then text.pushn ' ' (w - text.length)
      else "".pushn (if s.zero then '0' else ' ') (w - text.length) ++ text
    else text
  | none => text

/-- The digits of a whole number in a base, upper-case letters if asked. -/
def inBase (base : Nat) (upper : Bool) (n : Nat) : String :=
  let ds := Nat.toDigits base n
  String.ofList (if upper then ds.map Char.toUpper else ds)

/-- A whole number in a base with sign, precision (least number of digits), zero padding and the
prefix `#` asks for. -/
def formatInteger (s : Settings) (n : Int) (base : Nat) (upper : Bool) (verb : Char) : String :=
  let negative := n < 0
  let u := n.natAbs
  match s.precision with
  | some 0 =>
    if u = 0 then { s with zero := false }.pad "" else go negative u
  | _ => go negative u
where
  go (negative : Bool) (u : Nat) : String :=
    let digits := inBase base upper u
    let least := match s.precision with
      | some p => p
      | none =>
        if s.zero ∧ !s.minus ∧ s.width.isSome then
          s.width.getD 0 - (if negative ∨ s.plus ∨ s.space then 1 else 0)
        else 0
    let digits := String.ofList (List.replicate (least - digits.length) '0') ++ digits
    let digits :=
      if s.sharp then
        match base with
        | 2 => "0b" ++ digits
        | 8 => if digits.startsWith "0" then digits else "0" ++ digits
        | 16 => (if upper then "0X" else "0x") ++ digits
        | _ => digits
      else digits
    let digits := if verb = 'O' then "0o" ++ digits else digits
    let sign := if negative then "-" else if s.plus then "+" else if s.space then " " else ""
    { s with zero := false }.pad (sign ++ digits)

/-- The `#` form of a number's text under a verb: it always has a point, and under `g`, `G` and
`x` trailing zeros fill it to as many characters from the first nonzero one as the precision
asks (six when none is given); an exponent part is kept at the end. -/
def sharpen (verb : Char) (precision : Option Nat) (num : List Char) : String :=
  let target : Int := match verb with
    | 'v' | 'g' | 'G' | 'x' => (precision.getD 6 : Nat)
    | _ => 0
  let hex := verb = 'x' ∨ verb = 'X'
  -- splits off the exponent part and counts the characters from the first that is not zero
  let rec walk : List Char → Bool → Bool → Int → List Char × List Char × Bool × Int
    | [], point, _, left => ([], [], point, left)
    | c :: rest, point, seen, left =>
      if c = '.' then
        let (body, tail, point, left) := walk rest true seen left
        (c :: body, tail, point, left)
      else if c = 'p' ∨ c = 'P' ∨ (!hex ∧ (c = 'e' ∨ c = 'E')) then ([], c :: rest, point, left)
      else
        let seen := seen || c != '0'
        let (body, tail, point, left) := walk rest point seen (if seen then left - 1 else left)
        (c :: body, tail, point, left)
  let (body, tail, point, left) := walk num false false target
  let (body, left) :=
    if point then (body, left)
    else (body ++ ['.'], if body = ['0'] then left - 1 else left)
  String.ofList (body ++ List.replicate left.toNat '0' ++ tail)

/-- A double in a layout, with sign and padding; `layout` writes the digits of its magnitude. -/
def formatFloat (s : Settings) (verb : Char) (x : Float) (layout : Decimal.Binary → String) :
    String :=
  let negative := x.toBits >>> 63 == 1
  if x.isNaN then
    { s with zero := false }.pad (if s.plus then "+NaN" else if s.space then " NaN" else "NaN")
  else
    let body :=
      if x.isInf then "Inf" else layout (Decimal.Binary.ofBits x.toBits)
    let body := if s.sharp ∧ verb ≠ 'b' ∧ !x.isInf then sharpen verb s.precision body.toList
      else body
    let sign := if negative then "-" else if s.plus then "+" else if s.space then " " else ""
    if x.isInf then
      -- an infinity always shows its sign
      { s with zero := false }.pad ((if sign.isEmpty then "+" else sign) ++ body)
    else if s.zero ∧ !s.minus ∧ (s.width.getD 0) > sign.length + body.length then
      sign.pushn '0' (s.width.getD 0 - sign.length - body.length) ++ body
    else s.pad (sign ++ body)

/-- The `g` layout: scientific when the exponent is below `-4` or at least the precision (six for
the shortest digits), positional otherwise; trailing zeros are not written. Zero has no digits and
counts as the exponent `-1`, so it is always positional. -/
def general (prec : Option Nat) (mark : Char) (b : Decimal.Binary) : String :=
  let (d, eprec) := match prec with
    | some p =>
      let p := max p 1
      let d := b.significantDigits p
      let eprec := if d.digits.length < p ∧ (d.point ≤ d.digits.length) then d.digits.length else p
      (d, eprec)
    | none => (b.shortestDigits, 6)
  let exp := d.point - 1
  if exp < -4 ∨ (eprec : Int) ≤ exp then d.scientific (d.digits.length - 1) mark
  else d.positional (d.digits.length - d.point).toNat

/-- The binary layout: the whole mantissa, `p`, and the signed power of two it is scaled by. -/
def binaryLayout (b : Decimal.Binary) : String :=
  toString b.mantissa ++ "p" ++ (if 0 ≤ b.exponent then "+" else "") ++ toString b.exponent

/-- An exponent of at least two digits, with its sign. -/
def exponentText (e : Int) : String :=
  let ds := toString e.natAbs
  (if e < 0 then "-" else "+") ++ (if ds.length < 2 then "0" ++ ds else ds)

/-- The hexadecimal layout: `0x`, the leading bit, a point and the fraction in hex digits (all its
digits without trailing zeros, or rounded half to even to the precision), `p` and the binary
exponent. The mantissa is normalised so that its leading bit is one, unless it is zero. -/
def hexLayout (prec : Option Nat) (upper : Bool) (b : Decimal.Binary) : String :=
  -- `mant * 2 ^ (exp - 60)` with the leading bit of `mant` at bit 60
  let start : Nat × Int :=
    if b.mantissa = 0 then (0, 0)
    else
      let shift := 60 - Nat.log2 b.mantissa
      (b.mantissa * Nat.pow 2 shift, b.exponent + 52 - ((shift : Int) - 8))
  let (mant, exp) := start
  let (mant, exp) : Nat × Int := match prec with
    | some p =>
      if p < 15 then
        let drop := 60 - 4 * p
        let extra := mant * Nat.pow 2 (4 * p) % Nat.pow 2 60
        let kept := mant / Nat.pow 2 drop
        let kept := if extra ||| (kept % 2) > Nat.pow 2 59 then kept + 1 else kept
        let mant := kept * Nat.pow 2 drop
        if mant ≥ Nat.pow 2 61 then (mant / 2, exp + 1) else (mant, exp)
      else (mant, exp)
    | none => (mant, exp)
  let digit (n : Nat) : Char :=
    let c := Nat.digitChar n
    if upper then c.toUpper else c
  let fraction := mant % Nat.pow 2 60
  let all := (List.range 15).map fun (i : Nat) => fraction / Nat.pow 2 (56 - 4 * i) % 16
  let shown := match prec with
    | none => (all.reverse.dropWhile (· = 0)).reverse
    | some p => (all ++ List.replicate (p - 15) 0).take p
  let point := if shown.isEmpty then "" else "." ++ String.ofList (shown.map digit)
  "0" ++ (if upper then "X" else "x") ++ (digit (mant / Nat.pow 2 60 % 2)).toString ++ point ++
    (if upper then "P" else "p") ++ exponentText exp

/-- The character with a code, or U+FFFD where no character has it. -/
def codePoint (n : Int) : Char :=
  if 0 ≤ n ∧ n < 0x110000 ∧ ¬(0xD800 ≤ n ∧ n < 0xE000) then Char.ofNat n.toNat else '�'

/-- A whole number as an unsigned 64-bit word. -/
def word (n : Int) : Nat :=
  (n % Nat.pow 2 64).toNat

/-- The `U+` form of a code: at least four hex digits (more if the precision asks), and under `#`
the character itself between single quotes when it is printable. -/
def unicodeText (s : Settings) (n : Int) : String :=
  let u := word n
  let h := inBase 16 true u
  let least := max 4 (s.precision.getD 0)
  let code := "U+" ++ String.ofList (List.replicate (least - h.length) '0') ++ h
  let shown :=
    if s.sharp ∧ u < 0x110000 ∧ ¬(0xD800 ≤ u ∧ u < 0xE000) ∧ Text.isPrintable (Char.ofNat u) then
      code ++ " '" ++ (Char.ofNat u).toString ++ "'"
    else code
  { s with zero := false }.pad shown

/-- The hex digits of the bytes of a text: at most `precision` bytes, `#` puts `0x` in front, and a
space flag separates the bytes (each with its own `0x` under `#`). -/
def bytesHex (s : Settings) (upper : Bool) (t : String) : String :=
  let bytes := t.toUTF8.toList
  let bytes := match s.precision with
    | some p => bytes.take p
    | none => bytes
  let prefixText := if upper then "0X" else "0x"
  let pair (b : UInt8) : String :=
    let h := inBase 16 upper b.toNat
    if h.length < 2 then "0" ++ h else h
  let body :=
    if bytes.isEmpty then ""
    else if s.space then
      " ".intercalate (bytes.map fun b => (if s.sharp then prefixText else "") ++ pair b)
    else (if s.sharp then prefixText else "") ++ String.join (bytes.map pair)
  s.pad body

/-- The name of an argument's type, cut to the precision and padded. -/
def typeText (s : Settings) (a : Arg) : String :=
  match s.precision with
  | some p => s.pad (String.ofList (a.typeName.toList.take p))
  | none => s.pad a.typeName

/-- An argument under a verb that suits it, or `none`. -/
def formatArg (s : Settings) (verb : Char) : Arg → Option String
  | a@(.int n) =>
    match verb with
    | 'v' | 'd' => some (formatInteger s n 10 false verb)
    | 'b' => some (formatInteger s n 2 false verb)
    | 'o' | 'O' => some (formatInteger s n 8 false verb)
    | 'x' => some (formatInteger s n 16 false verb)
    | 'X' => some (formatInteger s n 16 true verb)
    | 'c' => some (s.pad (codePoint n).toString)
    | 'q' => some (s.pad (Text.quoteChar s.plus (codePoint n)))
    | 'U' => some (unicodeText s n)
    | 'T' => some (typeText s a)
    | _ => none
  | a@(.float x) =>
    match verb with
    | 'v' | 'g' => some (formatFloat s verb x (general s.precision 'e'))
    | 'G' => some (formatFloat s verb x (general s.precision 'E'))
    | 'e' | 'E' =>
      let p := s.precision.getD 6
      some (formatFloat s verb x fun b => (b.significantDigits (p + 1)).scientific p verb)
    | 'f' | 'F' =>
      let p := s.precision.getD 6
      some (formatFloat s verb x fun b => (b.placesDigits p).positional p)
    | 'b' => some (formatFloat s verb x binaryLayout)
    | 'x' => some (formatFloat s verb x (hexLayout s.precision false))
    | 'X' => some (formatFloat s verb x (hexLayout s.precision true))
    | 'T' => some (typeText s a)
    | _ => none
  | a@(.str t) =>
    let cut := match s.precision with
      | some p => String.ofList (t.toList.take p)
      | none => t
    match verb with
    | 'v' => some (s.pad (if s.sharpV then Text.quote cut else cut))
    | 's' => some (s.pad cut)
    | 'q' =>
      let quoted := match (if s.sharp then Text.backquoted cut else none) with
        | some raw => raw
        | none => if s.plus then Text.quoteAscii cut else Text.quote cut
      some (s.pad quoted)
    | 'x' => some (bytesHex s false t)
    | 'X' => some (bytesHex s true t)
    | 'T' => some (typeText s a)
    | _ => none
  | a@(.bool b) =>
    match verb with
    | 't' | 'v' => some (s.pad (if b then "true" else "false"))
    | 'T' => some (typeText s a)
    | _ => none
  | .absent =>
    match verb with
    | 'v' | 'T' => some (s.pad "<nil>")
    | _ => none

/-- An argument under a verb: its formatted text, or the text of a verb that does not suit it. -/
def formatWith (s : Settings) (verb : Char) (a : Arg) : String :=
  match formatArg s verb a, a with
  | some t, _ => t
  | none, .absent => "%!" ++ verb.toString ++ "(<nil>)"
  | none, _ =>
    "%!" ++ verb.toString ++ "(" ++ a.typeName ++ "=" ++ ((formatArg s 'v' a).getD "") ++ ")"

/-- Where formatting stands: the text so far, the position of the next argument, and whether an
index has been written, after which arguments left over are not listed. -/
structure Progress where
  out : String := ""
  next : Nat := 0
  reordered : Bool := false
  deriving Inhabited

/-- Moves to the argument an index names, if it names one of the `n` arguments; otherwise the
directive's argument is spoiled (`good` turns false). -/
def Progress.jump (p : Progress) (n : Nat) (good : Bool) : Option Index → Progress × Bool
  | none => (p, good)
  | some (some k) =>
    if 0 ≤ k ∧ k < n then ({ p with next := k.toNat, reordered := true }, good)
    else ({ p with reordered := true }, false)
  | some none => ({ p with reordered := true }, false)

/-- Takes a width or precision from the next argument: the number if it is a whole number within
`countLimit` either way, and the position after it. -/
def countArg (args : List Arg) (next : Nat) : Option Int × Nat :=
  match args[next]? with
  | some (.int v) => (if countLimit < v.natAbs then none else some v, next + 1)
  | some _ => (none, next + 1)
  | none => (none, next)

/-- Formats one directive: the progress after it, and whether the template ended inside it. -/
def runDirective (d : Directive) (args : List Arg) (p : Progress) : Progress × Bool :=
  let s : Settings := { plus := d.plus, minus := d.minus, sharp := d.sharp,
                        zero := d.zero && !d.minus, space := d.space }
  let (p, good) := p.jump args.length (!d.misplaced) d.widthIndex
  let (s, p) : Settings × Progress := match d.width with
    | some (.given n) => ({ s with width := some n }, p)
    | some .fromArg =>
      match countArg args p.next with
      | (some n, next) =>
        if n < 0 then ({ s with width := some n.natAbs, minus := true, zero := false },
                       { p with next := next })
        else ({ s with width := some n.toNat }, { p with next := next })
      | (none, next) => (s, { p with next := next, out := p.out ++ "%!(BADWIDTH)" })
    | none => (s, p)
  let (p, good) := p.jump args.length good d.precisionIndex
  let (s, p) : Settings × Progress := match d.precision with
    | some (.given n) => ({ s with precision := some n }, p)
    | some .fromArg =>
      match countArg args p.next with
      | (some n, next) =>
        if n < 0 then (s, { p with next := next, out := p.out ++ "%!(BADPREC)" })
        else ({ s with precision := some n.toNat }, { p with next := next })
      | (none, next) => (s, { p with next := next, out := p.out ++ "%!(BADPREC)" })
    | none => (s, p)
  let (p, good) := p.jump args.length good d.verbIndex
  match d.verb with
  | none => ({ p with out := p.out ++ "%!(NOVERB)" }, true)
  | some '%' => ({ p with out := p.out.push '%' }, false)
  | some v =>
    if !good then ({ p with out := p.out ++ "%!" ++ v.toString ++ "(BADINDEX)" }, false)
    else match args[p.next]? with
      | none => ({ p with out := p.out ++ "%!" ++ v.toString ++ "(MISSING)" }, false)
      | some a =>
        -- under `v` (and `w`) the flags `+` and `#` describe the layout of compound values only
        let s := if v = 'v' ∨ v = 'w' then { s with sharpV := s.sharp, sharp := false, plus := false }
          else s
        ({ p with out := p.out ++ formatWith s v a, next := p.next + 1 }, false)

/-- Formats the pieces of a template in turn, until one ends it. -/
def runPieces (args : List Arg) : List Piece → Progress → Progress
  | [], p => p
  | .text t :: rest, p => runPieces args rest { p with out := p.out ++ String.ofList t }
  | .directive d :: rest, p =>
    match runDirective d args p with
    | (p, true) => p
    | (p, false) => runPieces args rest p

/-- The arguments left over, as listed at the end. -/
def extra (left : List Arg) : String :=
  "%!(EXTRA " ++ ", ".intercalate (left.map fun a =>
    match a with
    | .absent => "<nil>"
    | _ => a.typeName ++ "=" ++ ((formatArg {} 'v' a).getD "")) ++ ")"

/-- **Formatting** a template with its arguments. Arguments left over are listed unless an index
was written. -/
def format (template : String) (args : List Arg) : String :=
  let p := runPieces args (pieces template.toList) {}
  if !p.reordered ∧ p.next < args.length then p.out ++ extra (args.drop p.next) else p.out

end Lox.Template
