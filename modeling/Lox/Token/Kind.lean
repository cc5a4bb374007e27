/-!
# Token kinds

The kinds of token the scanner produces, with their names, their numeric codes, the reserved
words, and the three operator classes that the parser and the evaluator test.
-/

namespace Lox

/-- The kind of a token. `unknown` stands for a kind outside the language, which only a token
list built by hand can carry. -/
inductive TokenKind where
  | illegal | eof
  | leftParen | rightParen | leftBrace | rightBrace | comma | dot | minus | plus | semicolon
  | slash | star
  | bang | bangEqual | equal | equalEqual | greater | greaterEqual | less | lessEqual
  | identifier | string | number
  | andWord | classWord | elseWord | falseWord | funWord | forWord | ifWord | nilWord | orWord
  | printWord | returnWord | superWord | thisWord | trueWord | varWord | whileWord
  | unknown
  deriving Repr, DecidableEq, Inhabited

namespace TokenKind

/-- Every kind of the language, in the order of its codes from `-2`. -/
def all : List TokenKind :=
  [illegal, eof, leftParen, rightParen, leftBrace, rightBrace, comma, dot, minus, plus, semicolon,
    slash, star, bang, bangEqual, equal, equalEqual, greater, greaterEqual, less, lessEqual,
    identifier, string, number, andWord, classWord, elseWord, falseWord, funWord, forWord, ifWord,
    nilWord, orWord, printWord, returnWord, superWord, thisWord, trueWord, varWord, whileWord]

/-- The kind with a numeric code: codes run from `-2` for `illegal` through the list `all`; any
other code is `unknown`. -/
def ofCode (code : Int) : TokenKind :=
  if code < -2 then unknown else (all[(code + 2).toNat]?).getD unknown

/-- The name a kind is written with. -/
def name : TokenKind → String
  | illegal => "ILLEGAL" | eof => "EOF"
  | leftParen => "LEFT_PAREN" | rightParen => "RIGHT_PAREN"
  | leftBrace => "LEFT_BRACE" | rightBrace => "RIGHT_BRACE"
  | comma => "COMMA" | dot => "DOT" | minus => "MINUS" | plus => "PLUS"
  | semicolon => "SEMICOLON" | slash => "SLASH" | star => "STAR"
  | bang => "BANG" | bangEqual => "BANG_EQUAL" | equal => "EQUAL" | equalEqual => "EQUAL_EQUAL"
  | greater => "GREATER" | greaterEqual => "GREATER_EQUAL"
  | less => "LESS" | lessEqual => "LESS_EQUAL"
  | identifier => "IDENTIFIER" | string => "STRING" | number => "NUMBER"
  | andWord => "AND" | classWord => "CLASS" | elseWord => "ELSE" | falseWord => "FALSE"
  | funWord => "FUN" | forWord => "FOR" | ifWord => "IF" | nilWord => "NIL" | orWord => "OR"
  | printWord => "PRINT" | returnWord => "RETURN" | superWord => "SUPER" | thisWord => "THIS"
  | trueWord => "TRUE" | varWord => "VAR" | whileWord => "WHILE"
  | unknown => "UNKNOWN"

/-- The kind written with a name, if the name is one of the language's. -/
def ofName? (s : String) : Option TokenKind :=
  all.find? (·.name == s)

/-- The operators that take one operand: `-` and `!`. -/
def isUnary : TokenKind → Bool
  | minus | bang => true
  | _ => false

/-- The arithmetic, comparison and equality operators that take two operands. -/
def isBinary : TokenKind → Bool
  | plus | minus | star | slash | greater | greaterEqual | less | lessEqual | equalEqual
  | bangEqual => true
  | _ => false

/-- The short-circuiting operators `and` and `or`. -/
def isLogical : TokenKind → Bool
  | andWord | orWord => true
  | _ => false

/-- The reserved words and their kinds. -/
def keywords : List (String × TokenKind) :=
  [("and", andWord), ("class", classWord), ("else", elseWord), ("false", falseWord),
    ("for", forWord), ("fun", funWord), ("if", ifWord), ("nil", nilWord), ("or", orWord),
    ("print", printWord), ("return", returnWord), ("super", superWord), ("this", thisWord),
    ("true", trueWord), ("var", varWord), ("while", whileWord)]

/-- The kind of a reserved word. -/
def keyword? (word : String) : Option TokenKind :=
  (keywords.find? (·.1 == word)).map (·.2)

end TokenKind

end Lox
