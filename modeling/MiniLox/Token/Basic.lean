import MiniLox.Value

/-!
Tokens, the smallest units of a program text. A token knows its kind, the
exact text it covers, the value that the text denotes if it is a literal, and
where it stands: the line on which it ends, and the column at which it
starts, counted in characters from the start of the line it starts on.
-/

namespace MiniLox

inductive Kind where
  | leftParen | rightParen | leftBrace | rightBrace
  | comma | dot | minus | plus | semicolon | slash | star
  | bang | bangEqual | equal | equalEqual
  | greater | greaterEqual | less | lessEqual
  | identifier | string | number
  | andWord | classWord | elseWord | falseWord | funWord | forWord | ifWord | nilWord
  | orWord | printWord | returnWord | superWord | thisWord | trueWord | varWord | whileWord
  | endOfText
deriving DecidableEq, Repr

namespace Kind

def name : Kind → String
  | leftParen => "LEFT_PAREN"
  | rightParen => "RIGHT_PAREN"
  | leftBrace => "LEFT_BRACE"
  | rightBrace => "RIGHT_BRACE"
  | comma => "COMMA"
  | dot => "DOT"
  | minus => "MINUS"
  | plus => "PLUS"
  | semicolon => "SEMICOLON"
  | slash => "SLASH"
  | star => "STAR"
  | bang => "BANG"
  | bangEqual => "BANG_EQUAL"
  | equal => "EQUAL"
  | equalEqual => "EQUAL_EQUAL"
  | greater => "GREATER"
  | greaterEqual => "GREATER_EQUAL"
  | less => "LESS"
  | lessEqual => "LESS_EQUAL"
  | identifier => "IDENTIFIER"
  | string => "STRING"
  | number => "NUMBER"
  | andWord => "AND"
  | classWord => "CLASS"
  | elseWord => "ELSE"
  | falseWord => "FALSE"
  | funWord => "FUN"
  | forWord => "FOR"
  | ifWord => "IF"
  | nilWord => "NIL"
  | orWord => "OR"
  | printWord => "PRINT"
  | returnWord => "RETURN"
  | superWord => "SUPER"
  | thisWord => "THIS"
  | trueWord => "TRUE"
  | varWord => "VAR"
  | whileWord => "WHILE"
  | endOfText => "EOF"

/-- The kinds are numbered from one in the order of their declaration. -/
def ordinal (k : Kind) : Nat := k.ctorIdx + 1

def keywords : List (String × Kind) :=
  [("and", andWord), ("class", classWord), ("else", elseWord), ("false", falseWord),
    ("for", forWord), ("fun", funWord), ("if", ifWord), ("nil", nilWord), ("or", orWord),
    ("print", printWord), ("return", returnWord), ("super", superWord), ("this", thisWord),
    ("true", trueWord), ("var", varWord), ("while", whileWord)]

def ofWord (word : String) : Kind := (keywords.lookup word).getD identifier

def isEquality (k : Kind) : Bool := k == bangEqual || k == equalEqual

def isComparison (k : Kind) : Bool :=
  k == greater || k == greaterEqual || k == less || k == lessEqual

def isAdditive (k : Kind) : Bool := k == minus || k == plus

def isMultiplicative (k : Kind) : Bool := k == slash || k == star

def isUnary (k : Kind) : Bool := k == bang || k == minus

/-- The keywords that start a statement of some kind, in this language or in
one that it may grow into. -/
def startsStatement (k : Kind) : Bool :=
  k == classWord || k == funWord || k == varWord || k == forWord || k == ifWord
    || k == whileWord || k == printWord || k == returnWord

end Kind

/-- A token. Positions are integers because a token made by hand may stand
anywhere; those of a scanned text are never negative. -/
structure Token where
  kind : Kind
  lexeme : String
  literal : Option Value := none
  line : Int
  column : Int := 0

namespace Token

def text (t : Token) : String := s!"{t.kind.name} {t.lexeme} {t.line}"

end Token

end MiniLox
