import MiniLox.Tree.Basic
import MiniLox.Text.Quoted

/-!
The debugging form of values, tokens and trees: every part by name, with
nothing left out. It is meant for the messages about trees that no text has.
-/

namespace MiniLox

/-- A value with its type in sight: a number always has a point or an
exponent, a string its quotes. -/
def Value.debug : Value → String
  | .nil => "None"
  | .boolean b => if b then "True" else "False"
  | .number x => String.ofList (Binary64.text x)
  | .string s => Text.quoted s

def debugParts (name : String) (parts : List (String × String)) : String :=
  name ++ "(" ++ ", ".intercalate (parts.map fun p => p.1 ++ "=" ++ p.2) ++ ")"

def Token.debug (t : Token) : String :=
  debugParts "Token"
    [("type", s!"<TokenType.{t.kind.name}: {t.kind.ordinal}>"),
      ("lexeme", Text.quoted t.lexeme),
      ("literal", (t.literal.getD .nil).debug),
      ("line", toString t.line),
      ("column", toString t.column)]

def Form.debug (expr : String) : Form → String
  | expression => debugParts "Expression" [("expression", expr)]
  | print => debugParts "Print" [("expression", expr)]
  | var name => debugParts "Var" [("name", name.debug), ("initializer", expr)]

def Expr.debug : Expr → String
  | literal v => debugParts "Literal" [("value", v.debug)]
  | group inner => debugParts "Grouping" [("expression", inner.debug)]
  | name token => debugParts "Variable" [("name", token.debug)]
  | unary operator right =>
    debugParts "Unary" [("operator", operator.debug), ("right", right.debug)]
  | binary left operator right =>
    debugParts "Binary"
      [("left", left.debug), ("operator", operator.debug), ("right", right.debug)]
  | misplaced form body => form.debug body.debug

end MiniLox
