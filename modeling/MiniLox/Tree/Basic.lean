import MiniLox.Token.Basic

/-!
The trees of a program. A statement is an expression together with what is
done with its value, its *form*. Expressions that come out of a text are made
of the first five shapes; a tree that is put together by hand may also hold a
statement where an expression belongs, and such a part has no value.

`display` writes a tree in parenthesized form, operator first:
`print -(1 + 2) * 3;` is shown as `(print (* (- (group (+ 1 2))) 3))`.
-/

namespace MiniLox

/-- What a statement does with the value of its expression: drop it, print
it, or bind a name to it. -/
inductive Form where
  | expression
  | print
  | var (name : Token)

inductive Expr where
  | literal (value : Value)
  | group (inner : Expr)
  | name (token : Token)
  | unary (operator : Token) (right : Expr)
  | binary (left : Expr) (operator : Token) (right : Expr)
  | misplaced (form : Form) (body : Expr)

structure Stmt where
  form : Form
  expr : Expr

def parenthesized (parts : List String) : String := "(" ++ " ".intercalate parts ++ ")"

def Form.words : Form → List String
  | expression => ["expr"]
  | print => ["print"]
  | var name => ["var", name.lexeme]

namespace Expr

/-- A literal where a tree is shown. A string stands between quotes as it
is, for no string of a program holds a quote. -/
def displayLiteral : Value → String
  | .string s => "\"" ++ s ++ "\""
  | v => v.text

def display : Expr → String
  | literal v => displayLiteral v
  | group inner => parenthesized ["group", inner.display]
  | name token => token.lexeme
  | unary operator right => parenthesized [operator.lexeme, right.display]
  | binary left operator right =>
    parenthesized [operator.lexeme, left.display, right.display]
  | misplaced form body => parenthesized (form.words ++ [body.display])

/-- The number of nodes on the longest way down the tree. -/
def height : Expr → Nat
  | literal _ => 1
  | group inner => inner.height + 1
  | name _ => 1
  | unary _ right => right.height + 1
  | binary left _ right => max left.height right.height + 1
  | misplaced _ body => body.height + 1

end Expr

namespace Stmt

def toExpr (s : Stmt) : Expr := .misplaced s.form s.expr

def display (s : Stmt) : String := parenthesized (s.form.words ++ [s.expr.display])

def height (s : Stmt) : Nat := s.expr.height + 1

end Stmt

/-! ### Equality of trees

Two trees are the same if they have the same shape, the same tokens in the
same places of their texts, and literals that coincide. -/

def sameLiteral : Option Value → Option Value → Bool
  | none, none => true
  | some v, some w => v.coincides w
  | _, _ => false

def Token.same (t u : Token) : Bool :=
  t.kind == u.kind && t.lexeme == u.lexeme && sameLiteral t.literal u.literal
    && t.line == u.line && t.column == u.column

def Form.same : Form → Form → Bool
  | expression, expression => true
  | print, print => true
  | var a, var b => a.same b
  | _, _ => false

def Expr.same : Expr → Expr → Bool
  | literal v, literal w => v.coincides w
  | group a, group b => a.same b
  | name t, name u => t.same u
  | unary t a, unary u b => t.same u && a.same b
  | binary a t b, binary c u d => a.same c && t.same u && b.same d
  | misplaced f a, misplaced g b => f.same g && a.same b
  | _, _ => false

def Stmt.same (s t : Stmt) : Bool := s.form.same t.form && s.expr.same t.expr

def samePrograms : List Stmt → List Stmt → Bool
  | [], [] => true
  | s :: ss, t :: ts => s.same t && samePrograms ss ts
  | _, _ => false

end MiniLox
