import MiniLox.Grammar.Rule

/-!
The grammar of expressions and statements. From the loosest level to the
tightest, all operators associating to the left:

    statement  = "var" NAME "=" expression ";" | "print" expression ";" | expression ";"
    expression = equality
    equality   = comparison (("!=" | "==") comparison)*
    comparison = term ((">" | ">=" | "<" | "<=") term)*
    term       = factor (("-" | "+") factor)*
    factor     = unary (("/" | "*") unary)*
    unary      = ("!" | "-") unary | primary
    primary    = NUMBER | STRING | "true" | "false" | "nil" | NAME | "(" expression ")"

The rules that call themselves are indexed by the levels of nesting that are
left: a sign before an operand and a parenthesis take one level each.
-/

namespace MiniLox.Grammar

open Rule

def literal (k : Kind) (value : Token → Value) : Rule Expr :=
  (kind k .expression).map fun t => .literal (value t)

def binaryOver (unary : Rule Expr) : Rule Expr :=
  chain Kind.isEquality <|
    chain Kind.isComparison <|
      chain Kind.isAdditive <|
        chain Kind.isMultiplicative unary

def grouped (expression : Rule Expr) : Rule Expr :=
  (kind .leftParen .expression).andThen fun _ =>
    expression.andThen fun inner =>
      (kind .rightParen .closingParen).map fun _ => .group inner

def primaryOver (expression : Rule Expr) : Rule Expr :=
  byHead fun
    | some .falseWord => literal .falseWord fun _ => .boolean false
    | some .trueWord => literal .trueWord fun _ => .boolean true
    | some .nilWord => literal .nilWord fun _ => .nil
    | some .number => literal .number fun t => t.literal.getD .nil
    | some .string => literal .string fun t => t.literal.getD .nil
    | some .identifier => (kind .identifier .expression).map .name
    | some .leftParen => grouped expression
    | _ => .none .expression

def signed (operand : Rule Expr) : Rule Expr :=
  (token Kind.isUnary .expression).andThen fun operator =>
    operand.map fun right => .unary operator right

/-- An operand with any number of signs, within some levels of nesting. -/
def unary : (levels : Nat) → Rule Expr
  | 0 => .tooDeep
  | levels + 1 =>
    byHead fun k =>
      if k.any Kind.isUnary then signed (unary levels)
      else primaryOver (binaryOver (unary levels))

def expression (levels : Nat) : Rule Expr := binaryOver (unary levels)

/-- An expression and the semicolon that closes its statement. -/
def closed (levels : Nat) (form : Form) (expected : Expectation) : Rule Stmt :=
  (expression levels).andThen fun e =>
    (kind .semicolon expected).map fun _ => { form := form, expr := e }

/-- A declaration of a variable, which always has a value. -/
def varDeclaration (levels : Nat) : Rule Stmt :=
  (kind .varWord .expression).andThen fun _ =>
    (kind .identifier .variableName).andThen fun name =>
      (kind .equal .equalAfterName).andThen fun _ =>
        closed levels (.var name) .semicolonAfterDeclaration

def printStatement (levels : Nat) : Rule Stmt :=
  (kind .printWord .expression).andThen fun _ => closed levels .print .semicolonAfterValue

def statement (levels : Nat) : Rule Stmt :=
  byHead fun
    | some .varWord => varDeclaration levels
    | some .printWord => printStatement levels
    | _ => closed levels .expression .semicolonAfterExpression

end MiniLox.Grammar
