import MiniLox.Tree.Debug
import MiniLox.Text.Styled

/-!
The value of an expression. Operands are evaluated before their operator is
looked at, the left one first, and the first failure is the failure of the
whole. What a name means is given by a function, so nothing here depends on
how scopes are kept.

    +                 two numbers to a number, or two strings to a string
    - * /             two numbers to a number; a division by zero is no failure
    > >= < <=         two numbers to a boolean
    == !=             any two values to a boolean
    - before          a number to a number
    ! before          any value to a boolean
-/

namespace MiniLox

inductive RuntimeFault where
  | operand (got : ValueType)
  | operands (left right : ValueType)
  | addends (left right : ValueType)
  | undefined
deriving DecidableEq, Repr

/-- A failure that the program is to blame for, and the token that shows
it. -/
structure RuntimeError where
  token : Token
  fault : RuntimeFault

namespace RuntimeError

open Text

def message (e : RuntimeError) : Message :=
  let shown := Span.strong e.token.lexeme
  match e.fault with
  | .operand got => [.plain "operand of '", shown, .plain s!"' must be a number, got {got.name}"]
  | .operands left right =>
    [.plain "operands of '", shown,
      .plain s!"' must be numbers, got {left.name} and {right.name}"]
  | .addends left right =>
    [.plain "operands of '", shown,
      .plain s!"' must be two numbers or two strings, got {left.name} and {right.name}"]
  | .undefined => [.plain "undefined variable '", shown, .plain "'"]

end RuntimeError

namespace Evaluation

/-- Why an expression has no value. All but the first and the last of these
only arise for trees that are put together by hand. -/
inductive Failure where
  | error (e : RuntimeError)
  | unknownUnary (operator : Token)
  | unknownBinary (operator : Token)
  | notExpression (e : Expr)
  | tooDeep

def unary (operator : Token) (right : Value) : Except Failure Value :=
  match operator.kind with
  | .bang => .ok (.boolean !right.isTruthy)
  | .minus =>
    match right with
    | .number x => .ok (.number (-x))
    | _ => .error (.error { token := operator, fault := .operand right.type })
  | _ => .error (.unknownUnary operator)

def onNumbers (operator : Token) (apply : Float → Float → Value) (left right : Value) :
    Except Failure Value :=
  match left, right with
  | .number x, .number y => .ok (apply x y)
  | _, _ => .error (.error { token := operator, fault := .operands left.type right.type })

/-- The sum of two numbers, or two strings one after the other. -/
def add (operator : Token) (left right : Value) : Except Failure Value :=
  match left, right with
  | .number x, .number y => .ok (.number (x + y))
  | .string s, .string t => .ok (.string (s ++ t))
  | _, _ => .error (.error { token := operator, fault := .addends left.type right.type })

def binary (operator : Token) (left right : Value) : Except Failure Value :=
  match operator.kind with
  | .equalEqual => .ok (.boolean (left.equals right))
  | .bangEqual => .ok (.boolean !left.equals right)
  | .plus => add operator left right
  | .minus => onNumbers operator (fun x y => .number (x - y)) left right
  | .star => onNumbers operator (fun x y => .number (x * y)) left right
  | .slash => onNumbers operator (fun x y => .number (x / y)) left right
  | .greater => onNumbers operator (fun x y => .boolean (decide (x > y))) left right
  | .greaterEqual => onNumbers operator (fun x y => .boolean (decide (x ≥ y))) left right
  | .less => onNumbers operator (fun x y => .boolean (decide (x < y))) left right
  | .lessEqual => onNumbers operator (fun x y => .boolean (decide (x ≤ y))) left right
  | _ => .error (.unknownBinary operator)

def meaning (lookup : String → Option Value) (name : Token) : Except Failure Value :=
  match lookup name.lexeme with
  | some v => .ok v
  | none => .error (.error { token := name, fault := .undefined })

end Evaluation

open Evaluation in
/-- The value of an expression, evaluated within some levels of the tree. -/
def Expr.evaluate (lookup : String → Option Value) :
    Expr → (levels : Nat) → Except Evaluation.Failure Value
  | _, 0 => .error .tooDeep
  | literal v, _ + 1 => .ok v
  | group inner, levels + 1 => inner.evaluate lookup levels
  | name token, _ + 1 => meaning lookup token
  | unary operator right, levels + 1 => do
    let r ← right.evaluate lookup levels
    Evaluation.unary operator r
  | binary left operator right, levels + 1 => do
    let l ← left.evaluate lookup levels
    let r ← right.evaluate lookup levels
    Evaluation.binary operator l r
  | misplaced form body, _ + 1 => .error (.notExpression (.misplaced form body))

end MiniLox
