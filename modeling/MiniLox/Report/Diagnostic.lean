import MiniLox.Evaluation
import MiniLox.Text.Template
import MiniLox.Value.Division

/-!
What can keep a run from ending normally, and what is said about it. A
*diagnostic* is a message for the author of a program, with the line and the
token it is about if there are any. A *fault* is a failure of the
interpreter itself or of whoever handed it a tree; it has a class and a text,
and is only shown as an internal error. Besides these a run can be asked to
exit, be interrupted, or meet a nesting too deep to follow.
-/

namespace MiniLox

open Text

structure Diagnostic where
  message : Message
  line : Option Int := none
  token : Option Token := none
  internal : Bool := false

def RuntimeError.diagnostic (e : RuntimeError) : Diagnostic where
  message := e.message
  line := some e.token.line
  token := some e.token

/-- A failure that no program text should cause. -/
inductive Fault where
  | unknownUnary (operator : Token)
  | unknownBinary (operator : Token)
  | notExpression (e : Expr)
  | notStatement (e : Expr)
  | nulInPath
  | lengthTooLarge
  | outOfMemory
  | lacking (name part : String)
  | division (fault : DivisionFault)
  | template (fault : Template.Fault)
  | other (name text : String)

namespace Fault

def name : Fault → String
  | unknownUnary _ => "TypeError"
  | unknownBinary _ => "TypeError"
  | notExpression _ => "TypeError"
  | notStatement _ => "TypeError"
  | nulInPath => "ValueError"
  | lengthTooLarge => "OverflowError"
  | outOfMemory => "MemoryError"
  | lacking _ _ => "AttributeError"
  | division _ => "TypeError"
  | template (.missing _) => "IndexError"
  | template .outOfRange => "IndexError"
  | template (.unnamed _) => "KeyError"
  | template (.noAttribute _) => "AttributeError"
  | template .noNumber => "TypeError"
  | template (.layout .tooWide) => "MemoryError"
  | template _ => "ValueError"
  | other name _ => name

def text : Fault → String
  | unknownUnary operator => "unknown unary operator " ++ operator.text
  | unknownBinary operator => "unknown binary operator " ++ operator.text
  | notExpression e => "cannot evaluate " ++ e.debug
  | notStatement e => "cannot execute " ++ e.debug
  | nulInPath => "embedded null byte"
  | lengthTooLarge => "cannot fit 'int' into an index-sized integer"
  | outOfMemory => ""
  | lacking name part => s!"'{name}' object has no attribute '{part}'"
  | division fault => fault.message
  | template fault => fault.message
  | other _ text => text

def diagnostic (f : Fault) : Diagnostic where
  message := [.plain "unknown error: '", .strong f.name, .plain ": ", .strong f.text, .plain "'"]
  internal := true

end Fault

inductive Raised where
  | complaint (d : Diagnostic)
  | fault (f : Fault)
  | tooDeep
  | interrupted
  | exit (code : Option Int)

def Raised.name : Raised → String
  | complaint _ => "LoxError"
  | fault f => f.name
  | tooDeep => "RecursionError"
  | interrupted => "KeyboardInterrupt"
  | exit _ => "SystemExit"

def Evaluation.Failure.raised : Evaluation.Failure → Raised
  | error e => .complaint e.diagnostic
  | unknownUnary operator => .fault (.unknownUnary operator)
  | unknownBinary operator => .fault (.unknownBinary operator)
  | notExpression e => .fault (.notExpression e)
  | tooDeep => .tooDeep

end MiniLox
