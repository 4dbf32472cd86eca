import MiniLox.Grammar.Program

/-!
Reading by position. The same recursive descent, but over a position in a list of
tokens that stays as it is: what is next is looked up at the position, what has been
passed is looked up just before it, and nothing but the marks for the end of the text
keeps the position inside the list. A look-up outside of the list is possible, as one
before its first token, which finds its last.

All look-ups are noted, and so are the positions before and after each declaration.
-/

namespace MiniLox.Grammar

/-- Why reading stops. A mismatch has been reported where it was found; `endless` is a loop that
has not come to an end within its rounds. -/
inductive Stop where
  | mismatch
  | outOfBounds (index : Int)
  | endless
  | tooDeep

/-- What is noted: a look-up, with the position at that time, and a declaration with the
positions before and after it. -/
inductive Event where
  | lookUp (current : Nat) (index : Int)
  | declaration (start stop : Nat)

/-- The position of the next token, and what has been reported and noted on the way there. -/
structure Cursor where
  current : Nat := 0
  reported : List SyntaxError := []
  events : List Event := []

def Cursor.note (c : Cursor) (e : Event) : Cursor := { c with events := e :: c.events }

/-- A step of reading. What has been reported and noted is kept when it stops. -/
abbrev Reading (α : Type) := ExceptT Stop (StateM Cursor) α

namespace Reading

variable (tokens : List Token) (rounds : Nat) {α : Type}

/-! ### Tokens -/

/-- The token at an index. Negative indices count from the end of the list. -/
def tokenAt? (index : Int) : Option Token :=
  if 0 ≤ index then tokens[index.toNat]?
  else if -index ≤ tokens.length then tokens[(tokens.length + index).toNat]?
  else none

def lookUp (index : Int) : Reading Token := do
  modify fun c => c.note (.lookUp c.current index)
  match tokenAt? tokens index with
  | some t => return t
  | none => throw (.outOfBounds index)

def peek : Reading Token := do
  lookUp tokens (← get).current

def previous : Reading Token := do
  lookUp tokens ((← get).current - 1)

def isAtEnd : Reading Bool := do
  return (← peek tokens).kind == .endOfText

def check (k : Kind) : Reading Bool := do
  if ← isAtEnd tokens then return false
  return (← peek tokens).kind == k

/-- The position moves on, but not past the end. -/
def advance : Reading Token := do
  unless ← isAtEnd tokens do
    modify fun c => { c with current := c.current + 1 }
  previous tokens

/-- The next token is taken if it has one of the kinds. -/
def matchAny : List Kind → Reading Bool
  | [] => return false
  | k :: ks => do
    if ← check tokens k then
      let _ ← advance tokens
      return true
    matchAny ks

/-- A mistake at a token is reported and stops the reading. -/
def error (token : Token) (expected : Expectation) : Reading α := do
  modify fun c => { c with reported := c.reported ++ [{ token := token, expected := expected }] }
  throw .mismatch

def fail (expected : Expectation) : Reading α := do
  error (← peek tokens) expected

def consume (k : Kind) (expected : Expectation) : Reading Token := do
  if ← check tokens k then advance tokens
  else fail tokens expected

/-! ### Expressions -/

/-- The expression so far becomes the left operand as long as there are operators. -/
def binaryRest (operators : List Kind) (operand : Reading Expr) :
    (rounds : Nat) → (left : Expr) → Reading Expr
  | 0, _ => throw .endless
  | rounds + 1, left => do
    if ← matchAny tokens operators then
      let operator ← previous tokens
      let right ← operand
      binaryRest operators operand rounds (.binary left operator right)
    else return left

def binary (operators : List Kind) (operand : Reading Expr) : Reading Expr := do
  binaryRest tokens operators operand rounds (← operand)

def binaryOver (unary : Reading Expr) : Reading Expr :=
  binary tokens rounds [.bangEqual, .equalEqual] <|
    binary tokens rounds [.greater, .greaterEqual, .less, .lessEqual] <|
      binary tokens rounds [.minus, .plus] <|
        binary tokens rounds [.slash, .star] unary

def primaryOver (expression : Reading Expr) : Reading Expr := do
  if ← matchAny tokens [.falseWord] then return .literal (.boolean false)
  if ← matchAny tokens [.trueWord] then return .literal (.boolean true)
  if ← matchAny tokens [.nilWord] then return .literal .nil
  if ← matchAny tokens [.number, .string] then
    return .literal ((← previous tokens).literal.getD .nil)
  if ← matchAny tokens [.identifier] then return .name (← previous tokens)
  if ← matchAny tokens [.leftParen] then
    let inner ← expression
    let _ ← consume tokens .rightParen .closingParen
    return .group inner
  fail tokens .expression

def unary : (levels : Nat) → Reading Expr
  | 0 => throw .tooDeep
  | levels + 1 => do
    if ← matchAny tokens [.bang, .minus] then
      let operator ← previous tokens
      return .unary operator (← unary levels)
    primaryOver tokens (binaryOver tokens rounds (unary levels))

def expression (levels : Nat) : Reading Expr :=
  binaryOver tokens rounds (unary tokens rounds levels)

/-! ### Statements -/

def varDeclaration (levels : Nat) : Reading Stmt := do
  let name ← consume tokens .identifier .variableName
  let _ ← consume tokens .equal .equalAfterName
  let initializer ← expression tokens rounds levels
  let _ ← consume tokens .semicolon .semicolonAfterDeclaration
  return { form := .var name, expr := initializer }

def printStatement (levels : Nat) : Reading Stmt := do
  let value ← expression tokens rounds levels
  let _ ← consume tokens .semicolon .semicolonAfterValue
  return { form := .print, expr := value }

def expressionStatement (levels : Nat) : Reading Stmt := do
  let e ← expression tokens rounds levels
  let _ ← consume tokens .semicolon .semicolonAfterExpression
  return { form := .expression, expr := e }

def statement (levels : Nat) : Reading Stmt := do
  if ← matchAny tokens [.printWord] then printStatement tokens rounds levels
  else expressionStatement tokens rounds levels

/-- Tokens are passed over up to a place where a statement probably starts. -/
def passOver : (rounds : Nat) → Reading Unit
  | 0 => throw .endless
  | rounds + 1 => do
    if ← isAtEnd tokens then return
    if (← previous tokens).kind == .semicolon then return
    if (← peek tokens).kind.startsStatement then return
    let _ ← advance tokens
    passOver rounds

def synchronize : Reading Unit := do
  let _ ← advance tokens
  passOver tokens rounds

/-- What a stop leads to: after a mismatch reading goes on with the next statement. -/
def recover : Stop → Reading (Option Stmt)
  | .mismatch => do
    synchronize tokens rounds
    return none
  | stop => throw stop

def declared (levels : Nat) : Reading Stmt := do
  if ← matchAny tokens [.varWord] then varDeclaration tokens rounds levels
  else statement tokens rounds levels

/-- A statement, or nothing if there is a mistake in it. -/
def declaration (levels : Nat) : Reading (Option Stmt) := do
  let start := (← get).current
  let found ← tryCatchThe Stop (do return some (← declared tokens rounds levels))
    (recover tokens rounds)
  modify fun c => c.note (.declaration start c.current)
  return found

def statements (levels : Nat) : (rounds : Nat) → (found : List Stmt) → Reading (List Stmt)
  | 0, _ => throw .endless
  | more + 1, found => do
    if ← isAtEnd tokens then return found
    match ← declaration tokens rounds levels with
    | some s => statements levels more (found ++ [s])
    | none => statements levels more found

/-- All of the tokens are read, from the first one on. -/
def parse (levels : Nat) : Reading (List Stmt) := statements tokens rounds levels rounds []

end Reading

end MiniLox.Grammar
