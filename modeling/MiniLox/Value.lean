import MiniLox.Decimal.Notation

/-!
Runtime values: nil, the two booleans, binary64 numbers and strings. Values
of different types are never equal, and nothing is converted silently.
-/

namespace MiniLox

inductive Value where
  | nil
  | boolean (b : Bool)
  | number (x : Float)
  | string (s : String)

/-- The type of a value, which is all that decides whether an operator
applies to it. -/
inductive ValueType where
  | nil
  | boolean
  | number
  | string
deriving DecidableEq, Repr

def ValueType.name : ValueType → String
  | .nil => "nil"
  | .boolean => "boolean"
  | .number => "number"
  | .string => "string"

namespace Value

def type : Value → ValueType
  | nil => .nil
  | boolean _ => .boolean
  | number _ => .number
  | string _ => .string

@[simp] theorem type_nil : nil.type = .nil := rfl
@[simp] theorem type_boolean (b : Bool) : (boolean b).type = .boolean := rfl
@[simp] theorem type_number (x : Float) : (number x).type = .number := rfl
@[simp] theorem type_string (s : String) : (string s).type = .string := rfl

def isNumber (v : Value) : Bool := v.type == .number

def isString (v : Value) : Bool := v.type == .string

/-- Only nil and false are falsey. -/
def isTruthy : Value → Bool
  | nil => false
  | boolean b => b
  | _ => true

/-- Equality of values without conversion. Numbers compare as numbers: the
two zeros are equal, and what is not a number differs from itself. -/
def equals : Value → Value → Bool
  | nil, nil => true
  | boolean a, boolean b => a == b
  | number x, number y => x == y
  | string s, string t => s == t
  | _, _ => false

def ofTruth (b : Bool) : Float := if b then 1.0 else 0.0

/-- Equality of literals as parts of a tree, where a boolean also equals the
number that stands for it. -/
def coincides : Value → Value → Bool
  | boolean b, number x => ofTruth b == x
  | number x, boolean b => x == ofTruth b
  | v, w => v.equals w

/-- The text of a value as a program prints it. An integer below the limit
has no point; any other number has the shortest text that identifies it. -/
def text : Value → String
  | nil => "nil"
  | boolean b => if b then "true" else "false"
  | number x =>
    match Binary64.integer? x with
    | some n => toString n
    | none => String.ofList (Binary64.text x)
  | string s => s

end Value

end MiniLox
