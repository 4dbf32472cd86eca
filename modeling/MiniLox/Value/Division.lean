import MiniLox.Value

/-!
Division of any two values. A running program only divides numbers, and has
looked at their types before. Here nobody has: a boolean counts as the number
that stands for it, and a value that no number stands for cannot be divided or
divide. On numbers this is the division of a program, so a zero divisor is no
failure.
-/

namespace MiniLox

def ValueType.debugName : ValueType → String
  | .nil => "NoneType"
  | .boolean => "bool"
  | .number => "float"
  | .string => "str"

/-- Why one value cannot be divided by another: the dividend is no number while
the divisor is zero, or one of the two is no number. -/
inductive DivisionFault where
  | dividend (type : ValueType)
  | operands (left right : ValueType)
deriving DecidableEq, Repr

def DivisionFault.message : DivisionFault → String
  | dividend type => s!"must be real number, not {type.debugName}"
  | operands left right =>
    s!"unsupported operand type(s) for /: '{left.debugName}' and '{right.debugName}'"

namespace Value

def toNumber? : Value → Option Float
  | boolean b => some (ofTruth b)
  | number x => some x
  | _ => none

def divide (left right : Value) : Except DivisionFault Value :=
  match left.toNumber?, right.toNumber? with
  | some x, some y => .ok (.number (x / y))
  | none, some y =>
    .error (if y == 0.0 then .dividend left.type else .operands left.type right.type)
  | _, none => .error (.operands left.type right.type)

@[simp] theorem divide_number (x y : Float) :
    (number x).divide (number y) = .ok (.number (x / y)) := rfl

end Value

end MiniLox
