import MiniLox.Decimal.Shortest

/-!
How machine numbers are written. A number between `10 ^ -4` and `10 ^ 16` is
written positionally, with at least one digit after the point; any other with
one digit before the point and a signed exponent of at least two digits. The
digits are the fewest that identify the number.

The sign, infinity and what is not a number are told apart on the bits, so
that `-0.0` keeps its sign.
-/

namespace MiniLox

namespace Decimal

def digitsOf (n : Nat) : List Char := Nat.toDigits 10 n

/-- The decimal in positional notation, with at least one digit on either
side of the point. -/
def positional (d : Decimal) : List Char :=
  let digits := digitsOf d.digits
  if 0 ≤ d.exponent then
    digits ++ List.replicate d.exponent.toNat '0' ++ ['.', '0']
  else
    let places := (-d.exponent).toNat
    if digits.length ≤ places then
      ['0', '.'] ++ List.replicate (places - digits.length) '0' ++ digits
    else
      digits.take (digits.length - places) ++ '.' :: digits.drop (digits.length - places)

/-- A signed exponent of at least two digits. -/
def exponentPart (e : Int) : List Char :=
  let digits := digitsOf e.natAbs
  'e' :: (if e < 0 then '-' else '+') :: (List.replicate (2 - digits.length) '0' ++ digits)

/-- The decimal with one digit before the point, and a point only if digits
follow. -/
def scientific (d : Decimal) : List Char :=
  let digits := digitsOf d.digits
  let mark := exponentPart (digits.length - 1 + d.exponent)
  match digits with
  | first :: second :: more => first :: '.' :: second :: more ++ mark
  | _ => digits ++ mark

def layout (d : Decimal) : List Char :=
  let lead := (digitsOf d.digits).length - 1 + d.exponent
  if -4 ≤ lead ∧ lead < 16 then d.positional else d.scientific

end Decimal

namespace Binary64

def signBit : Nat := 0x8000000000000000

def isNegative (x : Float) : Bool := decide (signBit ≤ x.toBits.toNat)

/-- The code of the magnitude of a number. Codes past infinity belong to what
is not a number. -/
def codeOf (x : Float) : Nat := x.toBits.toNat % signBit

def signed (negative : Bool) (text : List Char) : List Char :=
  if negative then '-' :: text else text

/-- The shortest text that identifies a number. -/
def text (x : Float) : List Char :=
  let code := codeOf x
  if infinity < code then ['n', 'a', 'n']
  else signed (isNegative x) <|
    if code = infinity then ['i', 'n', 'f']
    else if code = 0 then ['0', '.', '0']
    else (Decimal.shortest code).layout

/-- Whole numbers below this one are written as integers. From here on a
number has an exponent. -/
def integerLimit : Nat := 10000000000000000

/-- The whole number that a number is, if it is one below the limit and not
the negative zero. -/
def integer? (x : Float) : Option Int :=
  let units := units (codeOf x)
  if units % unitsPerOne = 0 ∧ units < integerLimit * unitsPerOne
      ∧ ¬ (isNegative x = true ∧ codeOf x = 0) then
    let magnitude : Int := units / unitsPerOne
    some (if isNegative x then -magnitude else magnitude)
  else none

end Binary64

end MiniLox
