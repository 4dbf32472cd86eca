import MiniLox.Decimal.Binary64

/-!
Decimal numbers, a whole number of digits times a power of ten, and what
they round to. A numeral of a program is such a number, and so is every text
that a number is printed as.
-/

namespace MiniLox

/-- The number `digits * 10 ^ exponent`. -/
structure Decimal where
  digits : Nat
  exponent : Int
deriving DecidableEq, Repr

namespace Decimal

def num (d : Decimal) : Nat := d.digits * Nat.pow 10 d.exponent.toNat

def den (d : Decimal) : Nat := Nat.pow 10 (-d.exponent).toNat

/-- The binary64 code that the number rounds to. -/
def code (d : Decimal) : Nat := Binary64.nearest d.num d.den

/-- The machine number that the decimal rounds to: infinity past the range,
zero below it. -/
def toFloat (d : Decimal) : Float := Float.ofBits (UInt64.ofNat d.code)

def ofDigits (whole fraction : List Char) : Decimal where
  digits := Nat.ofDigitChars 10 (whole ++ fraction) 0
  exponent := -(fraction.length : Int)

/-- The same number without zeros at the end of its digits. -/
def normalize (d : Decimal) : Decimal :=
  if d.digits ≠ 0 ∧ d.digits % 10 = 0 then
    normalize { digits := d.digits / 10, exponent := d.exponent + 1 }
  else d
termination_by d.digits
decreasing_by omega

end Decimal

end MiniLox
