import MiniLox.Decimal.Basic

/-!
The shortest decimal that identifies a binary64 magnitude. For one digit,
two digits and so on up to seventeen, the two neighbours of the value on the
decimal grid of that many digits are tried; the first grid with a neighbour
that rounds back to the value settles it. Of two neighbours that both do, the
nearer is taken, and the even one if they are equally near.

Every answer is checked against the interval of its code, so whatever is
printed reads back. Should no grid answer, the exact value is given, which
reads back as well.
-/

namespace MiniLox.Decimal

/-- The number of digits before the point of a value given in units: the
least `k` with the value below `10 ^ k`. It is read off the length of the
value with 324 places shifted before the point, for the least positive value
has its first digit there. -/
def magnitude (units : Nat) : Int :=
  (Nat.toDigits 10 (units * Nat.pow 10 324 / Binary64.unitsPerOne)).length - 324

def gridFloor (units : Nat) (exponent : Int) : Decimal where
  digits :=
    units * Nat.pow 10 (-exponent).toNat / (Binary64.unitsPerOne * Nat.pow 10 exponent.toNat)
  exponent := exponent

def gridNext (d : Decimal) : Decimal := { d with digits := d.digits + 1 }

def readsAs (code : Nat) (d : Decimal) : Bool :=
  decide (Binary64.Surrounds d.num d.den code)

/-- Of two neighbours on a grid around a value in units, the nearer; the even
one if the value lies halfway. -/
def nearer (units : Nat) (below : Decimal) : Decimal :=
  let value := 2 * units * below.den
  let middle := (2 * below.digits + 1) * Nat.pow 10 below.exponent.toNat * Binary64.unitsPerOne
  if value < middle then below
  else if middle < value then below.gridNext
  else if below.digits % 2 = 0 then below
  else below.gridNext

/-- The neighbour on the grid of `10 ^ exponent` that reads back as the code,
if there is one. -/
def onGrid? (code : Nat) (exponent : Int) : Option Decimal :=
  let below := gridFloor (Binary64.units code) exponent
  match readsAs code below, readsAs code below.gridNext with
  | true, true => some (nearer (Binary64.units code) below)
  | true, false => some below
  | false, true => some below.gridNext
  | false, false => none

/-- The exact value of a code: a unit is `5 ^ 1074` over `10 ^ 1074`. -/
def exact (code : Nat) : Decimal where
  digits := Binary64.units code * Nat.pow 5 1074
  exponent := -1074

def shortest (code : Nat) : Decimal :=
  let places := magnitude (Binary64.units code)
  let found := (List.range 17).findSome? fun n : Nat => onGrid? code (places - (n + 1))
  (found.getD (exact code)).normalize

end MiniLox.Decimal
