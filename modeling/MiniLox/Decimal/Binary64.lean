/-!
The magnitudes of the binary64 format as one increasing sequence. The bit
patterns without a sign, read as natural numbers, count the finite
magnitudes in increasing order, so a number is a position in that sequence,
its *code*, and rounding is a search for a position. Nothing here mentions
machine floats: values are naturals in units of the least positive number.

`nearest` rounds an exact fraction, `Surrounds` is the interval of fractions
that a code stands for. Both follow the one rule of the format: the nearer
neighbour wins, and a tie goes to the even code.
-/

namespace MiniLox.Binary64

/-- The code past the last finite magnitude, which stands for infinity. -/
def infinity : Nat := 0x7FF0000000000000

/-- How many units make one: the least positive number is one unit. -/
def unitsPerOne : Nat := Nat.pow 2 1074

/-- The number of codes between a power of two and the next. -/
def stretch : Nat := 0x10000000000000

/-- The magnitude of a code, in units. The codes of the first two stretches
are one unit apart, those of a later one twice as far as those of the one
before.
At `infinity` the rule goes on to the power of two after the last finite
magnitude, which is where rounding overflows. -/
def units (code : Nat) : Nat :=
  if code < stretch then code
  else (stretch + code % stretch) * Nat.pow 2 (code / stretch - 1)

/-- The greatest number that satisfies a downward closed test, among those
that extend `found` in the lowest `bits` bits. -/
def greatest (fits : Nat → Bool) : (bits : Nat) → (found : Nat) → Nat
  | 0, found => found
  | bits + 1, found =>
    let next := found + Nat.pow 2 bits
    greatest fits bits (if fits next then next else found)

def floorCode (num den : Nat) : Nat :=
  greatest
    (fun code => decide (code ≤ infinity) && decide (units code * den ≤ num * unitsPerOne))
    63 0

/-- The code that `num / den` rounds to: the nearer of its two neighbours,
the even one if both are equally near. -/
def nearest (num den : Nat) : Nat :=
  let below := floorCode num den
  if below = infinity then below
  else
    let middle := (units below + units (below + 1)) * den
    if 2 * (num * unitsPerOne) < middle then below
    else if middle < 2 * (num * unitsPerOne) then below + 1
    else if below % 2 = 0 then below
    else below + 1

/-- The fraction `num / den` lies between the middles of the gaps on either
side of a finite code, the middles included exactly when the code is even.
These are the fractions that round to the code. -/
def Surrounds (num den code : Nat) : Prop :=
  let low := (units (code - 1) + units code) * den
  let high := (units code + units (code + 1)) * den
  let twice := 2 * (num * unitsPerOne)
  if code % 2 = 0 then low ≤ twice ∧ twice ≤ high else low < twice ∧ twice < high

instance (num den code : Nat) : Decidable (Surrounds num den code) := by
  unfold Surrounds
  exact inferInstance

end MiniLox.Binary64
