/-!
# Doubles

A finite double is a sign and a natural. What is rounded to one is a quotient of naturals.

## Rounding of quotients

A quotient of naturals is rounded to the nearest natural, and a half goes to the even neighbour.
Fixed-place numerals and the reading of decimals both rest on this one function.
-/

namespace LineCalc.Rounding

/-- The natural nearest to `n / d`; a half goes to the even neighbour. -/
def halfEven (n d : Nat) : Nat :=
  let quotient := n / d
  let twice := 2 * (n % d)
  if twice < d ∨ (twice = d ∧ quotient % 2 = 0) then quotient else quotient + 1

/-- A whole quotient is kept as it is. -/
theorem halfEven_mul {d : Nat} (pos : 0 < d) (n : Nat) : halfEven (n * d) d = n := by
  simp [halfEven, Nat.mul_div_cancel n pos, pos]

end LineCalc.Rounding

/-!
## Doubles as exact numbers

Every finite double is a whole number of units of `2 ^ -1074`, the least positive double. The 63
bits below the sign number the magnitudes in increasing order, so a magnitude is handled as those
bits, and its exact value as its number of units. Nothing here rounds except `nearestBits`, which
rounds once.
-/

namespace LineCalc.Binary64

/-- How many units of `2 ^ -1074` make one. -/
def unitsPerOne : Nat := Nat.pow 2 1074

/-- The bit of the sign, above those of the magnitude. -/
def signBit : Nat := 0x8000000000000000

/-- The lowest bit of the exponent field, which is also the leading bit of a normal significand. -/
def leadingBit : Nat := 0x10000000000000

/-- The magnitude bits of infinity; smaller ones are finite, larger ones are not numbers. -/
def infinityBits : Nat := 0x7ff0000000000000

/-- The 63 bits below the sign. -/
def magnitudeBits (x : Float) : Nat := x.toBits.toNat % signBit

/-- Whether the sign bit is set, also for a zero. -/
def isNegative (x : Float) : Bool := decide (signBit ≤ x.toBits.toNat)

/-- The double with the given sign and magnitude bits. -/
def ofMagnitudeBits (negative : Bool) (bits : Nat) : Float :=
  Float.ofBits (UInt64.ofNat (if negative then signBit + bits else bits))

/-- Doubles of this magnitude are the multiples of two to this power of units. -/
def shift (bits : Nat) : Nat := bits / leadingBit - 1

/-- The integer significand; the leading bit is implied except below the least normal double. -/
def significand (bits : Nat) : Nat :=
  if bits < leadingBit then bits else leadingBit + bits % leadingBit

/-- The exact value of finite magnitude bits, in units. -/
def units (bits : Nat) : Nat := significand bits * Nat.pow 2 (shift bits)

/-- The distance in units to the next larger double. -/
def gapAbove (bits : Nat) : Nat := Nat.pow 2 (shift bits)

/-- The distance in units to the next smaller double; it is halved below a power of two. -/
def gapBelow (bits : Nat) : Nat :=
  if significand bits = leadingBit ∧ 0 < shift bits then Nat.pow 2 (shift bits - 1)
  else Nat.pow 2 (shift bits)

/--
The magnitude bits nearest to `numerator / denominator`, ties to the even significand. The shift
leaves 53 bits of the quotient; a carry out of them runs into the exponent field by itself, and
beyond the largest finite double the result is at least `infinityBits`.
-/
def nearestBits (numerator denominator : Nat) : Nat :=
  let scaled := numerator * unitsPerOne
  let shift := (scaled / denominator).log2 - 52
  shift * leadingBit + Rounding.halfEven scaled (denominator * Nat.pow 2 shift)

/-- The non-negative double nearest to `numerator / denominator`, if it is finite. -/
def nearest? (numerator denominator : Nat) : Option Float :=
  let bits := nearestBits numerator denominator
  if bits < infinityBits then some (ofMagnitudeBits false bits) else none

/-- The double of an integer; exact as long as the magnitude has at most 53 bits. -/
def ofInt (n : Int) : Float := ofMagnitudeBits (decide (n < 0)) (nearestBits n.natAbs 1)

end LineCalc.Binary64
