import LineCalc.Binary64

/-!
# Decimals

A decimal is a natural times a power of ten. Its digits are written and read in base ten, and it is
laid out in plain notation, with a point among its digits, or in scientific notation, with the
exponent of its leading digit.
-/

namespace LineCalc

/-- The number `digits * 10 ^ exponent`. -/
structure Decimal where
  digits : Nat
  exponent : Int
deriving DecidableEq, Repr

namespace Decimal

/-- The digits of a natural in base ten, without zeros in front. -/
def digitChars (n : Nat) : List Char := Nat.toDigits 10 n

/-- The natural that a list of decimal digits denotes. -/
def ofDigitChars (digits : List Char) : Nat := Nat.ofDigitChars 10 digits 0

/-- The power of ten for an exponent that is not negative, and one for any other. -/
def upPower (e : Int) : Nat := Nat.pow 10 e.toNat

/-- The power of ten that a negative exponent divides by, and one for any other exponent. -/
def downPower (e : Int) : Nat := Nat.pow 10 (-e).toNat

/-- The same number without trailing zeros among its digits. -/
def reduced (digits : Nat) (exponent : Int) : Decimal :=
  if digits ≠ 0 ∧ digits % 10 = 0 then reduced (digits / 10) (exponent + 1)
  else ⟨digits, exponent⟩
termination_by digits

/-- Plain notation, with at least one digit on either side of the point. -/
def plain (d : Decimal) : List Char :=
  let digits := digitChars d.digits
  if 0 ≤ d.exponent then digits ++ List.replicate d.exponent.toNat '0' ++ ['.', '0']
  else
    let places := (-d.exponent).toNat
    let padded := digits.leftpad (places + 1) '0'
    padded.take (padded.length - places) ++ '.' :: padded.drop (padded.length - places)

/-- Scientific notation: one digit before the point, and no point when that digit is the only one. -/
def scientific (d : Decimal) : List Char :=
  let digits := digitChars d.digits
  let exponent := d.exponent + (digits.length - 1 : Nat)
  digits.take 1 ++ (if digits.length = 1 then [] else '.' :: digits.drop 1) ++
    'e' :: (if exponent < 0 then ['-'] else []) ++ digitChars exponent.natAbs

end Decimal

end LineCalc

/-!
## The fewest digits that read back

The reals that round to a double form an interval around it, from halfway to the neighbour below
to halfway to the neighbour above; the ends belong to it exactly when the significand is even. For
one digit, two digits and so on the two points of that decimal grid next to the double are tried,
and the first grid with a point in the interval gives the answer.
-/

namespace LineCalc.Decimal

/-- Whether the decimal rounds to the double with these magnitude bits. -/
def readsBack (bits : Nat) (d : Decimal) : Bool :=
  let value := 2 * d.digits * upPower d.exponent * Binary64.unitsPerOne
  let low := (2 * Binary64.units bits - Binary64.gapBelow bits) * downPower d.exponent
  let high := (2 * Binary64.units bits + Binary64.gapAbove bits) * downPower d.exponent
  if bits % 2 = 0 then decide (low ≤ value ∧ value ≤ high)
  else decide (low < value ∧ value < high)

/-- The exponent of the leading digit: every double is at least `10 ^ -340`. -/
def leadingExponent (bits : Nat) : Int :=
  (digitChars (Binary64.units bits * Nat.pow 10 340 / Binary64.unitsPerOne)).length - 341

/-- The multiple of `10 ^ exponent` at or just below the double. -/
def floorAt (bits : Nat) (exponent : Int) : Nat :=
  Binary64.units bits * downPower exponent / (Binary64.unitsPerOne * upPower exponent)

/-- The better of the two grid points next to the double that read back; a tie goes up. -/
def onGrid? (bits : Nat) (exponent : Int) : Option Decimal :=
  let floor := floorAt bits exponent
  let below : Decimal := ⟨floor, exponent⟩
  let above : Decimal := ⟨floor + 1, exponent⟩
  match readsBack bits below, readsBack bits above with
  | false, false => none
  | true, false => some below
  | false, true => some above
  | true, true =>
    if 2 * Binary64.units bits * downPower exponent
        < (2 * floor + 1) * (Binary64.unitsPerOne * upPower exponent)
    then some below else some above

/-- The exact value of a double as a decimal, since a unit is a power of five with 1074 places. -/
def exact (bits : Nat) : Decimal := ⟨Binary64.units bits * Nat.pow 5 1074, -1074⟩

/-- The decimal of fewest digits that reads back, and of those the nearest. -/
def shortest (bits : Nat) : Decimal :=
  let leading := leadingExponent bits
  let found := ((List.range 17).findSome? fun n : Nat => onGrid? bits (leading - n)).getD (exact bits)
  reduced found.digits found.exponent

end LineCalc.Decimal

/-!
## Numerals

How numbers are written. Results are written with a fixed number of places, rounded from the exact
value; the reals among tokens are written with the fewest digits that read back. Both share the
sign, also that of a zero, and the texts of the values that are no finite number.
-/

namespace LineCalc.Numeral

/-- An integer: a minus sign if it is negative, then its digits. -/
def integer (n : Int) : List Char :=
  (if n < 0 then ['-'] else []) ++ Decimal.digitChars n.natAbs

/-- A double whose finite magnitude is written by `magnitude`. -/
def real (magnitude : Nat → List Char) (x : Float) : List Char :=
  let bits := Binary64.magnitudeBits x
  if Binary64.infinityBits < bits then ['N', 'a', 'N']
  else
    (if Binary64.isNegative x then ['-'] else []) ++
      if bits = Binary64.infinityBits then ['i', 'n', 'f'] else magnitude bits

/-- The number of hundredths nearest to the magnitude, a tie going to the even one. -/
def hundredths (bits : Nat) : Nat :=
  Rounding.halfEven (Binary64.units bits * 100) Binary64.unitsPerOne

/-- Two places after the point, whatever the size of the number. -/
def twoPlaces (bits : Nat) : List Char :=
  Decimal.digitChars (hundredths bits / 100) ++
    '.' :: (Decimal.digitChars (hundredths bits % 100)).leftpad 2 '0'

/-- Whether the magnitude lies in the range written without an exponent: `10 ^ -4` to `10 ^ 16`. -/
def isPlain (bits : Nat) : Bool :=
  bits = 0 ∨ (Binary64.unitsPerOne ≤ Binary64.units bits * Nat.pow 10 4 ∧
    Binary64.units bits < Nat.pow 10 16 * Binary64.unitsPerOne)

/-- The fewest digits that read back, in plain notation where the size allows it. -/
def general (bits : Nat) : List Char :=
  if bits = 0 then ['0', '.', '0']
  else if isPlain bits then (Decimal.shortest bits).plain
  else (Decimal.shortest bits).scientific

end LineCalc.Numeral
