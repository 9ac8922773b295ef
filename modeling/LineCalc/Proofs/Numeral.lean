import LineCalc.Line
import LineCalc.Proofs.Decimal

/-!
# Numerals

What is written for a double, and what it is when it is read.

## The characters of results

A finite double is written with digits, one point and perhaps a minus sign. So no result looks like an
infinity or like something that is no number.
-/

namespace LineCalc.Numeral

/-- The characters of a result: digits, the point and the minus sign. -/
def plainChars : List Char := ['-', '.', '0', '1', '2', '3', '4', '5', '6', '7', '8', '9']

/-- A finite double is written as its sign and its magnitude. -/
lemma real_of_isFinite {x : Float} (finite : Binary64.IsFinite x) (magnitude : Nat → List Char) :
    real magnitude x =
      (if Binary64.isNegative x then ['-'] else []) ++ magnitude (Binary64.magnitudeBits x) := by
  rw [real]
  simp only [if_neg (Nat.lt_asymm finite), if_neg (Nat.ne_of_lt finite)]

/-- Every digit may stand in a result. -/
lemma mem_plainChars_of_isDigit {c : Char} (digit : c.isDigit) : c ∈ plainChars := by
  have bounds := Decimal.toNat_of_isDigit digit
  rw [← Char.ofNat_toNat c]
  generalize c.toNat = n at bounds ⊢
  obtain ⟨low, high⟩ := bounds
  interval_cases n <;> decide

/-- A natural is written with characters that may stand in a result. -/
lemma mem_plainChars_of_digitChars {n : Nat} {c : Char} (mem : c ∈ Decimal.digitChars n) :
    c ∈ plainChars :=
  mem_plainChars_of_isDigit (Decimal.isDigit_of_mem_digitChars mem)

/-- Two places are written with digits and a point. -/
lemma mem_plainChars_of_twoPlaces {bits : Nat} {c : Char} (mem : c ∈ twoPlaces bits) :
    c ∈ plainChars := by
  rw [twoPlaces] at mem
  rcases List.mem_append.1 mem with whole | mem
  · exact mem_plainChars_of_digitChars whole
  rcases List.mem_cons.1 mem with rfl | mem
  · decide
  apply mem_plainChars_of_isDigit
  exact Decimal.isDigit_of_mem_leftpad (fun c => Decimal.isDigit_of_mem_digitChars) c mem

/-- A finite result is written with plain characters. -/
lemma mem_plainChars_of_resultText {x : Float} (finite : Binary64.IsFinite x) {c : Char}
    (mem : c ∈ (Line.resultText x).toList) : c ∈ plainChars := by
  rw [Line.resultText, String.toList_ofList, real_of_isFinite finite] at mem
  rcases List.mem_append.1 mem with sign | magnitude
  · split at sign
    · cases List.mem_singleton.1 sign
      decide
    · cases sign
  · exact mem_plainChars_of_twoPlaces magnitude

/-!
## Hundredths read back

A number of hundredths that was rounded from a double need not give the same double when it is read, but
it gives one with the same number of hundredths. Below `2 ^ 46` the doubles are so close that the one
nearest to a number of hundredths is less than half a hundredth away from it. From there on they are so
far apart that the double itself is the nearest one, or the hundredths are exact.
-/

open Binary64

/-- From `2 ^ 46` on doubles are at least one 64th apart. -/
lemma exists_unitsPerOne_eq : ∃ s, 0 < s ∧ s < 2000 ∧ unitsPerOne = 2 ^ 6 * 2 ^ s := by
  obtain ⟨s, pos, bound, same⟩ : ∃ s, 0 < s ∧ s < 2000 ∧ 6 + s = 1074 :=
    ⟨1068, by decide, by decide, rfl⟩
  exact ⟨s, pos, bound, (unitsPerOne_eq same).trans (pow_add 2 6 s)⟩

/-- The double nearest to fewer than `100 * 2 ^ 46` hundredths has that many hundredths. -/
lemma hundredths_nearestBits_of_lt {h : Nat} (small : h < 100 * 2 ^ 46) :
    nearestBits h 100 < infinityBits ∧ hundredths (nearestBits h 100) = h := by
  have shifted := isShift_log2 (d := 100) (by decide) (h * unitsPerOne)
  have units := units_nearestBits (by decide) shifted
  have bits := nearestBits_of_isShift (by decide) shifted
  generalize (h * unitsPerOne / 100).log2 - 52 = s at *
  obtain ⟨t, pos, bound, one⟩ := exists_unitsPerOne_eq
  have step_pos : 0 < 100 * 2 ^ s := Nat.mul_pos (by decide) (Nat.two_pow_pos s)
  -- The shift is so small that one step is less than a hundredth.
  have less : s < t := by
    rcases shifted.le with none | le
    · exact none ▸ pos
    · have below := Nat.mul_lt_mul_of_pos_right small unitsPerOne_pos
      rw [leadingBit] at le
      rw [← Nat.pow_lt_pow_iff_right (a := 2) (by decide)]
      omega
  have step : 100 * 2 ^ s < unitsPerOne := by
    have double : 2 ^ (s + 1) ≤ 2 ^ t := Nat.pow_le_pow_right Nat.two_pos less
    have pos := Nat.two_pow_pos s
    rw [pow_succ] at double
    omega
  have nearest := Rounding.nearestEven_halfEven step_pos (h * unitsPerOne)
  have le := Rounding.halfEven_le shifted.lt
  generalize Rounding.halfEven (h * unitsPerOne) (100 * 2 ^ s) = r at *
  constructor
  · rw [bits, infinityBits]
    rw [leadingBit] at le ⊢
    omega
  · have scaled : r * (100 * 2 ^ s) = r * 2 ^ s * 100 := by ring
    obtain ⟨above, below, _⟩ := nearest
    rw [scaled] at above below
    rw [hundredths, units, Rounding.halfEven_eq_iff unitsPerOne_pos]
    constructor <;> omega

/-- From `2 ^ 46` on the double nearest to the hundredths of a double is that double. -/
lemma nearestBits_hundredths_of_le {bits : Nat} (large : 2 ^ 46 * unitsPerOne ≤ units bits) :
    nearestBits (hundredths bits) 100 = bits := by
  obtain ⟨above, below, _⟩ := Rounding.nearestEven_halfEven unitsPerOne_pos (units bits * 100)
  rw [← hundredths] at above below
  obtain ⟨t, _, _, one⟩ := exists_unitsPerOne_eq
  have le : t ≤ shift bits := by
    have lt := Nat.mul_lt_mul_of_pos_right (significand_lt bits) (Nat.two_pow_pos (shift bits))
    rw [units_eq] at large
    rw [leadingBit] at lt
    rw [← Nat.lt_succ_iff, ← Nat.pow_lt_pow_iff_right (a := 2) (by decide), pow_succ]
    omega
  apply RoundsTo.nearestBits_eq (by decide)
  rcases gapBelow_cases bits with ⟨gap, _⟩ | ⟨s, shifted, _, least⟩
  · -- A hundredth is less than two thirds of a step, and the hundredths are half of one off at most.
    have step := Nat.pow_le_pow_right Nat.two_pos le
    have pos := Nat.two_pow_pos (shift bits)
    have inside : 2 ^ shift bits ≤ units bits := by
      rw [units_eq] at large ⊢
      apply Nat.le_mul_of_pos_left
      by_contra zero
      rw [Nat.eq_zero_of_not_pos zero, Nat.zero_mul] at large
      have := unitsPerOne_pos
      omega
    constructor
    · rw [gap]
      omega
    · rw [gapAbove_eq]
      omega
    · rw [gap, gapAbove_eq]
      omega
  · -- A power of two of this size is a whole number, which has its hundredths exactly.
    have whole : units bits = 2 ^ (47 + s - t) * unitsPerOne := by
      have leading : leadingBit = 2 ^ 52 := rfl
      have exponents : 52 + (s + 1) = 47 + s - t + (6 + t) := by omega
      rw [units_eq, least, shifted, one, leading, ← pow_add, ← pow_add, ← pow_add, exponents]
    have exact : hundredths bits = 2 ^ (47 + s - t) * 100 := by
      rw [hundredths, whole, Nat.mul_right_comm, Rounding.halfEven_mul unitsPerOne_pos]
    apply RoundsTo.of_eq (by decide)
    rw [exact, whole, Nat.mul_right_comm]

/-- Reading the hundredths of a finite double keeps their number. -/
lemma hundredths_nearestBits {bits : Nat} (finite : bits < infinityBits) :
    nearestBits (hundredths bits) 100 < infinityBits ∧
    hundredths (nearestBits (hundredths bits) 100) = hundredths bits := by
  by_cases small : hundredths bits < 100 * 2 ^ 46
  · exact hundredths_nearestBits_of_lt small
  by_cases large : 2 ^ 46 * unitsPerOne ≤ units bits
  · rw [nearestBits_hundredths_of_le large]
    exact ⟨finite, rfl⟩
  · -- What was rounded up to `2 ^ 46` is read as `2 ^ 46`.
    have up : hundredths bits = 2 ^ 46 * 100 := by
      have le : hundredths bits ≤ 100 * 2 ^ 46 := Rounding.halfEven_le (by omega)
      omega
    obtain ⟨t, _, bound, one⟩ := exists_unitsPerOne_eq
    have power : units (t * leadingBit + leadingBit) = 2 ^ 46 * unitsPerOne := by
      have leading : leadingBit = 2 ^ 52 := rfl
      rw [units_shift_add (Nat.le_mul_of_pos_left _ Nat.two_pos) (.inr le_rfl), one, leading]
      ring
    have read : nearestBits (hundredths bits) 100 = t * leadingBit + leadingBit := by
      apply RoundsTo.nearestBits_eq (by decide)
      apply RoundsTo.of_eq (by decide)
      rw [up, power, Nat.mul_right_comm]
    constructor
    · rw [read, leadingBit, infinityBits]
      omega
    · rw [read, hundredths, power, up, Nat.mul_right_comm, Rounding.halfEven_mul unitsPerOne_pos]

/-- Two digits are enough for what is left of hundredths without the whole. -/
lemma length_leftpad_mod (h : Nat) : ((Decimal.digitChars (h % 100)).leftpad 2 '0').length = 2 := by
  have short : (Decimal.digitChars (h % 100)).length ≤ 2 := by
    rw [Decimal.digitChars, Nat.length_toDigits_le_iff (by decide) (by decide)]
    exact Nat.mod_lt _ (by decide)
  rw [List.length_leftpad, Nat.max_eq_left short]

/-- Two places denote the hundredths. -/
lemma reads_twoPlaces (bits : Nat) :
    Decimal.Reads (twoPlaces bits) (nearestBits (hundredths bits) 100) := by
  refine .intro (List.append_ne_nil_of_left_ne_nil (Decimal.digitChars_ne_nil _) _)
    (fun c => Decimal.isDigit_of_mem_digitChars)
    (Decimal.isDigit_of_mem_leftpad fun c => Decimal.isDigit_of_mem_digitChars) ?_
  rw [Decimal.ofDigitChars_append, length_leftpad_mod, Decimal.ofDigitChars_leftpad,
    Decimal.ofDigitChars_digitChars, Decimal.ofDigitChars_digitChars]
  exact congrArg (nearestBits · 100) (Nat.div_add_mod' _ 100)

/-!
## The general form read back

A magnitude is written without an exponent if it is zero or from `10 ^ -4` up to `10 ^ 16`, and what is
written then reads back. Any other magnitude is written in scientific notation.
-/

/-- The range without exponents in terms of the exact magnitude. -/
lemma isPlain_iff (x : Float) :
    isPlain (magnitudeBits x) ↔
      magnitude x = 0 ∨ (1 / 10 ^ 4 ≤ magnitude x ∧ magnitude x < 10 ^ 16) := by
  have pos : (0 : ℚ) < unitsPerOne := Nat.cast_pos.2 unitsPerOne_pos
  have zero : magnitude x = 0 ↔ magnitudeBits x = 0 := by
    rw [magnitude, div_eq_zero_iff, or_iff_left pos.ne', Nat.cast_eq_zero, units_eq_zero_iff]
  have low : 1 / 10 ^ 4 ≤ magnitude x ↔ unitsPerOne ≤ units (magnitudeBits x) * 10 ^ 4 := by
    rw [magnitude, div_le_div_iff₀ (by norm_num) pos, one_mul]
    exact_mod_cast Iff.rfl
  have high : magnitude x < 10 ^ 16 ↔ units (magnitudeBits x) < 10 ^ 16 * unitsPerOne := by
    rw [magnitude, div_lt_iff₀ pos]
    exact_mod_cast Iff.rfl
  rw [zero, low, high, isPlain, decide_eq_true_iff, Nat.pow_eq, Nat.pow_eq]

variable {bits : Nat}

/-- What is written without an exponent reads back. -/
lemma reads_general (plain : isPlain bits) : Decimal.Reads (general bits) bits := by
  rw [general]
  split
  case isTrue zero =>
    have none : Decimal.ofDigitChars (['0'] ++ ['0']) = 0 := rfl
    change Decimal.Reads (['0'] ++ '.' :: ['0']) bits
    refine .intro (List.cons_ne_nil _ _) (List.forall_mem_singleton.2 rfl)
      (List.forall_mem_singleton.2 rfl) ?_
    apply RoundsTo.nearestBits_eq (by decide)
    apply RoundsTo.of_eq (by decide)
    rw [none, zero, units_eq_zero_iff.2 rfl, Nat.zero_mul, Nat.zero_mul]
  case isFalse =>
    have reads := Decimal.reads_plain (Decimal.shortest bits)
    rw [Decimal.bits_shortest] at reads
    exact reads

/-- A magnitude that is not plain is written in scientific notation. -/
lemma general_of_not_isPlain (other : ¬ isPlain bits) :
    general bits = (Decimal.shortest bits).scientific := by
  have nonzero : bits ≠ 0 := by
    rintro rfl
    exact other rfl
  rw [general, if_neg nonzero, if_neg other]

end LineCalc.Numeral
