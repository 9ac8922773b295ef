import LineCalc.Postfix.Evaluation
import LineCalc.Proofs.Rounding
import Mathlib.Tactic.Ring

/-!
# Finite doubles

The bits of a finite double are kept when it is made from them, so its magnitude and its sign can be
read back. Rounding a quotient gives bits that are bounded by the size of the quotient; the integers
that take part in arithmetic and the truth values are finite.
-/

namespace LineCalc.Binary64

/-- Neither infinite nor no number. -/
def IsFinite (x : Float) : Prop := magnitudeBits x < infinityBits

/-- Whether a double is finite is a comparison of its bits. -/
instance (x : Float) : Decidable (IsFinite x) := inferInstanceAs (Decidable (_ < _))

section Fields

open Float.Model (Format)
open Float.Model.UnpackedFloat

/-- The sign, the exponent and the mantissa of bits make up the bits again. -/
lemma packComponents_fields (b : BitVec Format.binary64.numBits) :
    packComponents .binary64 (.ofBitVec (unpackSign b)) (unpackExponent b) (unpackMantissa b) = b := by
  have sign (s : BitVec 1) : (Sign.ofBitVec s).toBitVec = s := by decide +revert
  have upper : b.extractLsb' 63 1 ++ b.extractLsb' 52 11 = b.extractLsb' 52 12 :=
    BitVec.extractLsb'_append_extractLsb'_eq_extractLsb' rfl
  have lower : b.extractLsb' 52 12 ++ b.extractLsb' 0 52 = b.extractLsb' 0 64 :=
    BitVec.extractLsb'_append_extractLsb'_eq_extractLsb' rfl
  rw [packComponents, sign]
  change b.extractLsb' 63 1 ++ b.extractLsb' 52 11 ++ b.extractLsb' 0 52 = b
  exact (congrArg (· ++ b.extractLsb' 0 52) upper).trans (lower.trans BitVec.extractLsb'_eq_self)

section Pack

variable {sign : Sign} {m : Nat} {pos : 0 < m}

/-- How a double is packed depends on its exponent and on whether it has 53 bits. -/
lemma pack_finite (e : Int) :
    pack .binary64 (.finite sign m e pos) =
      if 2 ^ 11 ≤ (e + 1023 + 52).toNat + 1 then packedInfinity .binary64 sign
      else if m.log2 + 1 = 53 then
        packComponents .binary64 sign (.ofNat _ (e + 1023 + 52).toNat) (.ofNat _ m)
      else packComponents .binary64 sign 0#_ (.ofNat _ m) := rfl

/-- Fewer than 53 bits are packed with the least exponent. -/
lemma pack_subnormal (short : m.log2 < 52) :
    pack .binary64 (.finite sign m (0 - 1075 + 1) pos) = packComponents .binary64 sign 0#_ (.ofNat _ m) := by
  rw [pack_finite, if_neg (by decide), if_neg (by omega)]

/-- With 53 bits the exponent is packed as it is, if it is not full. -/
lemma pack_normal {e : Nat} (leading : m.log2 = 52) (notFull : e < 2047) :
    pack .binary64 (.finite sign m (e - 1075) pos) =
      packComponents .binary64 sign (.ofNat _ e) (.ofNat _ m) := by
  have biased : ((e - 1075 : Int) + 1023 + 52).toNat = e := by omega
  rw [pack_finite, biased, if_neg (by omega), if_pos (by omega)]

end Pack

/-- A mantissa with a leading bit in front of it has 53 bits. -/
lemma log2_leading_append (m : BitVec 52) : (1#1 ++ m).toNat.log2 = 52 := by
  have size : (1#1 ++ m).toNat = 2 ^ 52 + m.toNat := by
    rw [BitVec.toNat_append]
    exact (Nat.two_pow_add_eq_or_of_lt m.isLt 1).symm
  have below := m.isLt
  rw [size, Nat.log2_eq_iff] <;> omega

/-- Bits whose exponent is not full are kept by unpacking and packing. -/
lemma pack_unpack_of_finite {b : BitVec Format.binary64.numBits} (finite : unpackExponent b ≠ -1#_) :
    pack .binary64 (unpack .binary64 b) = b := by
  have whole := packComponents_fields b
  by_cases low : unpackExponent b = 0#_
  · rw [low] at whole
    have exponent : (unpackExponent b).toNat = 0 := congrArg BitVec.toNat low
    by_cases zero : unpackMantissa b = 0#_
    · have unpacked : unpack .binary64 b = .zero (.ofBitVec (unpackSign b)) :=
        (if_neg finite).trans ((if_pos low).trans (dif_pos zero))
      rw [zero] at whole
      rw [unpacked]
      exact whole
    · have short : (unpackMantissa b).toNat.log2 < 52 :=
        (Nat.log2_lt fun empty => zero (BitVec.toNat_inj.1 empty)).2 (unpackMantissa b).isLt
      have unpacked : unpack .binary64 b = .finite (.ofBitVec (unpackSign b)) (unpackMantissa b).toNat
          ((unpackExponent b).toNat - 1075 + 1) _ :=
        (if_neg finite).trans ((if_pos low).trans (dif_neg zero))
      rw [exponent] at unpacked
      rw [unpacked]
      refine (pack_subnormal short).trans ?_
      rw [BitVec.ofNat_toNat, BitVec.setWidth_eq]
      exact whole
  · have below : (unpackExponent b).toNat < 2048 := (unpackExponent b).isLt
    have notFull : (unpackExponent b).toNat ≠ 2047 := fun full => finite (BitVec.toNat_inj.1 full)
    have unpacked : unpack .binary64 b = .finite (.ofBitVec (unpackSign b)) (1#1 ++ unpackMantissa b).toNat
        ((unpackExponent b).toNat - 1075) _ :=
      (if_neg finite).trans (if_neg low)
    rw [unpacked, pack_normal (log2_leading_append _) (by omega), BitVec.ofNat_toNat, BitVec.setWidth_eq,
      BitVec.ofNat_toNat, BitVec.setWidth_append]
    exact whole

/-- Bits that are not those of infinity or beyond are kept as they are. -/
lemma toBits_ofBits {b : UInt64} (finite : b.toNat % signBit < infinityBits) :
    (Float.ofBits b).toBits = b := by
  have exponent : @unpackExponent Format.binary64 b.toBitVec ≠ -1#_ := by
    intro full
    have field : b.toNat / 2 ^ 52 % 2 ^ 11 = 2047 := by
      have same : (b.toNat >>> 52) % 2 ^ 11 = 2047 := congrArg BitVec.toNat full
      rwa [Nat.shiftRight_eq_div_pow] at same
    rw [signBit, infinityBits] at finite
    omega
  exact UInt64.toBitVec_inj.1 (pack_unpack_of_finite exponent)

end Fields

section MagnitudeBits

variable {negative : Bool} {bits : Nat}

/-- A double that is made of a sign and a magnitude has these bits. -/
lemma toNat_toBits_ofMagnitudeBits (finite : bits < infinityBits) :
    (ofMagnitudeBits negative bits).toBits.toNat = if negative then signBit + bits else bits := by
  rw [infinityBits] at finite
  have size : (UInt64.ofNat (if negative then signBit + bits else bits)).toNat =
      if negative then signBit + bits else bits := by
    rw [UInt64.toNat_ofNat', signBit]
    cases negative <;> simp <;> omega
  have kept : (UInt64.ofNat (if negative then signBit + bits else bits)).toNat % signBit <
      infinityBits := by
    rw [size, signBit, infinityBits]
    cases negative <;> simp <;> omega
  rw [ofMagnitudeBits, toBits_ofBits kept, size]

/-- The magnitude that a double was made of is read back. -/
lemma magnitudeBits_ofMagnitudeBits (finite : bits < infinityBits) :
    magnitudeBits (ofMagnitudeBits negative bits) = bits := by
  rw [magnitudeBits, toNat_toBits_ofMagnitudeBits finite]
  rw [infinityBits] at finite
  cases negative
  · simp [signBit]
    omega
  · simp [signBit]
    omega

/-- A double is finite if the magnitude that it was made of is below that of infinity. -/
lemma isFinite_ofMagnitudeBits (finite : bits < infinityBits) :
    IsFinite (ofMagnitudeBits negative bits) := by
  rw [IsFinite, magnitudeBits_ofMagnitudeBits finite]
  exact finite

/-- The sign that a double was made of is read back. -/
lemma isNegative_ofMagnitudeBits (finite : bits < infinityBits) :
    isNegative (ofMagnitudeBits negative bits) = negative := by
  rw [isNegative, toNat_toBits_ofMagnitudeBits finite]
  rw [infinityBits] at finite
  cases negative
  · simp [signBit]
    omega
  · simp [signBit]

end MagnitudeBits

/-- What is read from a decimal is finite. -/
lemma isFinite_of_nearest? {n d : Nat} {x : Float} (read : nearest? n d = some x) : IsFinite x := by
  simp only [nearest?] at read
  split at read
  · rename_i finite
    cases read
    exact isFinite_ofMagnitudeBits finite
  · cases read

-- The exponent is a variable here, since powers of this size are not to be evaluated.
/-- The units that make one are a power of two. -/
lemma unitsPerOne_eq {k : Nat} (same : k = 1074) : unitsPerOne = 2 ^ k := by
  unfold unitsPerOne
  generalize 1074 = m at same ⊢
  rw [same]
  rfl

/-- There are units in one. -/
lemma unitsPerOne_pos : 0 < unitsPerOne := by
  obtain ⟨k, same⟩ : ∃ k, k = 1074 := ⟨1074, rfl⟩
  rw [unitsPerOne_eq same]
  exact Nat.two_pow_pos k

/-- The exact magnitude of a finite double. -/
def magnitude (x : Float) : ℚ := units (magnitudeBits x) / unitsPerOne

/-- The shift leaves no more than 53 bits of a quotient. -/
lemma lt_mul_shifted {d : Nat} (pos : 0 < d) (scaled : Nat) :
    scaled < 2 * leadingBit * (d * 2 ^ ((scaled / d).log2 - 52)) := by
  have leading : leadingBit = 2 ^ 52 := rfl
  have below : scaled / d < 2 ^ ((scaled / d).log2 - 52 + 53) := by
    apply Nat.lt_log2_self.trans_le
    apply Nat.pow_le_pow_right Nat.two_pos
    omega
  calc scaled < 2 ^ ((scaled / d).log2 - 52 + 53) * d := (Nat.div_lt_iff_lt_mul pos).1 below
    _ = 2 * leadingBit * (d * 2 ^ ((scaled / d).log2 - 52)) := by
      rw [pow_add, leading]
      ring

/-- The bits of a rounded quotient are bounded by the shift that leaves 53 bits of it. -/
lemma nearestBits_le (n : Nat) {d : Nat} (pos : 0 < d) :
    nearestBits n d ≤ ((n * unitsPerOne / d).log2 - 52) * leadingBit + 2 * leadingBit :=
  Nat.add_le_add_left (Rounding.halfEven_le (lt_mul_shifted pos (n * unitsPerOne))) _

/-- The naturals that take part in arithmetic are rounded to finite bits. -/
lemma nearestBits_one_lt {n : Nat} (small : n ≤ Arithmetic.maxExactInteger) :
    nearestBits n 1 < infinityBits := by
  obtain ⟨k, same⟩ : ∃ k, k = 1074 := ⟨1074, rfl⟩
  have below : n * unitsPerOne < 2 ^ (53 + k) := by
    rw [pow_add, unitsPerOne_eq same]
    apply Nat.mul_lt_mul_of_pos_right _ (Nat.two_pow_pos k)
    rw [Arithmetic.maxExactInteger] at small
    omega
  have log2 : (n * unitsPerOne / 1).log2 ≤ 1126 := by
    rw [Nat.div_one]
    by_cases zero : n * unitsPerOne = 0
    · rw [zero]
      exact Nat.zero_le _
    · have := (Nat.log2_lt zero).2 below
      omega
  have le := nearestBits_le n Nat.one_pos
  rw [leadingBit] at le
  rw [infinityBits]
  omega

/-- The integers that take part in arithmetic are finite doubles. -/
lemma isFinite_ofInt {n : Int} (small : n.natAbs ≤ Arithmetic.maxExactInteger) : IsFinite (ofInt n) :=
  isFinite_ofMagnitudeBits (nearestBits_one_lt small)

/-!
## The nearest double

A quotient is shifted until 53 bits of it are left, and these are rounded. What comes out is at most half
a step of that size away from the quotient. The quotients that round to a given double are those between
the points halfway to its neighbours, and such a point belongs to them if the significand is even: this
is how a decimal is known to read back as the double that it was written for.
-/

section Parts

variable (bits : Nat)

/-- The units of a double are its significand, shifted. -/
lemma units_eq : units bits = significand bits * 2 ^ shift bits := rfl

/-- The next larger double is one step of the shift away. -/
lemma gapAbove_eq : gapAbove bits = 2 ^ shift bits := rfl

/-- A double is known by its shift and its significand. -/
lemma shift_mul_add_significand : shift bits * leadingBit + significand bits = bits := by
  rw [shift, significand, leadingBit]
  split <;> omega

/-- A significand has at most 53 bits. -/
lemma significand_lt : significand bits < 2 * leadingBit := by
  rw [significand, leadingBit]
  split <;> omega

/-- A significand has 53 bits where it is shifted. -/
lemma shift_eq_zero_or_le_significand : shift bits = 0 ∨ leadingBit ≤ significand bits := by
  rw [shift, significand, leadingBit]
  split <;> omega

/-- The step below is half of the step above where the significand is the least one, and else the same. -/
lemma gapBelow_cases :
    gapBelow bits = 2 ^ shift bits ∧ (shift bits = 0 ∨ leadingBit < significand bits) ∨
    ∃ s, shift bits = s + 1 ∧ gapBelow bits = 2 ^ s ∧ significand bits = leadingBit := by
  rw [gapBelow]
  split
  case isTrue least =>
    obtain ⟨s, same⟩ := Nat.exists_eq_succ_of_ne_zero (Nat.ne_of_gt least.2)
    rw [same]
    exact .inr ⟨s, rfl, rfl, least.1⟩
  case isFalse other =>
    refine .inl ⟨rfl, ?_⟩
    rcases shift_eq_zero_or_le_significand bits with none | normal
    · exact .inl none
    · omega

variable {bits}

/-- A shift and a significand with at most one bit too many make up a double of that value. -/
lemma units_shift_add {s r : Nat} (le : r ≤ 2 * leadingBit) (normal : s = 0 ∨ leadingBit ≤ r) :
    units (s * leadingBit + r) = r * 2 ^ s := by
  rcases Nat.lt_or_eq_of_le le with lt | carry
  · have shift_eq : shift (s * leadingBit + r) = s := by
      rw [shift, leadingBit] at *
      omega
    have significand_eq : significand (s * leadingBit + r) = r := by
      have parts := shift_mul_add_significand (s * leadingBit + r)
      rw [shift_eq] at parts
      exact Nat.add_left_cancel parts
    rw [units_eq, shift_eq, significand_eq]
  · -- The carry makes the next shift, with the least significand.
    have shift_eq : shift (s * leadingBit + r) = s + 1 := by
      rw [shift, carry, leadingBit]
      omega
    have significand_eq : significand (s * leadingBit + r) = leadingBit := by
      have parts := shift_mul_add_significand (s * leadingBit + r)
      rw [shift_eq, carry, Nat.succ_mul] at parts
      rw [carry]
      omega
    rw [units_eq, shift_eq, significand_eq, carry, pow_succ]
    ring

end Parts

section Shift

/-- A shift that leaves 53 bits of a quotient, or no shift if there are fewer. -/
structure IsShift (scaled d s : Nat) : Prop where
  lt : scaled < 2 * leadingBit * (d * 2 ^ s)
  le : s = 0 ∨ leadingBit * (d * 2 ^ s) ≤ scaled

variable {n d scaled s s' : Nat}

/-- No such shift is greater than another one. -/
lemma IsShift.le_of (shifted : IsShift scaled d s) (shifted' : IsShift scaled d s') : s ≤ s' := by
  by_contra less
  have more : 2 ^ (s' + 1) ≤ 2 ^ s := Nat.pow_le_pow_right Nat.two_pos (Nat.lt_of_not_le less)
  rcases shifted.le with none | le
  · omega
  · have : 2 * leadingBit * (d * 2 ^ s') ≤ leadingBit * (d * 2 ^ s) := by
      calc 2 * leadingBit * (d * 2 ^ s') = leadingBit * (d * 2 ^ (s' + 1)) := by ring
        _ ≤ leadingBit * (d * 2 ^ s) := Nat.mul_le_mul_left _ (Nat.mul_le_mul_left d more)
    exact absurd shifted'.lt (Nat.not_lt.2 (this.trans le))

/-- The shift by the length of the quotient leaves 53 bits, or is zero. -/
lemma isShift_log2 (pos : 0 < d) (scaled : Nat) : IsShift scaled d ((scaled / d).log2 - 52) := by
  refine ⟨lt_mul_shifted pos scaled, ?_⟩
  let s := (scaled / d).log2 - 52
  by_cases small : (scaled / d).log2 ≤ 52
  · exact .inl (Nat.sub_eq_zero_of_le small)
  · have leading : leadingBit = 2 ^ 52 := rfl
    have nonzero : scaled / d ≠ 0 := by
      intro zero
      rw [zero, Nat.log2_zero] at small
      exact small (Nat.zero_le _)
    have above : 2 ^ (52 + s) ≤ scaled / d := by
      rw [← Nat.le_log2 nonzero]
      omega
    refine .inr ?_
    calc leadingBit * (d * 2 ^ s) = 2 ^ (52 + s) * d := by
          rw [pow_add, leading]
          ring
      _ ≤ scaled := (Nat.le_div_iff_mul_le pos).1 above

/-- The nearest bits are those of the quotient with 53 bits left, rounded. -/
lemma nearestBits_of_isShift (pos : 0 < d) (shifted : IsShift (n * unitsPerOne) d s) :
    nearestBits n d = s * leadingBit + Rounding.halfEven (n * unitsPerOne) (d * 2 ^ s) := by
  have log2 := isShift_log2 pos (n * unitsPerOne)
  rw [Nat.le_antisymm (shifted.le_of log2) (log2.le_of shifted)]
  rfl

/-- The value of the nearest double is a multiple of its shift, rounded once. -/
lemma units_nearestBits (pos : 0 < d) (shifted : IsShift (n * unitsPerOne) d s) :
    units (nearestBits n d) = Rounding.halfEven (n * unitsPerOne) (d * 2 ^ s) * 2 ^ s := by
  rw [nearestBits_of_isShift pos shifted]
  apply units_shift_add (Rounding.halfEven_le shifted.lt)
  exact shifted.le.imp_right (Rounding.le_halfEven (Nat.mul_pos pos (Nat.two_pow_pos s)))

end Shift

section Halfway

/-- The quotients between the points halfway to the neighbours of a double, and such a point if the
significand is even. -/
structure RoundsTo (n d bits : Nat) : Prop where
  le_below : (2 * units bits - gapBelow bits) * d ≤ 2 * (n * unitsPerOne)
  le_above : 2 * (n * unitsPerOne) ≤ (2 * units bits + gapAbove bits) * d
  even_of_tie : (2 * units bits - gapBelow bits) * d = 2 * (n * unitsPerOne) ∨
    2 * (n * unitsPerOne) = (2 * units bits + gapAbove bits) * d → bits % 2 = 0

variable {n d bits : Nat}

/-- The point halfway to the neighbour below, times a denominator. -/
lemma halfway_below_mul (m s t d : Nat) :
    (2 * (m * 2 ^ s) - 2 ^ t) * d = 2 * (m * (d * 2 ^ s)) - d * 2 ^ t := by
  rw [Nat.sub_mul]
  congr 1 <;> ring

/-- The point halfway to the neighbour above, times a denominator. -/
lemma halfway_above_mul (m s t d : Nat) :
    (2 * (m * 2 ^ s) + 2 ^ t) * d = 2 * (m * (d * 2 ^ s)) + d * 2 ^ t := by ring

/-- Where the step below is as long as the step above, one shift serves for both. -/
lemma RoundsTo.nearestBits_eq_of_normal (pos : 0 < d) (rounds : RoundsTo n d bits)
    (gap : gapBelow bits = 2 ^ shift bits) (normal : shift bits = 0 ∨ leadingBit < significand bits) :
    nearestBits n d = bits := by
  obtain ⟨below, above, even⟩ := rounds
  have parts := shift_mul_add_significand bits
  have lt := significand_lt bits
  rw [units_eq, gap, halfway_below_mul] at below
  rw [units_eq, gapAbove_eq, halfway_above_mul] at above
  rw [units_eq, gapAbove_eq, gap, halfway_below_mul, halfway_above_mul] at even
  generalize significand bits = m at *
  generalize shift bits = s at *
  have step_pos : 0 < d * 2 ^ s := Nat.mul_pos pos (Nat.two_pow_pos s)
  have nearest : Rounding.NearestEven (n * unitsPerOne) (d * 2 ^ s) m := by
    refine ⟨by omega, above, fun tie => ?_⟩
    rw [leadingBit] at parts
    omega
  have shifted : IsShift (n * unitsPerOne) d s := by
    constructor
    · have top := Nat.mul_le_mul_right (d * 2 ^ s) (Nat.succ_le_of_lt lt)
      rw [Nat.succ_mul] at top
      omega
    · refine normal.imp_right fun inside => ?_
      have bottom := Nat.mul_le_mul_right (d * 2 ^ s) (Nat.succ_le_of_lt inside)
      rw [Nat.succ_mul] at bottom
      omega
  rw [nearestBits_of_isShift pos shifted, (Rounding.halfEven_eq_iff step_pos).2 nearest, parts]

/-- At the least significand of a binade the quotients below it still have the shift before. -/
lemma RoundsTo.nearestBits_eq_of_least {s : Nat} (pos : 0 < d) (rounds : RoundsTo n d bits)
    (shifted : shift bits = s + 1) (gap : gapBelow bits = 2 ^ s) (least : significand bits = leadingBit) :
    nearestBits n d = bits := by
  obtain ⟨below, above, _⟩ := rounds
  have parts := shift_mul_add_significand bits
  have double : d * 2 ^ (s + 1) = 2 * (d * 2 ^ s) := by ring
  rw [units_eq, gap, least, shifted, halfway_below_mul, double, leadingBit] at below
  rw [units_eq, gapAbove_eq, least, shifted, halfway_above_mul, double, leadingBit] at above
  rw [least, shifted, Nat.succ_mul] at parts
  have step_pos : 0 < d * 2 ^ s := Nat.mul_pos pos (Nat.two_pow_pos s)
  -- From the double on a quotient has its shift, and below it the shift before.
  by_cases reached : leadingBit * (d * 2 ^ (s + 1)) ≤ n * unitsPerOne
  · have same : IsShift (n * unitsPerOne) d (s + 1) := by
      refine ⟨?_, .inr reached⟩
      rw [double, leadingBit]
      omega
    have nearest : Rounding.NearestEven (n * unitsPerOne) (d * 2 ^ (s + 1)) leadingBit := by
      rw [double, leadingBit] at *
      constructor <;> omega
    have wide : 0 < d * 2 ^ (s + 1) := double ▸ Nat.mul_pos Nat.two_pos step_pos
    rw [nearestBits_of_isShift pos same, (Rounding.halfEven_eq_iff wide).2 nearest, Nat.succ_mul]
    exact parts
  · rw [double, leadingBit] at reached
    have before : IsShift (n * unitsPerOne) d s := by
      refine ⟨?_, .inr ?_⟩ <;> rw [leadingBit] <;> omega
    have nearest : Rounding.NearestEven (n * unitsPerOne) (d * 2 ^ s) (2 * leadingBit) := by
      rw [leadingBit]
      constructor <;> omega
    rw [nearestBits_of_isShift pos before, (Rounding.halfEven_eq_iff step_pos).2 nearest, ← parts]
    ring

/-- Such a quotient is rounded to the double. -/
lemma RoundsTo.nearestBits_eq (pos : 0 < d) (rounds : RoundsTo n d bits) : nearestBits n d = bits := by
  rcases gapBelow_cases bits with ⟨gap, normal⟩ | ⟨s, shifted, gap, least⟩
  · exact rounds.nearestBits_eq_of_normal pos gap normal
  · exact rounds.nearestBits_eq_of_least pos shifted gap least

/-- No double is its own neighbour. -/
lemma gapBelow_pos (bits : Nat) : 0 < gapBelow bits := by
  rcases gapBelow_cases bits with ⟨gap, _⟩ | ⟨s, _, gap, _⟩
  · exact gap ▸ Nat.two_pow_pos _
  · exact gap ▸ Nat.two_pow_pos s

/-- Only the bits of zero have no units. -/
lemma units_eq_zero_iff : units bits = 0 ↔ bits = 0 := by
  constructor
  · intro zero
    have least : significand bits = 0 := by
      rw [units_eq] at zero
      exact (Nat.mul_eq_zero.1 zero).resolve_right (Nat.two_pow_pos _).ne'
    have parts := shift_mul_add_significand bits
    rcases shift_eq_zero_or_le_significand bits with none | normal
    · rw [least, none, Nat.zero_mul] at parts
      exact parts.symm
    · rw [least, leadingBit] at normal
      omega
  · rintro rfl
    exact Nat.zero_mul _

/-- The value of a double itself is rounded to it. -/
lemma RoundsTo.of_eq (pos : 0 < d) (same : n * unitsPerOne = units bits * d) : RoundsTo n d bits := by
  have twice : 2 * (n * unitsPerOne) = 2 * units bits * d := by rw [same, Nat.mul_assoc]
  have below := gapBelow_pos bits
  have above : 0 < gapAbove bits := Nat.two_pow_pos (shift bits)
  constructor
  · rw [twice]
    exact Nat.mul_le_mul_right d (Nat.sub_le _ _)
  · rw [twice]
    exact Nat.mul_le_mul_right d (Nat.le_add_right _ _)
  · rw [twice]
    rintro (tie | tie)
    · -- Only for a zero is half a step below no step at all.
      have zero : units bits = 0 := by
        have := Nat.eq_of_mul_eq_mul_right pos tie
        omega
      rw [units_eq_zero_iff.1 zero]
    · have := Nat.eq_of_mul_eq_mul_right pos tie
      omega

/-- How a quotient is written as a fraction makes no difference. -/
lemma nearestBits_congr {n' d' : Nat} (pos : 0 < d) (pos' : 0 < d') (same : n * d' = n' * d) :
    nearestBits n d = nearestBits n' d' := by
  have expanded {n d k : Nat} (pos : 0 < k) : nearestBits (n * k) (d * k) = nearestBits n d := by
    have scaled : n * k * unitsPerOne = n * unitsPerOne * k := Nat.mul_right_comm n k unitsPerOne
    have step (s : Nat) : d * k * Nat.pow 2 s = d * Nat.pow 2 s * k := Nat.mul_right_comm d k _
    simp only [nearestBits, scaled, step, Nat.mul_div_mul_right _ _ pos, Rounding.halfEven_mul_mul pos]
  rw [← expanded pos', same, Nat.mul_comm d d', expanded pos]

end Halfway

end LineCalc.Binary64
