import LineCalc.Proofs.Binary64

/-!
# Exact values of doubles

A finite double is its magnitude with a sign. The double that a quotient is rounded to is the nearest of all
finite ones, and of two that are equally near the one with the even significand. It is finite as long as the
quotient is below the point halfway between the largest double and the power of two that would follow it. The
integers that take part in arithmetic are doubles as they are.
-/

namespace LineCalc.Binary64

/-- The exact value of a finite double. -/
def value (x : Float) : ℚ := if isNegative x then -magnitude x else magnitude x

/-- No finite double is nearer to the number, and of two equally near ones it has the even significand. -/
structure IsNearest (q : ℚ) (x : Float) : Prop where
  finite : IsFinite x
  le : ∀ y, IsFinite y → |value x - q| ≤ |value y - q|
  even : ∀ y, IsFinite y → value y ≠ value x → |value x - q| = |value y - q| →
    Even (significand (magnitudeBits x))

section Magnitude

variable {negative : Bool} {bits : Nat}

/-- The magnitude of a double is the number of units of the bits it was made of. -/
lemma magnitude_ofMagnitudeBits (finite : bits < infinityBits) :
    magnitude (ofMagnitudeBits negative bits) = units bits / unitsPerOne := by
  rw [magnitude, magnitudeBits_ofMagnitudeBits finite]

/-- No magnitude is negative. -/
lemma magnitude_nonneg (x : Float) : 0 ≤ magnitude x := div_nonneg (Nat.cast_nonneg _) (Nat.cast_nonneg _)

/-- The leading bit is an even significand. -/
lemma even_leadingBit : Even leadingBit := Nat.even_iff.2 rfl

/-- The significand is even exactly if the bits are. -/
lemma even_significand_iff : Even (significand bits) ↔ Even bits := by
  have parts := shift_mul_add_significand bits
  rw [leadingBit] at parts
  rw [Nat.even_iff, Nat.even_iff]
  omega

/-- Without a sign a double is its magnitude. -/
lemma value_of_isNegative_eq_false {x : Float} (positive : isNegative x = false) : value x = magnitude x := by
  rw [value, positive]
  rfl

end Magnitude

section Nearest

/-- The distance between neighbours among the doubles with a shift. -/
def step (s : Nat) : ℚ := 2 ^ s / unitsPerOne

/-- A step is positive. -/
lemma step_pos (s : Nat) : 0 < step s := div_pos (pow_pos two_pos s) (Nat.cast_pos.2 unitsPerOne_pos)

/-- A magnitude is a multiple of the step of a shift, or it has a smaller shift and lies below those that have
this one. -/
lemma magnitude_cases (x : Float) (s : Nat) :
    (∃ m : ℕ, magnitude x = m * step s) ∨ 0 < s ∧ magnitude x < leadingBit * step s := by
  have pos : (0 : ℚ) < unitsPerOne := Nat.cast_pos.2 unitsPerOne_pos
  rw [magnitude, units_eq, step, ← mul_div_assoc]
  generalize magnitudeBits x = bits
  rcases Nat.lt_or_ge (shift bits) s with less | le
  · have below : significand bits * 2 ^ shift bits < leadingBit * 2 ^ s :=
      calc significand bits * 2 ^ shift bits < 2 * leadingBit * 2 ^ shift bits :=
            Nat.mul_lt_mul_of_pos_right (significand_lt bits) (Nat.two_pow_pos _)
        _ = leadingBit * 2 ^ (shift bits + 1) := by ring
        _ ≤ leadingBit * 2 ^ s := Nat.mul_le_mul_left _ (Nat.pow_le_pow_right Nat.two_pos less)
    exact .inr ⟨Nat.zero_lt_of_lt less, div_lt_div_of_pos_right (by exact_mod_cast below) pos⟩
  · obtain ⟨t, same⟩ := Nat.exists_eq_add_of_le le
    refine .inl ⟨significand bits * 2 ^ t, ?_⟩
    rw [same, pow_add]
    push_cast
    ring

/-- The same of a value; one with a sign lies below all the magnitudes. -/
lemma value_cases (x : Float) (s : Nat) :
    (∃ m : ℤ, value x = m * step s) ∨ 0 < s ∧ value x < (leadingBit : ℤ) * step s := by
  rw [value]
  rcases magnitude_cases x s with ⟨m, same⟩ | ⟨small, below⟩
  · left
    split
    · exact ⟨-m, by rw [same]; push_cast; ring⟩
    · exact ⟨m, same⟩
  · refine .inr ⟨small, ?_⟩
    split
    · exact (neg_le_self (magnitude_nonneg x)).trans_lt below
    · exact below

variable {n d s : Nat}

/-- Rounding what a shift leaves of a quotient gives the nearest multiple of the step. -/
lemma isNearestMultiple_halfEven (pos : 0 < d) (s : Nat) :
    Rounding.IsNearestMultiple (step s) (n / d) (Rounding.halfEven (n * unitsPerOne) (d * 2 ^ s)) := by
  have one : (0 : ℚ) < unitsPerOne := Nat.cast_pos.2 unitsPerOne_pos
  have denominator : (0 : ℚ) < d := Nat.cast_pos.2 pos
  have wide : 0 < d * 2 ^ s := Nat.mul_pos pos (Nat.two_pow_pos s)
  apply (Rounding.nearestEven_halfEven wide (n * unitsPerOne)).isNearestMultiple wide (step_pos s)
  rw [step]
  push_cast
  field_simp

/-- A shifted quotient has reached the least double with its shift. -/
lemma IsShift.mul_step_le (pos : 0 < d) (shifted : IsShift (n * unitsPerOne) d s) (small : 0 < s) :
    (leadingBit : ℤ) * step s ≤ n / d := by
  have le := shifted.le.resolve_left small.ne'
  rw [step, ← mul_div_assoc, div_le_div_iff₀ (Nat.cast_pos.2 unitsPerOne_pos) (Nat.cast_pos.2 pos),
    mul_assoc, mul_comm _ (d : ℚ)]
  exact_mod_cast le

/-- The double that a quotient is rounded to is the nearest one. -/
lemma isNearest_nearestBits (pos : 0 < d) (finite : nearestBits n d < infinityBits) :
    IsNearest (n / d) (ofMagnitudeBits false (nearestBits n d)) := by
  have shifted := isShift_log2 pos (n * unitsPerOne)
  generalize (n * unitsPerOne / d).log2 - 52 = s at shifted
  have bits := nearestBits_of_isShift pos shifted
  have units := units_nearestBits pos shifted
  have multiple := isNearestMultiple_halfEven (n := n) pos s
  generalize Rounding.halfEven (n * unitsPerOne) (d * 2 ^ s) = r at *
  have here : value (ofMagnitudeBits false (nearestBits n d)) = r * step s := by
    rw [value_of_isNegative_eq_false (isNegative_ofMagnitudeBits finite),
      magnitude_ofMagnitudeBits finite, units]
    push_cast
    exact mul_div_assoc _ _ _
  -- Doubles of this shift are multiples of its step, and the others are too small to be nearer.
  refine ⟨isFinite_ofMagnitudeBits finite, fun y _ => ?_, fun y _ other tie => ?_⟩
  · rw [here]
    rcases value_cases y s with ⟨m, there⟩ | ⟨small, below⟩
    · rw [there]
      exact multiple.le m
    · exact (multiple.lt_of_below (shifted.mul_step_le pos small) below).le
  · rw [here] at other tie
    rcases value_cases y s with ⟨m, there⟩ | ⟨small, below⟩
    · have even : Even r := by
        apply multiple.even m _ (there ▸ tie)
        rintro rfl
        exact other there
      rw [magnitudeBits_ofMagnitudeBits finite, even_significand_iff, bits]
      exact (even_leadingBit.mul_left s).add even
    · exact absurd tie (multiple.lt_of_below (shifted.mul_step_le pos small) below).ne

end Nearest

section Unique

variable {q : ℚ} {x y : Float}

/-- The next double is one step further. -/
lemma units_succ (bits : Nat) : units (bits + 1) = units bits + gapAbove bits := by
  have parts := shift_mul_add_significand bits
  have normal := (shift_eq_zero_or_le_significand bits).imp_right Nat.le_succ_of_le
  have next := units_shift_add (Nat.succ_le_of_lt (significand_lt bits)) normal
  rw [Nat.succ_eq_add_one, ← Nat.add_assoc, parts, Nat.succ_mul] at next
  exact next

/-- Greater bits are those of more units. -/
lemma strictMono_units : StrictMono units := by
  apply strictMono_nat_of_lt_succ
  intro bits
  rw [units_succ]
  exact Nat.lt_add_of_pos_right (Nat.two_pow_pos (shift bits))

/-- A double is told by its sign and its magnitude. -/
lemma eq_of_magnitudeBits {x y : Float} (sign : isNegative x = isNegative y)
    (magnitude : magnitudeBits x = magnitudeBits y) : x = y := by
  have bound := x.toBits.toNat_lt
  have bound' := y.toBits.toNat_lt
  rw [isNegative, isNegative, decide_eq_decide, signBit] at sign
  rw [magnitudeBits, magnitudeBits, signBit] at magnitude
  have bits : x.toBits = y.toBits := by
    apply UInt64.toNat_inj.1
    omega
  obtain ⟨⟨_, _⟩⟩ := x
  obtain ⟨⟨_, _⟩⟩ := y
  cases bits
  rfl

/-- Greater bits are those of a greater magnitude. -/
lemma magnitude_lt_magnitude (less : magnitudeBits x < magnitudeBits y) : magnitude x < magnitude y :=
  div_lt_div_of_pos_right (Nat.cast_lt.2 (strictMono_units less)) (Nat.cast_pos.2 unitsPerOne_pos)

/-- Between two numbers that are equally far from a number every other one is nearer. -/
lemma abs_sub_lt_of_between {a b c : ℚ} (tie : |a - q| = |c - q|) (above : a < b) (below : b < c) :
    |b - q| < |a - q| := by
  rcases abs_eq_abs.1 tie with same | opposite
  · linarith
  · rw [abs_of_neg (show a - q < 0 by linarith), abs_lt]
    constructor <;> linarith

/-- Of two doubles without a sign that are nearest none is the smaller one: if both were even, there would be
a nearer one between them. -/
lemma IsNearest.le_magnitudeBits (nearest : IsNearest q x) (nearest' : IsNearest q y)
    (positive : isNegative x = false) (positive' : isNegative y = false) :
    magnitudeBits y ≤ magnitudeBits x := by
  by_contra beyond
  have apart := magnitude_lt_magnitude (Nat.lt_of_not_le beyond)
  have here := value_of_isNegative_eq_false positive
  have there := value_of_isNegative_eq_false positive'
  have tie := le_antisymm (nearest.le y nearest'.finite) (nearest'.le x nearest.finite)
  rw [← here, ← there] at apart
  have even := even_significand_iff.1 (nearest.even y nearest'.finite apart.ne' tie)
  have even' := even_significand_iff.1 (nearest'.even x nearest.finite apart.ne tie.symm)
  have between : magnitudeBits x + 1 < magnitudeBits y := by
    rw [Nat.even_iff] at even even'
    omega
  have inside : magnitudeBits x + 1 < infinityBits := between.trans nearest'.finite
  -- The double that follows the smaller one lies between the two.
  let z := ofMagnitudeBits false (magnitudeBits x + 1)
  have bits : magnitudeBits z = magnitudeBits x + 1 := magnitudeBits_ofMagnitudeBits inside
  have middle : value z = magnitude z :=
    value_of_isNegative_eq_false (isNegative_ofMagnitudeBits inside)
  have above : value x < value z := by
    rw [here, middle]
    exact magnitude_lt_magnitude (bits ▸ Nat.lt_succ_self _)
  have below : value z < value y := by
    rw [middle, there]
    exact magnitude_lt_magnitude (bits ▸ between)
  exact absurd (nearest.le z (isFinite_ofMagnitudeBits inside))
    (not_le.2 (abs_sub_lt_of_between tie above below))

/-- Only one double without a sign is nearest. -/
lemma IsNearest.unique (nearest : IsNearest q x) (nearest' : IsNearest q y)
    (positive : isNegative x = false) (positive' : isNegative y = false) : x = y :=
  eq_of_magnitudeBits (positive.trans positive'.symm)
    (le_antisymm (nearest'.le_magnitudeBits nearest positive' positive)
      (nearest.le_magnitudeBits nearest' positive positive'))

end Unique

section Overflow

variable {n d : Nat}

/-- A quotient is rounded to a double of the shift or a smaller one if and only if it is less than half a step
away from the first double beyond them. -/
lemma nearestBits_lt_iff (pos : 0 < d) (s : Nat) :
    nearestBits n d < (s + 2) * leadingBit ↔
      2 * (n * unitsPerOne) + d * 2 ^ s < 4 * leadingBit * (d * 2 ^ s) := by
  have shifted := isShift_log2 pos (n * unitsPerOne)
  have bits := nearestBits_of_isShift pos shifted
  generalize (n * unitsPerOne / d).log2 - 52 = t at *
  obtain ⟨lt, le⟩ := shifted
  have wide (u : Nat) : 0 < d * 2 ^ u := Nat.mul_pos pos (Nat.two_pow_pos u)
  have nearest := Rounding.nearestEven_halfEven (wide t) (n * unitsPerOne)
  have most := Rounding.halfEven_le lt
  have least := le.imp_right (Rounding.le_halfEven (wide t))
  rw [bits]
  generalize Rounding.halfEven (n * unitsPerOne) (d * 2 ^ t) = r at *
  have double {u v : Nat} (less : u < v) : 2 * (d * 2 ^ u) ≤ d * 2 ^ v := by
    rw [Nat.mul_left_comm, ← pow_succ']
    exact Nat.mul_le_mul_left d (Nat.pow_le_pow_right Nat.two_pos less)
  have step := wide s
  rw [leadingBit] at *
  rcases lt_trichotomy t s with less | rfl | more
  · have := double less
    constructor <;> omega
  · -- Here the last quotients are decided by the tie, which goes to the even significand beyond.
    have := nearest.lt_iff step (k := 2 * leadingBit) (Nat.mul_mod_right 2 _)
    rw [leadingBit] at this
    omega
  · have := double more
    constructor <;> omega

/-- A quotient is rounded to a finite double if and only if it is less than half a step away from the power of
two beyond the largest one. -/
lemma nearestBits_lt_infinityBits_iff (pos : 0 < d) :
    nearestBits n d < infinityBits ↔ (n / d : ℚ) < 2 ^ 1024 - 2 ^ 970 := by
  -- The exponents are variables here, since powers of this size are not to be evaluated.
  obtain ⟨k, one⟩ : ∃ k, k = 1074 := ⟨1074, rfl⟩
  obtain ⟨s, last⟩ : ∃ s, s = 970 := ⟨970, rfl⟩
  have denominator : (0 : ℚ) < d := Nat.cast_pos.2 pos
  have bits : infinityBits = (s + k + 1 + 2) * leadingBit := by
    rw [one, last]
    rfl
  have top : 1024 = s + 54 := by rw [last]
  have scaled : 2 * (n * 2 ^ k) + d * 2 ^ (s + k + 1) < 4 * leadingBit * (d * 2 ^ (s + k + 1)) ↔
      n + d * 2 ^ s < d * 2 ^ (s + 54) := by
    have leading : leadingBit = 2 ^ 52 := rfl
    have left : 2 * (n * 2 ^ k) + d * 2 ^ (s + k + 1) = (n + d * 2 ^ s) * (2 * 2 ^ k) := by ring
    have right : 4 * leadingBit * (d * 2 ^ (s + k + 1)) = d * 2 ^ (s + 54) * (2 * 2 ^ k) := by
      rw [leading]
      ring
    rw [left, right]
    exact Nat.mul_lt_mul_right (Nat.mul_pos Nat.two_pos (Nat.two_pow_pos k))
  rw [bits, nearestBits_lt_iff pos, unitsPerOne_eq one, scaled, top, ← last, div_lt_iff₀ denominator,
    sub_mul, lt_sub_iff_add_lt, mul_comm _ (d : ℚ), mul_comm _ (d : ℚ)]
  exact_mod_cast Iff.rfl

end Overflow

section Integers

/-- A natural of at most 53 bits is a double. -/
lemma units_nearestBits_one {n : Nat} (small : n < 2 ^ 53) : units (nearestBits n 1) = n * unitsPerOne := by
  obtain ⟨k, one⟩ : ∃ k, k = 1074 := ⟨1074, rfl⟩
  have shifted := isShift_log2 Nat.one_pos (n * unitsPerOne)
  rw [units_nearestBits Nat.one_pos shifted]
  generalize (n * unitsPerOne / 1).log2 - 52 = s at *
  have inside : s ≤ k := by
    rcases shifted.le with none | le
    · exact none ▸ Nat.zero_le k
    · have below : leadingBit * 2 ^ s < leadingBit * 2 ^ (k + 1) := by
        have lt := Nat.mul_lt_mul_of_pos_right small unitsPerOne_pos
        rw [unitsPerOne_eq one] at le lt
        rw [leadingBit, Nat.one_mul] at le
        rw [leadingBit, pow_succ]
        omega
      exact Nat.le_of_lt_succ ((Nat.pow_lt_pow_iff_right Nat.one_lt_two).1 (Nat.lt_of_mul_lt_mul_left below))
  obtain ⟨t, rfl⟩ := Nat.exists_eq_add_of_le inside
  rw [unitsPerOne_eq one, Nat.one_mul, pow_add, Nat.mul_comm (2 ^ s), ← Nat.mul_assoc,
    Rounding.halfEven_mul (Nat.two_pow_pos s)]

/-- A natural is rounded to a double without a sign. -/
lemma ofInt_natCast (n : Nat) : ofInt n = ofMagnitudeBits false (nearestBits n 1) := by
  rw [ofInt, Int.natAbs_natCast, decide_eq_false (Int.natCast_nonneg n).not_gt]

/-- The double nearest to a natural that takes part in arithmetic is the double of that natural. -/
lemma nearest?_one {n : Nat} (small : n ≤ Arithmetic.maxExactInteger) : nearest? n 1 = some (ofInt n) := by
  rw [ofInt_natCast]
  exact if_pos (nearestBits_one_lt small)

/-- An integer that takes part in arithmetic is the value of its double. -/
lemma value_ofInt {n : ℤ} (small : n.natAbs ≤ Arithmetic.maxExactInteger) : value (ofInt n) = n := by
  have exact' : magnitude (ofInt n) = |(n : ℚ)| := by
    rw [ofInt, magnitude_ofMagnitudeBits (nearestBits_one_lt small),
      units_nearestBits_one (Nat.lt_succ_of_le small), Nat.cast_mul,
      mul_div_cancel_right₀ _ (Nat.cast_ne_zero.2 unitsPerOne_pos.ne'), Nat.cast_natAbs, Int.cast_abs]
  have sign : isNegative (ofInt n) = decide (n < 0) := isNegative_ofMagnitudeBits (nearestBits_one_lt small)
  rw [value, exact', sign]
  by_cases negative : n < 0
  · rw [if_pos (decide_eq_true negative), abs_of_neg (Int.cast_lt_zero.2 negative), neg_neg]
  · rw [if_neg (by simpa using negative), abs_of_nonneg (Int.cast_nonneg (le_of_not_gt negative))]

end Integers

end LineCalc.Binary64
