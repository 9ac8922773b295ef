import LineCalc.Binary64
import Mathlib.Algebra.Order.Field.Rat
import Mathlib.Algebra.Order.Ring.Abs
import Mathlib.Algebra.Ring.Parity
import Mathlib.Tactic.FieldSimp
import Mathlib.Tactic.Lemma
import Mathlib.Tactic.Linarith

/-!
# Nearest numbers

Rounding gives the nearest natural and, on a grid, the nearest multiple of its step.

## The nearest natural

A rounded quotient is at most one half away from the quotient, and if it is exactly one half away, it is
even. Only one natural is so, and it does not depend on how the quotient is written as a fraction.
-/

namespace LineCalc.Rounding

/-- At most one half away from `n / d`, and even if it is exactly one half away. -/
structure NearestEven (n d q : Nat) : Prop where
  le_above : 2 * (q * d) ≤ 2 * n + d
  le_below : 2 * n ≤ 2 * (q * d) + d
  even_of_tie : 2 * (q * d) = 2 * n + d ∨ 2 * n = 2 * (q * d) + d → q % 2 = 0

variable {n d q q' : Nat}

/-- What is rounded to is at most one half away, and even if it is one half away. -/
lemma nearestEven_halfEven (pos : 0 < d) (n : Nat) : NearestEven n d (halfEven n d) := by
  have less := Nat.mod_lt n pos
  have whole : n / d * d + n % d = n := Nat.div_add_mod' n d
  have next : (n / d + 1) * d = n / d * d + d := Nat.succ_mul (n / d) d
  simp only [halfEven]
  generalize n / d = floor at *
  generalize n % d = rest at *
  split
  case isTrue down => constructor <;> omega
  case isFalse up => constructor <;> omega

/-- Two naturals that are nearest are the same. -/
lemma NearestEven.le (pos : 0 < d) (nearest : NearestEven n d q) (nearest' : NearestEven n d q') :
    q ≤ q' := by
  by_contra less
  have apart : (q' + 1) * d ≤ q * d := Nat.mul_le_mul_right d (Nat.lt_of_not_le less)
  rw [Nat.succ_mul] at apart
  -- Both are one half away, so both are even, and they are neighbours.
  obtain ⟨above, _, even⟩ := nearest
  obtain ⟨_, below, even'⟩ := nearest'
  have next : q * d = (q' + 1) * d := by
    rw [Nat.succ_mul]
    omega
  have same := Nat.eq_of_mul_eq_mul_right pos next
  omega

/-- Only one natural is the nearest one and, of two, the even one. -/
lemma NearestEven.unique (pos : 0 < d) (nearest : NearestEven n d q) (nearest' : NearestEven n d q') :
    q = q' :=
  Nat.le_antisymm (nearest.le pos nearest') (nearest'.le pos nearest)

/-- Rounding gives the nearest natural, and the even one of two. -/
lemma halfEven_eq_iff (pos : 0 < d) : halfEven n d = q ↔ NearestEven n d q := by
  constructor
  · rintro rfl
    exact nearestEven_halfEven pos n
  · exact (nearestEven_halfEven pos n).unique pos

/-- A quotient below a natural is not rounded beyond it. -/
lemma halfEven_le (below : n < q * d) : halfEven n d ≤ q := by
  have quotient : n / d < q := Nat.div_lt_of_lt_mul (Nat.mul_comm q d ▸ below)
  rw [halfEven]
  split
  case isTrue => exact Nat.le_of_lt quotient
  case isFalse => exact quotient

/-- A quotient from a natural on is not rounded below it. -/
lemma le_halfEven (pos : 0 < d) (le : q * d ≤ n) : q ≤ halfEven n d := by
  have whole := (Nat.le_div_iff_mul_le pos).2 le
  rw [halfEven]
  split
  case isTrue => exact whole
  case isFalse => exact Nat.le_succ_of_le whole

/-- A fraction may be expanded. -/
lemma halfEven_mul_mul {k : Nat} (pos : 0 < k) (n d : Nat) :
    halfEven (n * k) (d * k) = halfEven n d := by
  have twice : 2 * (n % d * k) = 2 * (n % d) * k := (Nat.mul_assoc 2 (n % d) k).symm
  have below : 2 * (n % d) * k < d * k ↔ 2 * (n % d) < d := Nat.mul_lt_mul_right pos
  have tie : 2 * (n % d) * k = d * k ↔ 2 * (n % d) = d := Nat.mul_left_inj (Nat.ne_of_gt pos)
  simp only [halfEven, Nat.mul_div_mul_right n d pos, Nat.mul_mod_mul_right, twice, below, tie]

/-!
## The nearest multiple

A quotient that is rounded to the nearest natural gives the nearest multiple of a step. No other multiple is
nearer to the number, and if another one is just as near, the one that was chosen is the even one.
-/

/-- No multiple of the step is nearer to the number, and of two equally near ones it is the even one. -/
structure IsNearestMultiple (step x : ℚ) (q : ℕ) : Prop where
  le : ∀ m : ℤ, |q * step - x| ≤ |m * step - x|
  even : ∀ m : ℤ, m ≠ q → |q * step - x| = |m * step - x| → Even q

/-- Another integer is at least as far from the quotient, and if it is just as far, the nearest one is even. -/
lemma NearestEven.natAbs_le (nearest : NearestEven n d q) {m : ℤ} (other : m ≠ q) :
    (q * d - n : ℤ).natAbs ≤ (m * d - n).natAbs ∧
    ((q * d - n : ℤ).natAbs = (m * d - n).natAbs → q % 2 = 0) := by
  obtain ⟨above, below, even⟩ := nearest
  zify at above below even
  have apart : m * d + d ≤ q * d ∨ q * d + d ≤ m * d := by
    have next {a b : ℤ} (less : a < b) : a * d + d ≤ b * d := by
      have step := mul_le_mul_of_nonneg_right (Int.add_one_le_of_lt less) (Int.natCast_nonneg d)
      rwa [add_mul, one_mul] at step
    exact (lt_or_gt_of_ne other).imp next next
  generalize m * (d : ℤ) = there at *
  generalize (q : ℤ) * d = here at *
  constructor
  · omega
  · intro same
    omega

/-- A quotient is rounded to less than an even natural if and only if it is more than one half below it. -/
lemma NearestEven.lt_iff (pos : 0 < d) (nearest : NearestEven n d q) {k : ℕ} (even : k % 2 = 0) :
    q < k ↔ 2 * n + d < 2 * (k * d) := by
  obtain ⟨above, below, even'⟩ := nearest
  constructor
  · intro less
    rcases Nat.eq_or_lt_of_le less with rfl | further
    · -- One half below is a tie, which goes to the even natural and not to its neighbour.
      rw [Nat.succ_mul q d]
      omega
    · have le := Nat.mul_le_mul_right d (Nat.succ_le_of_lt further)
      rw [Nat.succ_mul, Nat.succ_mul] at le
      omega
  · intro small
    by_contra beyond
    have le := Nat.mul_le_mul_right d (Nat.le_of_not_lt beyond)
    omega

/-- The distance of a multiple of a step, in terms of the quotient that was rounded. -/
lemma abs_mul_sub {x step : ℚ} (pos : 0 < d) (positive : 0 < step) (same : x * d = n * step) (m : ℤ) :
    |m * step - x| = (m * d - n).natAbs * (step / d) := by
  have denominator : (0 : ℚ) < d := Nat.cast_pos.2 pos
  have difference : m * step - x = ((m * d - n : ℤ) : ℚ) * (step / d) := by
    rw [eq_div_of_mul_eq denominator.ne' same]
    push_cast
    field_simp
  rw [difference, abs_mul, abs_of_pos (div_pos positive denominator), Nat.cast_natAbs, Int.cast_abs]

/-- Rounding a quotient gives the nearest multiple of a step. -/
lemma NearestEven.isNearestMultiple {x step : ℚ} (nearest : NearestEven n d q) (pos : 0 < d)
    (positive : 0 < step) (same : x * d = n * step) : IsNearestMultiple step x q := by
  have unit : 0 < step / d := div_pos positive (Nat.cast_pos.2 pos)
  have here := abs_mul_sub pos positive same q
  rw [Int.cast_natCast] at here
  constructor
  · intro m
    rcases eq_or_ne m q with rfl | other
    · rfl
    · rw [here, abs_mul_sub pos positive same m]
      exact mul_le_mul_of_nonneg_right (Nat.cast_le.2 (nearest.natAbs_le other).1) unit.le
  · intro m other tie
    rw [here, abs_mul_sub pos positive same m] at tie
    have tie := Nat.cast_injective (mul_right_cancel₀ unit.ne' tie)
    exact Nat.even_iff.2 ((nearest.natAbs_le other).2 tie)

/-- What lies beyond a multiple below the number is not as near as the nearest one. -/
lemma IsNearestMultiple.lt_of_below {x step v : ℚ} (nearest : IsNearestMultiple step x q) {m : ℤ}
    (reached : m * step ≤ x) (below : v < m * step) : |q * step - x| < |v - x| := by
  have le := nearest.le m
  rw [abs_of_nonpos (sub_nonpos.2 reached)] at le
  rw [abs_of_neg (sub_neg.2 (below.trans_le reached))]
  linarith

end LineCalc.Rounding
