import LineCalc.Decimal
import LineCalc.Proofs.Binary64
import Mathlib.Tactic.IntervalCases

/-!
# Decimals read back

Digits denote the natural that they were written for, and zeros in front of them make no difference. In
plain notation a decimal is written with digits on both sides of a point, and the fraction that these
digits denote is the decimal itself, so both have the same nearest double. Trailing zeros that are left
out are made up for by the exponent.
-/

namespace LineCalc.Decimal

section Digits

/-- The codes of the digits follow one another. -/
lemma toNat_of_isDigit {c : Char} (digit : c.isDigit) : 48 ≤ c.toNat ∧ c.toNat ≤ 57 := by
  simpa [Char.isDigit, UInt32.le_iff_toNat_le] using digit

/-- A natural is written with digits only. -/
lemma isDigit_of_mem_digitChars {n : Nat} {c : Char} (mem : c ∈ digitChars n) : c.isDigit :=
  Nat.isDigit_of_mem_toDigits (by decide) (by decide) mem

/-- A natural has at least one digit. -/
lemma digitChars_ne_nil (n : Nat) : digitChars n ≠ [] := Nat.toDigits_ne_nil

/-- The digits of a natural denote it. -/
lemma ofDigitChars_digitChars (n : Nat) : ofDigitChars (digitChars n) = n := Nat.ofDigitChars_ten_toDigits

variable (digits more : List Char)

/-- Digits count ten times more for each digit behind them. -/
lemma ofDigitChars_append :
    ofDigitChars (digits ++ more) = ofDigitChars digits * 10 ^ more.length + ofDigitChars more := by
  rw [ofDigitChars, Nat.ofDigitChars_append, Nat.ofDigitChars_eq_ofDigitChars_zero, Nat.mul_comm]
  rfl

/-- Zeros denote zero. -/
lemma ofDigitChars_zeros (n : Nat) : ofDigitChars (List.replicate n '0') = 0 := by
  rw [ofDigitChars, Nat.ofDigitChars_replicate_zero, Nat.mul_zero]

/-- Zeros in front make no difference. -/
lemma ofDigitChars_leftpad (n : Nat) : ofDigitChars (digits.leftpad n '0') = ofDigitChars digits := by
  rw [List.leftpad, ofDigitChars_append, ofDigitChars_zeros, Nat.zero_mul, Nat.zero_add]

variable {digits}

/-- Digits with zeros in front are digits. -/
lemma isDigit_of_mem_leftpad {n : Nat} (all : ∀ c ∈ digits, c.isDigit) :
    ∀ c ∈ digits.leftpad n '0', c.isDigit := by
  intro c mem
  rcases List.mem_append.1 mem with pad | mem
  · rw [List.eq_of_mem_replicate pad]
    rfl
  · exact all c mem

end Digits

section Value

/-- The magnitude bits of the double nearest to the decimal. -/
def bits (d : Decimal) : Nat := Binary64.nearestBits (d.digits * upPower d.exponent) (downPower d.exponent)

/-- Nothing is divided by zero. -/
lemma downPower_pos (e : Int) : 0 < downPower e := Nat.pow_pos (by decide)

/-- The next exponent makes a power ten times as large. -/
lemma upPower_succ_mul (e : Int) : upPower (e + 1) * downPower e = 10 * (upPower e * downPower (e + 1)) := by
  simp only [upPower, downPower, Nat.pow_eq]
  by_cases up : 0 ≤ e
  · have next : (e + 1).toNat = e.toNat + 1 := by omega
    have none : (-e).toNat = 0 := by omega
    have none' : (-(e + 1)).toNat = 0 := by omega
    rw [next, none, none', Nat.pow_succ]
    ring
  · have next : (-e).toNat = (-(e + 1)).toNat + 1 := by omega
    have none : e.toNat = 0 := by omega
    have none' : (e + 1).toNat = 0 := by omega
    rw [next, none, none', Nat.pow_succ]
    ring

/-- A whole number of tens has the same value with a zero less and the next exponent. -/
lemma bits_div_ten {digits : Nat} (tens : digits % 10 = 0) (exponent : Int) :
    bits ⟨digits / 10, exponent + 1⟩ = bits ⟨digits, exponent⟩ := by
  have whole : digits / 10 * 10 = digits := Nat.div_mul_cancel (Nat.dvd_of_mod_eq_zero tens)
  apply Binary64.nearestBits_congr (downPower_pos _) (downPower_pos _)
  calc digits / 10 * upPower (exponent + 1) * downPower exponent
      = digits / 10 * 10 * (upPower exponent * downPower (exponent + 1)) := by
        rw [Nat.mul_assoc, upPower_succ_mul, Nat.mul_assoc]
    _ = digits * upPower exponent * downPower (exponent + 1) := by
        rw [whole, Nat.mul_assoc]

/-- Leaving out trailing zeros keeps the value. -/
lemma bits_reduced (digits : Nat) (exponent : Int) :
    (reduced digits exponent).bits = bits ⟨digits, exponent⟩ := by
  fun_induction reduced digits exponent with
  | case1 digits exponent more ih => rw [ih, bits_div_ten more.2]
  | case2 digits exponent done => rfl

end Value

section Notation

/-- Digits around a point whose nearest double has the given magnitude bits. -/
inductive Reads : List Char → Nat → Prop
  | intro {whole fraction : List Char} {bits : Nat} :
    whole ++ fraction ≠ [] → (∀ c ∈ whole, c.isDigit) → (∀ c ∈ fraction, c.isDigit) →
    Binary64.nearestBits (ofDigitChars (whole ++ fraction)) (Nat.pow 10 fraction.length) = bits →
    Reads (whole ++ '.' :: fraction) bits

variable {d : Decimal}

/-- Zeros behind the digits make up for an exponent that is not negative, and the point has a zero behind it. -/
lemma reads_plain_of_nonneg (up : 0 ≤ d.exponent) : Reads d.plain d.bits := by
  have none : (-d.exponent).toNat = 0 := by omega
  have last : ofDigitChars ['0'] = 0 := rfl
  rw [plain, if_pos up]
  refine .intro (List.append_ne_nil_of_right_ne_nil _ (List.cons_ne_nil _ _)) ?_
    (List.forall_mem_singleton.2 rfl) ?_
  · intro c mem
    rcases List.mem_append.1 mem with mem | zero
    · exact isDigit_of_mem_digitChars mem
    · rw [List.eq_of_mem_replicate zero]
      rfl
  · apply Binary64.nearestBits_congr (Nat.pow_pos (by decide)) (downPower_pos _)
    rw [ofDigitChars_append, ofDigitChars_append, ofDigitChars_zeros, ofDigitChars_digitChars, last,
      List.length_replicate, upPower, downPower, none, Nat.add_zero, Nat.add_zero]
    exact Nat.mul_one _

/-- Zeros in front make enough digits for those behind the point. -/
lemma reads_plain_of_neg (down : ¬ 0 ≤ d.exponent) : Reads d.plain d.bits := by
  have none : d.exponent.toNat = 0 := by omega
  rw [plain, if_neg down, bits, upPower, downPower, none]
  dsimp only
  generalize (-d.exponent).toNat = places at *
  have all : ∀ c ∈ (digitChars d.digits).leftpad (places + 1) '0', c.isDigit :=
    isDigit_of_mem_leftpad fun c => isDigit_of_mem_digitChars
  have same : ofDigitChars ((digitChars d.digits).leftpad (places + 1) '0') = d.digits := by
    rw [ofDigitChars_leftpad, ofDigitChars_digitChars]
  have long : places + 1 ≤ ((digitChars d.digits).leftpad (places + 1) '0').length := by
    rw [List.length_leftpad]
    exact Nat.le_max_left _ _
  generalize (digitChars d.digits).leftpad (places + 1) '0' = padded at *
  refine .intro ?_ (fun c mem => all c (List.mem_of_mem_take mem))
    (fun c mem => all c (List.mem_of_mem_drop mem)) ?_
  · rw [List.take_append_drop]
    exact List.ne_nil_of_length_pos (Nat.lt_of_lt_of_le (Nat.succ_pos places) long)
  · have length : (padded.drop (padded.length - places)).length = places := by
      rw [List.length_drop]
      omega
    rw [List.take_append_drop, length, same]
    exact congrArg (Binary64.nearestBits · _) (Nat.mul_one _).symm

/-- Plain notation denotes the decimal. -/
lemma reads_plain (d : Decimal) : Reads d.plain d.bits := by
  by_cases up : 0 ≤ d.exponent
  · exact reads_plain_of_nonneg up
  · exact reads_plain_of_neg up

end Notation

/-!
## Decimal fractions

Digits around a point denote the natural in front of the point and a part of one behind it. Taken together
they are the numerator of a fraction whose denominator has a zero for each digit behind the point. The digits
that a natural is written with start with a zero only if it is zero.
-/

/-- The number that digits around a point denote. -/
def fraction (whole places : List Char) : ℚ :=
  ofDigitChars whole + ofDigitChars places / 10 ^ places.length

/-- Digits around a point denote the natural of all the digits over a power of ten. -/
lemma fraction_eq (whole places : List Char) :
    fraction whole places = ofDigitChars (whole ++ places) / Nat.pow 10 places.length := by
  have pos : (0 : ℚ) < 10 ^ places.length := by positivity
  rw [fraction, ofDigitChars_append, Nat.pow_eq]
  push_cast
  rw [add_div, mul_div_cancel_right₀ _ pos.ne']

/-- No zero is written in front of other digits. -/
lemma head?_digitChars_ne {n : Nat} (nonzero : n ≠ 0) : (digitChars n).head? ≠ some '0' := by
  induction n using Nat.strong_induction_on with
  | h n ih =>
    rw [digitChars, Nat.toDigits_eq_if (by decide)]
    split
    case isTrue small =>
      interval_cases n <;> simp_all [Nat.digitChar]
    case isFalse large =>
      have less : n / 10 < n := Nat.div_lt_self (Nat.pos_of_ne_zero nonzero) (by decide)
      have quotient : n / 10 ≠ 0 := by omega
      rw [List.head?_append_of_ne_nil _ Nat.toDigits_ne_nil]
      exact ih (n / 10) less quotient

/-- Only zero is written with a zero in front. -/
lemma digitChars_eq_of_head? {n : Nat} (zero : (digitChars n).head? = some '0') : digitChars n = ['0'] := by
  by_contra other
  apply head?_digitChars_ne _ zero
  rintro rfl
  exact other rfl

/-!
## The fewest digits read back

A decimal is tried by comparing it with the points halfway to the neighbours of the double, and it passes
if and only if it is rounded to the double. Where none of the grids has a point that passes, the exact
value is taken, which is rounded to the double too. So the digits that are found read back as the double
that they were found for.
-/

open Binary64

variable {bits : Nat} {d : Decimal}

/-- A decimal passes the comparison if and only if it lies in the interval of the double. -/
lemma readsBack_iff :
    readsBack bits d ↔ RoundsTo (d.digits * upPower d.exponent) (downPower d.exponent) bits := by
  have value : 2 * d.digits * upPower d.exponent * unitsPerOne =
      2 * (d.digits * upPower d.exponent * unitsPerOne) := by
    rw [Nat.mul_assoc 2, Nat.mul_assoc 2]
  rw [readsBack, value]
  split
  case isTrue even =>
    rw [decide_eq_true_iff]
    constructor
    · exact fun ⟨below, above⟩ => ⟨below, above, fun _ => even⟩
    · exact fun rounds => ⟨rounds.le_below, rounds.le_above⟩
  case isFalse odd =>
    rw [decide_eq_true_iff]
    constructor
    · rintro ⟨below, above⟩
      refine ⟨Nat.le_of_lt below, Nat.le_of_lt above, ?_⟩
      rintro (tie | tie)
      · exact absurd tie (Nat.ne_of_lt below)
      · exact absurd tie (Nat.ne_of_lt above)
    · rintro ⟨below, above, even⟩
      exact ⟨Nat.lt_of_le_of_ne below fun tie => odd (even (.inl tie)),
        Nat.lt_of_le_of_ne above fun tie => odd (even (.inr tie))⟩

/-- What passes the test has the double as its nearest one. -/
lemma bits_of_readsBack (passes : readsBack bits d) : d.bits = bits :=
  (readsBack_iff.1 passes).nearestBits_eq (downPower_pos d.exponent)

/-- What is found on a grid has passed the comparison. -/
lemma readsBack_of_onGrid? {exponent : Int} (found : onGrid? bits exponent = some d) :
    readsBack bits d := by
  simp only [onGrid?] at found
  split at found
  case h_1 => cases found
  case h_2 below _ =>
    cases found
    exact below
  case h_3 _ above =>
    cases found
    exact above
  case h_4 below above =>
    split at found
    case isTrue =>
      cases found
      exact below
    case isFalse =>
      cases found
      exact above

-- The exponent is a variable here, since powers of this size are not to be evaluated.
/-- The exact value of a double is its units with so many factors of five and as many places. -/
lemma exact_eq {k : Nat} (same : k = 1074) : exact bits = ⟨units bits * 5 ^ k, -k⟩ := by
  have exponent : (-1074 : Int) = -k := by
    rw [same]
    rfl
  unfold exact
  rw [exponent]
  generalize 1074 = m at same ⊢
  rw [same]
  rfl

/-- The exact value of a double is rounded to it. -/
lemma bits_exact (bits : Nat) : (exact bits).bits = bits := by
  obtain ⟨k, same⟩ : ∃ k, k = 1074 := ⟨1074, rfl⟩
  have none : (-(k : Int)).toNat = 0 := by omega
  have some : (- -(k : Int)).toNat = k := by omega
  apply RoundsTo.nearestBits_eq (downPower_pos _)
  apply RoundsTo.of_eq (downPower_pos _)
  rw [exact_eq same, unitsPerOne_eq same, upPower, downPower, none, some]
  calc units bits * 5 ^ k * 10 ^ 0 * 2 ^ k = units bits * (5 * 2) ^ k := by
        rw [Nat.mul_pow]
        ring
    _ = units bits * 10 ^ k := rfl

/-- The digits that are found read back. -/
lemma bits_shortest (bits : Nat) : (shortest bits).bits = bits := by
  rw [shortest, bits_reduced]
  cases found : (List.range 17).findSome? fun n : Nat => onGrid? bits (leadingExponent bits - n) with
  | none => exact bits_exact bits
  | some d =>
    obtain ⟨n, _, tried⟩ := List.exists_of_findSome?_eq_some found
    exact bits_of_readsBack (readsBack_of_onGrid? tried)

end LineCalc.Decimal
