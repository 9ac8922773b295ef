import LineCalc.Proofs.Line.Result
import LineCalc.Proofs.Token.Literal

/-!
# Integers are exact

A line of digits is an integer. Up to `2 ^ 53 - 1` its value is that integer, which is written with two zeros
behind the point. From there up to `2 ^ 63 - 1` it is read but has no value, and beyond that it is not read.
So no integer is rounded.
-/

namespace LineCalc

namespace Arithmetic

/-- An integer takes part in arithmetic if and only if its magnitude has at most 53 bits. -/
lemma exists_ofInteger_eq_ok_iff {n : ℤ} : (∃ x, ofInteger n = .ok x) ↔ |n| ≤ 2 ^ 53 - 1 := by
  have bound : n.natAbs ≤ maxExactInteger ↔ |n| ≤ 2 ^ 53 - 1 := by
    rw [Int.abs_eq_natAbs, maxExactInteger]
    omega
  rw [← bound]
  constructor
  · rintro ⟨x, done⟩
    exact (ofInteger_eq_ok_iff.1 done).1
  · intro small
    exact ⟨_, ofInteger_eq_ok_iff.2 ⟨small, rfl⟩⟩

end Arithmetic

namespace Numeral

/-- A natural of at most 53 bits has no hundredths beyond its whole. -/
lemma twoPlaces_nearestBits_one {n : ℕ} (small : n < 2 ^ 53) :
    twoPlaces (Binary64.nearestBits n 1) = Decimal.digitChars n ++ ['.', '0', '0'] := by
  have hundreds : hundredths (Binary64.nearestBits n 1) = n * 100 := by
    rw [hundredths, Binary64.units_nearestBits_one small, Nat.mul_right_comm,
      Rounding.halfEven_mul Binary64.unitsPerOne_pos]
  rw [twoPlaces, hundreds, Nat.mul_div_cancel n (by decide), Nat.mul_mod_left]
  rfl

end Numeral

namespace Line

variable {line : String} {n : ℕ}

/-- An exact natural is written with two zeros behind the point. -/
lemma resultText_ofInt (small : n ≤ Arithmetic.maxExactInteger) :
    resultText (Binary64.ofInt n) = toString n ++ ".00" := by
  have finite := Binary64.nearestBits_one_lt small
  have written := toList_resultText (Binary64.isFinite_ofMagnitudeBits finite)
    (Binary64.isNegative_ofMagnitudeBits finite)
  apply String.toList_inj.1
  rw [Binary64.ofInt_natCast, written, Binary64.magnitudeBits_ofMagnitudeBits finite,
    Numeral.twoPlaces_nearestBits_one (Nat.lt_succ_of_le small), Nat.toString_eq_ofList_toDigits,
    String.toList_append, String.toList_ofList]
  rfl

/-- A line of digits is read as the natural that they denote, as long as that fits. -/
lemma evaluate_of_digits (nonempty : line ≠ "") (digits : ∀ c ∈ line.toList, c.isDigit)
    (denoted : Decimal.ofDigitChars line.toList = n) (fits : n ≤ Token.maxInteger) :
    evaluate line = (Arithmetic.ofInteger n).mapError .evaluation := by
  have nonempty : line.toList ≠ [] := fun empty => nonempty (String.toList_eq_nil_iff.1 empty)
  have spelled : Token.Spelled (Operand.integer n).token line.toList :=
    .integer nonempty digits (congrArg Int.ofNat denoted) (Int.ofNat_le.2 fits)
  exact evaluate_of_operand (Token.ofText_spelled spelled)

/-- An integer takes part in arithmetic if and only if it has at most 53 bits, and its double is then that
integer. A line of digits has a value if the natural that they denote is so small, and is written with that
natural and two zeros; it is refused by arithmetic up to 63 bits, and as a literal beyond them. -/
theorem evaluate_digits_exact :
    (∀ n : ℤ, (∃ x, Arithmetic.ofInteger n = .ok x) ↔ |n| ≤ 2 ^ 53 - 1) ∧
    (∀ n x, Arithmetic.ofInteger n = .ok x → Binary64.IsFinite x ∧ Binary64.value x = n) ∧
    ∀ (line : String) (n : ℕ), line ≠ "" → (∀ c ∈ line.toList, c.isDigit) →
      Decimal.ofDigitChars line.toList = n →
      (n ≤ 2 ^ 53 - 1 → ∃ x, evaluate line = .ok x ∧ Binary64.value x = n ∧
        resultText x = toString n ++ ".00") ∧
      (2 ^ 53 ≤ n → n ≤ 2 ^ 63 - 1 → evaluate line = .error (.evaluation (.integerTooLarge n))) ∧
      (2 ^ 63 ≤ n → evaluate line = .error (.lexical (.literalTooLarge line 0))) := by
  refine ⟨fun n => Arithmetic.exists_ofInteger_eq_ok_iff, fun n x done => ?_,
    fun line n nonempty digits denoted => ⟨fun small => ?_, ?_, ?_⟩⟩
  · obtain ⟨small, rfl⟩ := Arithmetic.ofInteger_eq_ok_iff.1 done
    exact ⟨Binary64.isFinite_ofInt small, Binary64.value_ofInt small⟩
  · have exact' : Arithmetic.ofInteger n = .ok (Binary64.ofInt n) :=
      Arithmetic.ofInteger_eq_ok_iff.2 ⟨small, rfl⟩
    refine ⟨_, ?_, Binary64.value_ofInt small, resultText_ofInt small⟩
    rw [evaluate_of_digits nonempty digits denoted (small.trans (by decide)), exact']
    rfl
  · intro large fits
    have refused : Arithmetic.ofInteger n = .error (.integerTooLarge n) :=
      if_neg fun small => absurd large (Nat.not_le.2 (Nat.lt_succ_of_le small))
    rw [evaluate_of_digits nonempty digits denoted fits, refused]
    rfl
  · intro beyond
    have nonempty : line.toList ≠ [] := fun empty => nonempty (String.toList_eq_nil_iff.1 empty)
    apply evaluate_of_unread
    apply Token.ofText_of_tooLarge (.integer nonempty digits) (.integer ?_) rfl
    rw [denoted]
    exact beyond

/-- A negative integer, the last one that is exact with a zero in front of it, the next one, and the first one
that is not read. -/
theorem evaluate_digits_exact_bounds :
    (∃ x, Arithmetic.ofInteger (-7) = .ok x ∧ Binary64.value x = -7) ∧
    (∃ x, evaluate "09007199254740991" = .ok x ∧ Binary64.value x = 9007199254740991 ∧
      resultText x = "9007199254740991.00") ∧
    evaluate "9007199254740992" = .error (.evaluation (.integerTooLarge 9007199254740992)) ∧
    evaluate "9223372036854775808" = .error (.lexical (.literalTooLarge "9223372036854775808" 0)) := by
  obtain ⟨taken, exact', lines⟩ := evaluate_digits_exact
  have digits {line : String} (all : line.toList.all Char.isDigit) : ∀ c ∈ line.toList, c.isDigit :=
    List.all_eq_true.1 all
  obtain ⟨small, _, _⟩ := lines "09007199254740991" 9007199254740991 (by decide) (digits rfl) rfl
  obtain ⟨_, large, _⟩ := lines "9007199254740992" 9007199254740992 (by decide) (digits rfl) rfl
  obtain ⟨_, _, beyond⟩ := lines "9223372036854775808" 9223372036854775808 (by decide) (digits rfl) rfl
  obtain ⟨x, done⟩ := (taken (-7)).2 (by decide)
  exact ⟨⟨x, done, (exact' _ x done).2⟩, small (by decide), large (by decide) (by decide), beyond (by decide)⟩

end Line

end LineCalc
