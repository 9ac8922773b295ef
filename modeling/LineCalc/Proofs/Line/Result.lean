import LineCalc.Proofs.Binary64.Value
import LineCalc.Proofs.Decimal
import LineCalc.Proofs.Line
import LineCalc.Proofs.Numeral

/-!
# Results

What is written for the value of a line, taken as a line and as a number.

## Results are lines

A result without a minus sign is a numeral, and so it is a line itself. The value of that line need not be
the number that the result was written for, but it is a number with the same result.
-/

namespace LineCalc.Line

/-- A line that is read as one operand has the value of that operand. -/
lemma evaluate_of_operand {line : String} {a : Operand} (read : Token.ofText line = .ok [a.token]) :
    evaluate line = a.value.mapError .evaluation := by
  let w : Writing := .operand a
  have converted : Postfix.ofTokens [a.token] = .ok [a.token] :=
    Postfix.ofTokens_eq_ok_iff_writing.2 ⟨w, .operand, rfl, rfl⟩
  have valued : Postfix.evaluate [a.token] = a.value := Postfix.evaluate_postorder w.expression
  rw [evaluate_of_read read, convert, converted]
  change value [a.token] = _
  rw [value, valued]

/-- A real that stands alone in a line is its value. -/
lemma evaluate_of_real {line : String} {x : Float} (read : Token.ofText line = .ok [.real x]) :
    evaluate line = .ok x := by
  have operand : Token.ofText line = .ok [(Operand.real x).token] := read
  exact evaluate_of_operand operand

variable {v : Float}

/-- Without a minus sign a result is the numeral of its magnitude. -/
lemma toList_resultText (finite : Binary64.IsFinite v) (positive : Binary64.isNegative v = false) :
    (resultText v).toList = Numeral.twoPlaces (Binary64.magnitudeBits v) := by
  rw [resultText, String.toList_ofList, Numeral.real_of_isFinite finite, positive]
  rfl

/-- A result is read as a number with the same result. -/
lemma exists_ofText_resultText (finite : Binary64.IsFinite v) (positive : Binary64.isNegative v = false) :
    ∃ x, Token.ofText (resultText v) = .ok [.real x] ∧ resultText x = resultText v := by
  obtain ⟨finite', same⟩ := Numeral.hundredths_nearestBits finite
  let bits := Binary64.nearestBits (Numeral.hundredths (Binary64.magnitudeBits v)) 100
  refine ⟨Binary64.ofMagnitudeBits false bits, ?_, ?_⟩
  · apply Token.ofText_spelled
    rw [toList_resultText finite positive]
    exact .of_reads (Numeral.reads_twoPlaces _) finite'
  · have again := toList_resultText (Binary64.isFinite_ofMagnitudeBits finite')
      (Binary64.isNegative_ofMagnitudeBits finite')
    apply String.toList_inj.1
    rw [again, toList_resultText finite positive, Binary64.magnitudeBits_ofMagnitudeBits finite',
      Numeral.twoPlaces, same, Numeral.twoPlaces]

end LineCalc.Line

/-!
## The places of results

A result is written with a sign, a natural, a point and two digits. What these denote is the number of
hundredths nearest to the magnitude of the double, and the even one of two.
-/

namespace LineCalc

namespace Numeral

/-- The whole hundredths and the two digits behind the point make up all hundredths. -/
lemma fraction_hundredths (h : ℕ) :
    Decimal.fraction (Decimal.digitChars (h / 100)) ((Decimal.digitChars (h % 100)).leftpad 2 '0') =
      h * (1 / 100) := by
  have whole : ((h / 100 : ℕ) * 100 + (h % 100 : ℕ) : ℚ) = h := by exact_mod_cast Nat.div_add_mod' h 100
  rw [Decimal.fraction, length_leftpad_mod, Decimal.ofDigitChars_leftpad, Decimal.ofDigitChars_digitChars,
    Decimal.ofDigitChars_digitChars, ← whole]
  ring

/-- The hundredths that are written are the nearest ones. -/
lemma isNearestMultiple_hundredths (x : Float) :
    Rounding.IsNearestMultiple (1 / 100) (Binary64.magnitude x) (hundredths (Binary64.magnitudeBits x)) := by
  have one : (Binary64.unitsPerOne : ℚ) ≠ 0 := Nat.cast_ne_zero.2 Binary64.unitsPerOne_pos.ne'
  apply (Rounding.nearestEven_halfEven Binary64.unitsPerOne_pos _).isNearestMultiple
    Binary64.unitsPerOne_pos (by norm_num)
  rw [Binary64.magnitude, div_mul_cancel₀ _ one]
  push_cast
  ring

end Numeral

namespace Line

variable {v : Float}

/-- A finite result is written with a minus sign exactly if the sign of the double is set, with digits in
front of the point that have no needless zero, and with two digits behind it. They denote the hundredths
nearest to the magnitude, and the even ones of two. -/
theorem resultText_nearest (finite : Binary64.IsFinite v) :
    ∃ (whole places : List Char) (h : ℕ),
      (resultText v).toList = (if Binary64.isNegative v then ['-'] else []) ++ whole ++ '.' :: places ∧
      whole ≠ [] ∧ (∀ c ∈ whole, c.isDigit) ∧ (whole.head? = some '0' → whole = ['0']) ∧
      places.length = 2 ∧ (∀ c ∈ places, c.isDigit) ∧
      Decimal.fraction whole places = h * (1 / 100) ∧
      Rounding.IsNearestMultiple (1 / 100) (Binary64.magnitude v) h := by
  let h := Numeral.hundredths (Binary64.magnitudeBits v)
  refine ⟨Decimal.digitChars (h / 100), (Decimal.digitChars (h % 100)).leftpad 2 '0', h, ?_,
    Decimal.digitChars_ne_nil _, fun c => Decimal.isDigit_of_mem_digitChars,
    Decimal.digitChars_eq_of_head?, Numeral.length_leftpad_mod h,
    Decimal.isDigit_of_mem_leftpad fun c => Decimal.isDigit_of_mem_digitChars,
    Numeral.fraction_hundredths h, Numeral.isNearestMultiple_hundredths v⟩
  rw [resultText, String.toList_ofList, Numeral.real_of_isFinite finite, List.append_assoc]
  rfl

/-- An eighth lies halfway between two hundredths, of which the even ones are written. -/
theorem resultText_nearest_eighth :
    Binary64.IsFinite (-0.125) ∧ resultText (-0.125) = "-0.12" ∧
    Rounding.IsNearestMultiple (1 / 100) (Binary64.magnitude (-0.125)) 12 := by
  have finite : Binary64.IsFinite (-0.125) := by decide +kernel
  have written : resultText (-0.125) = "-0.12" := by decide +kernel
  have negative : Binary64.isNegative (-0.125) = true := by decide +kernel
  refine ⟨finite, written, ?_⟩
  obtain ⟨whole, places, h, text, _, _, _, two, _, denoted, nearest⟩ := resultText_nearest finite
  rw [written, negative] at text
  have text : ['-', '0'] ++ ['.', '1', '2'] = ['-'] ++ whole ++ '.' :: places := text
  obtain ⟨front, back⟩ := List.append_inj' text (by simp [two])
  cases front
  cases back
  have twelve : Decimal.fraction ['0'] ['1', '2'] = 12 * (1 / 100) := Numeral.fraction_hundredths 12
  obtain rfl : h = 12 := by
    rw [twelve] at denoted
    have same := mul_right_cancel₀ (by norm_num) denoted
    exact_mod_cast same.symm
  exact nearest

end Line

end LineCalc
