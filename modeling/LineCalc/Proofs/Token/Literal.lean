import LineCalc.Proofs.Binary64.Value
import LineCalc.Proofs.Decimal
import LineCalc.Proofs.Token.Division

/-!
# Literals

A number that stands alone in a line is one lexeme. Digits around a point denote a fraction, and their token is
the double nearest to it. They are too large from the point on that lies halfway between the largest double and
the power of two beyond it, and then they are refused as a whole.
-/

namespace LineCalc

namespace Binary64

variable {n d : Nat}

/-- A quotient below the point where finite doubles end is read as the nearest double. -/
lemma exists_nearest?_eq_some (pos : 0 < d) (small : (n / d : ℚ) < 2 ^ 1024 - 2 ^ 970) :
    ∃ x, nearest? n d = some x ∧ isNegative x = false ∧ IsNearest (n / d) x := by
  have finite := (nearestBits_lt_infinityBits_iff pos).2 small
  exact ⟨_, if_pos finite, isNegative_ofMagnitudeBits finite, isNearest_nearestBits pos finite⟩

/-- From that point on a quotient has no nearest finite double. -/
lemma nearest?_eq_none (pos : 0 < d) (large : (2 ^ 1024 - 2 ^ 970 : ℚ) ≤ n / d) : nearest? n d = none :=
  if_neg fun finite => not_lt.2 large ((nearestBits_lt_infinityBits_iff pos).1 finite)

end Binary64

namespace Token

variable {line : String}

/-- A number that does not fit is refused as a whole. -/
lemma ofText_of_tooLarge {l : Lexeme} (wf : l.WellFormed) (large : TooLarge l)
    (alone : line.toList = l.chars) : ofText line = .error (.literalTooLarge line 0) := by
  have refused : ofLexeme 0 l = .error (.literalTooLarge line 0) := by
    rw [← String.ofList_toList (s := line), alone]
    cases large with
    | integer beyond => rw [ofLexeme, integer?, if_neg (Nat.not_le.2 beyond)]; rfl
    | real beyond => rw [ofLexeme, real?, beyond]; rfl
  rw [ofText, alone, wf.split_chars, ofLexemes, refused]
  rfl

/-- Digits around a point are read as the only double without a sign that is nearest to what they denote, if
that is less than the point halfway between the largest double and the power of two beyond it. Otherwise they
are too large. -/
theorem ofText_decimal {whole places : List Char} (alone : line.toList = whole ++ '.' :: places)
    (nonempty : whole ++ places ≠ []) (left : ∀ c ∈ whole, c.isDigit) (right : ∀ c ∈ places, c.isDigit) :
    (Decimal.fraction whole places < 2 ^ 1024 - 2 ^ 970 →
      ∃ x, ofText line = .ok [.real x] ∧ Binary64.isNegative x = false ∧
        Binary64.IsNearest (Decimal.fraction whole places) x ∧
        ∀ y, Binary64.isNegative y = false →
          Binary64.IsNearest (Decimal.fraction whole places) y → y = x) ∧
    (2 ^ 1024 - 2 ^ 970 ≤ Decimal.fraction whole places →
      ofText line = .error (.literalTooLarge line 0)) := by
  have pos : 0 < Nat.pow 10 places.length := Nat.pow_pos (by decide)
  rw [Decimal.fraction_eq]
  constructor
  · intro small
    obtain ⟨x, read, positive, nearest⟩ := Binary64.exists_nearest?_eq_some pos small
    refine ⟨x, ofText_spelled ?_, positive, nearest, fun y positive' nearest' => ?_⟩
    · rw [alone]
      exact .real nonempty left right read
    · exact nearest'.unique nearest positive' positive
  · intro large
    exact ofText_of_tooLarge (.real nonempty left right) (.real (Binary64.nearest?_eq_none pos large)) alone

/-- Halfway between two doubles the one with the even significand is read. -/
theorem ofText_decimal_tie :
    let digits := Decimal.digitChars 9007199254740993
    let nines := List.replicate 309 '9'
    Decimal.fraction digits [] < 2 ^ 1024 - 2 ^ 970 ∧
    ofText (String.ofList (digits ++ ['.'])) = .ok [.real 9007199254740992] ∧
    Binary64.IsNearest (Decimal.fraction digits []) 9007199254740992 ∧
    2 ^ 1024 - 2 ^ 970 ≤ Decimal.fraction nines [] ∧
    ofText (String.ofList (nines ++ ['.'])) =
      .error (.literalTooLarge (String.ofList (nines ++ ['.'])) 0) := by
  intro digits nines
  have finite : Binary64.nearestBits (Decimal.ofDigitChars (digits ++ [])) 1 < Binary64.infinityBits := by
    decide +kernel
  have infinite : ¬ Binary64.nearestBits (Decimal.ofDigitChars (nines ++ [])) 1 < Binary64.infinityBits := by
    decide +kernel
  have small : Decimal.fraction digits [] < 2 ^ 1024 - 2 ^ 970 := by
    rw [Decimal.fraction_eq]
    exact (Binary64.nearestBits_lt_infinityBits_iff Nat.one_pos).1 finite
  have large : 2 ^ 1024 - 2 ^ 970 ≤ Decimal.fraction nines [] := by
    rw [Decimal.fraction_eq]
    exact not_lt.1 fun small => infinite ((Binary64.nearestBits_lt_infinityBits_iff Nat.one_pos).2 small)
  have nonempty : nines ++ [] ≠ [] := by decide +kernel
  have all : ∀ c ∈ nines, c.isDigit := by
    intro c mem
    rw [List.eq_of_mem_replicate mem]
    rfl
  have none : ∀ c ∈ ([] : List Char), c.isDigit := List.forall_mem_nil _
  have alone : (String.ofList (digits ++ ['.'])).toList = digits ++ '.' :: [] := String.toList_ofList
  have accepted := ofText_decimal alone
    (List.append_ne_nil_of_left_ne_nil (Decimal.digitChars_ne_nil _) [])
    (fun c => Decimal.isDigit_of_mem_digitChars) none
  have refused := ofText_decimal String.toList_ofList nonempty all none
  have read : ofText (String.ofList (digits ++ ['.'])) = .ok [.real 9007199254740992] := by decide +kernel
  obtain ⟨x, read', _, nearest, _⟩ := accepted.1 small
  have same := Token.real.inj (List.cons.inj (Except.ok.inj (read'.symm.trans read))).1
  exact ⟨small, read, same ▸ nearest, large, refused.2 large⟩

end Token

end LineCalc
