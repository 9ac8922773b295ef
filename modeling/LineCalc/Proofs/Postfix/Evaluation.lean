import LineCalc.Postfix.Evaluation
import LineCalc.Proofs.Binary64
import LineCalc.Proofs.Except
import LineCalc.Proofs.Expression

/-!
# Evaluation is the value of the tree

The evaluation of a tree's postorder is the value of the tree, whichever part of it fails. It never
lacks an operand and never meets a symbol that it cannot apply, and its result is finite if the
operands are.
-/

namespace LineCalc

namespace Postfix

/-- A binary operator is applied. -/
lemma evaluateToken_ofSymbol_binary (op : BinaryOperator) (values : Stack Float) :
    evaluateToken values (.ofSymbol (.binary op)) = applyBinary op values := by
  simp [evaluateToken, Token.ofSymbol]

/-- A negation is applied. -/
lemma evaluateToken_ofSymbol_negation (values : Stack Float) :
    evaluateToken values (.ofSymbol .negation) = applyNegation values := by
  simp [evaluateToken, Token.ofSymbol]

/-- The value of an operand is pushed. -/
lemma evaluateToken_token (a : Operand) (values : Stack Float) :
    evaluateToken values a.token = a.value.map values.push := by
  cases a <;> rfl

/-- A tree adds its value to the values so far, or its error is the error. -/
lemma foldlM_postorder (e : Expression) (values : Stack Float) :
    e.postorder.foldlM evaluateToken values = e.value.map values.push := by
  induction e generalizing values with
  | operand a =>
    rw [Expression.postorder, List.foldlM_cons, evaluateToken_token, Expression.value]
    cases a.value <;> rfl
  | negation e ih =>
    rw [Expression.postorder, List.foldlM_append, ih, Expression.value]
    cases e.value with
    | error err => rfl
    | ok x =>
      change [Token.ofSymbol .negation].foldlM evaluateToken (values.push x) = _
      rw [List.foldlM_cons, evaluateToken_ofSymbol_negation]
      rfl
  | binary op left right ihl ihr =>
    rw [Expression.postorder, List.foldlM_append, List.foldlM_append, ihl, Expression.value]
    cases left.value with
    | error err => rfl
    | ok x =>
      change (right.postorder.foldlM evaluateToken (values.push x) >>= fun values =>
        [Token.ofSymbol (.binary op)].foldlM evaluateToken values) = _
      rw [ihr]
      cases right.value with
      | error err => rfl
      | ok y =>
        change [Token.ofSymbol (.binary op)].foldlM evaluateToken ((values.push x).push y) = _
        rw [List.foldlM_cons, evaluateToken_ofSymbol_binary]
        change (Except.map values.push (Arithmetic.combine op x y) >>= fun values => .ok values) =
          (Arithmetic.combine op x y).map values.push
        cases Arithmetic.combine op x y <;> rfl

/-- The evaluation of a tree's postorder is the value of the tree. -/
lemma evaluate_postorder (e : Expression) : evaluate e.postorder = e.value := by
  rw [evaluate, foldlM_postorder]
  cases e.value <;> rfl

end Postfix

/-- The errors that come from the numbers, not from the form of an expression. -/
inductive EvaluationError.Numerical : EvaluationError → Prop
  | divisionByZero : Numerical .divisionByZero
  | nonFinite (c : Char) : Numerical (.nonFinite c)
  | integerTooLarge (n : Int) : Numerical (.integerTooLarge n)

namespace Arithmetic

/-- Truth and falsehood are finite. -/
lemma isFinite_truth (b : Bool) : Binary64.IsFinite (truth b) := by
  apply Binary64.isFinite_ofInt
  cases b <;> decide

/-- An integer takes part with its double if its magnitude has at most 53 bits. -/
lemma ofInteger_eq_ok_iff {n : Int} {x : Float} :
    ofInteger n = .ok x ↔ n.natAbs ≤ maxExactInteger ∧ Binary64.ofInt n = x := by
  rw [ofInteger]
  split
  case isTrue small => exact ⟨fun done => ⟨small, Except.ok.inj done⟩, fun ⟨_, same⟩ => congrArg _ same⟩
  case isFalse large => exact ⟨nofun, fun ⟨small, _⟩ => absurd small large⟩

/-- An integer takes no part in arithmetic if it is beyond the greatest one that does. -/
lemma ofInteger_eq_error_iff {n : Int} {err : EvaluationError} :
    ofInteger n = .error err ↔ maxExactInteger < n.natAbs ∧ .integerTooLarge n = err := by
  rw [ofInteger]
  split
  case isTrue small => exact ⟨nofun, fun ⟨large, _⟩ => absurd small (Nat.not_le.2 large)⟩
  case isFalse large =>
    exact ⟨fun failed => ⟨Nat.lt_of_not_le large, Except.error.inj failed⟩,
      fun ⟨_, same⟩ => congrArg _ same⟩

/-- An integer that takes part in arithmetic is finite. -/
lemma isFinite_ofInteger {n : Int} {x : Float} (exact' : ofInteger n = .ok x) :
    Binary64.IsFinite x := by
  obtain ⟨small, rfl⟩ := ofInteger_eq_ok_iff.1 exact'
  exact Binary64.isFinite_ofInt small

/-- A result that is not finite fails by its numbers. -/
lemma numerical_of_finite {c : Char} {x : Float} {err : EvaluationError}
    (failed : finite c x = .error err) : err.Numerical := by
  rw [finite] at failed
  split at failed
  · cases failed
  · cases failed
    exact .nonFinite c

/-- A result that has to be finite is finite. -/
lemma isFinite_of_finite {c : Char} {x y : Float} (done : finite c x = .ok y) :
    Binary64.IsFinite y := by
  rw [finite] at done
  split at done
  · cases done
    assumption
  · cases done

/-- An operator fails only by its numbers. -/
lemma numerical_of_combine {op : BinaryOperator} {x y : Float} {err : EvaluationError}
    (failed : combine op x y = .error err) : err.Numerical := by
  cases op with
  | add => exact numerical_of_finite failed
  | subtract => exact numerical_of_finite failed
  | multiply => exact numerical_of_finite failed
  | power => exact numerical_of_finite failed
  | divide =>
    simp only [combine] at failed
    split at failed
    · cases failed
      exact .divisionByZero
    · exact numerical_of_finite failed
  | _ => cases failed

/-- The results of the operators are finite, whatever the operands are. -/
lemma isFinite_of_combine {op : BinaryOperator} {x y z : Float} (done : combine op x y = .ok z) :
    Binary64.IsFinite z := by
  cases op with
  | add => exact isFinite_of_finite done
  | subtract => exact isFinite_of_finite done
  | multiply => exact isFinite_of_finite done
  | power => exact isFinite_of_finite done
  | divide =>
    simp only [combine] at done
    split at done
    · cases done
    · exact isFinite_of_finite done
  | _ =>
    cases done
    exact isFinite_truth _

end Arithmetic

namespace Expression

/-- A tree fails only by its numbers. -/
lemma numerical_of_value {e : Expression} {err : EvaluationError} (failed : e.value = .error err) :
    err.Numerical := by
  induction e with
  | operand a =>
    cases a with
    | real x => cases failed
    | integer n =>
      obtain ⟨_, rfl⟩ := Arithmetic.ofInteger_eq_error_iff.1 failed
      exact .integerTooLarge n
  | negation e ih =>
    rcases Except.bind_eq_error_iff.1 failed with failed | ⟨x, _, failed⟩
    · exact ih failed
    · cases failed
  | binary op left right ihl ihr =>
    rcases Except.bind_eq_error_iff.1 failed with failed | ⟨x, _, failed⟩
    · exact ihl failed
    rcases Except.bind_eq_error_iff.1 failed with failed | ⟨y, _, failed⟩
    · exact ihr failed
    · exact Arithmetic.numerical_of_combine failed

/-- The value of a tree with finite operands is finite. -/
lemma isFinite_of_value {e : Expression} {v : Float}
    (finite : ∀ x, Operand.real x ∈ e.operands → Binary64.IsFinite x) (found : e.value = .ok v) :
    Binary64.IsFinite v := by
  cases e with
  | operand a =>
    cases a with
    | integer n => exact Arithmetic.isFinite_ofInteger found
    | real x =>
      cases found
      exact finite v List.mem_cons_self
  -- Operators look at their operands but give finite results whatever these are.
  | negation e =>
    obtain ⟨x, _, found⟩ := Except.bind_eq_ok_iff.1 found
    cases found
    exact Arithmetic.isFinite_truth _
  | binary op left right =>
    obtain ⟨x, _, found⟩ := Except.bind_eq_ok_iff.1 found
    obtain ⟨y, _, found⟩ := Except.bind_eq_ok_iff.1 found
    exact Arithmetic.isFinite_of_combine found

end Expression

end LineCalc
