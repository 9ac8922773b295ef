import LineCalc.Line
import LineCalc.Proofs.Expression.Listing
import LineCalc.Proofs.Postfix.Conversion
import LineCalc.Proofs.Postfix.Evaluation
import LineCalc.Proofs.Token.Reading
import Mathlib.Data.List.Chain

/-!
# The value of a line

A line in which an expression is written with the parentheses that it needs has the value of that
expression, or fails as the expression fails. What is accepted as an expression never turns out to be
none, and its value is finite.
-/

namespace LineCalc

namespace Writing

/-- No operand follows an operand in a written expression. -/
lemma isChain_tokens (w : Writing) : w.tokens.IsChain Token.Apart := by
  have symbol (s : Symbol) (t : Token) : Token.Apart (.ofSymbol s) t := fun operand => nomatch operand
  have apart (t : Token) (s : Symbol) : Token.Apart t (.ofSymbol s) := fun _ operand => nomatch operand
  induction w with
  | operand a => exact .singleton a.token
  | negation w ih => exact List.isChain_cons.2 ⟨fun t _ => symbol .negation t, ih⟩
  | binary op left right ihl ihr =>
    refine List.isChain_append.2 ⟨ihl, List.isChain_cons.2 ⟨fun t _ => symbol _ t, ihr⟩, ?_⟩
    intro t _ u first
    cases first
    exact apart t (.binary op)
  | group w ih =>
    refine List.isChain_cons.2 ⟨fun t _ => symbol .opening t, ?_⟩
    refine List.isChain_append.2 ⟨ih, .singleton _, ?_⟩
    intro t _ u first
    cases first
    exact apart t .closing

end Writing

namespace Postfix

variable {ts p : List Token}

/-- What is converted is evaluated like the expression that was written. -/
lemma evaluate_ofTokens (converted : ofTokens ts = .ok p) :
    ∃ w : Writing, w.tokens = ts ∧ evaluate p = w.expression.value := by
  obtain ⟨w, _, tokens, rfl⟩ := ofTokens_eq_ok_iff_writing.1 converted
  exact ⟨w, tokens, evaluate_postorder w.expression⟩

/-- What is converted fails by its numbers if it fails. -/
lemma numerical_of_ofTokens {err : EvaluationError} (converted : ofTokens ts = .ok p)
    (failed : evaluate p = .error err) : err.Numerical := by
  obtain ⟨w, _, value⟩ := evaluate_ofTokens converted
  rw [value] at failed
  exact Expression.numerical_of_value failed

/-- What is converted has a finite value if it has one. -/
lemma isFinite_of_ofTokens {v : Float} (converted : ofTokens ts = .ok p)
    (finite : ∀ x, Token.real x ∈ ts → Binary64.IsFinite x) (done : evaluate p = .ok v) :
    Binary64.IsFinite v := by
  obtain ⟨w, rfl, value⟩ := evaluate_ofTokens converted
  rw [value] at done
  exact Expression.isFinite_of_value
    (fun x mem => finite x (Writing.mem_tokens_of_mem_operands mem)) done

end Postfix

namespace Line

variable {line : String}

/-- The value of a line is the value of the expression that is written in it. -/
theorem evaluate_written {e : Expression} {w : Writing} (written : w.expression = e)
    (admissible : w.Admissible) (spelled : Token.Written w.tokens line.toList) :
    evaluate line = e.value.mapError .evaluation := by
  have read : tokens line = .ok w.tokens := by
    rw [tokens, Token.ofText_written spelled w.isChain_tokens]
    rfl
  have converted : convert w.tokens = .ok e.postorder := by
    rw [convert, Postfix.ofTokens_eq_ok_iff_writing.2 ⟨w, admissible, rfl, rfl⟩, written]
    rfl
  rw [evaluate, read]
  change convert w.tokens >>= value = _
  rw [converted]
  change value e.postorder = _
  rw [value, Postfix.evaluate_postorder]

/-- A sum in parentheses times one half, with gaps around it and no zero in front of the point. -/
theorem evaluate_written_product : evaluate "( 2+!0 )*.5" = .ok 1.5 := by
  let sum : Writing := .binary .add (.operand (.integer 2)) (.negation (.operand (.integer 0)))
  let product : Writing := .binary .multiply (.group sum) (.operand (.real 0.5))
  have admissible : product.Admissible :=
    .binary ⟨nofun, rfl, nofun⟩ (.group (.binary ⟨nofun, rfl, nofun⟩ .operand (.negation .operand)))
      .operand
  have two : Token.Spelled (.integer 2) ['2'] :=
    .integer (List.cons_ne_nil _ _) (List.forall_mem_singleton.2 rfl) rfl (by decide)
  have zero : Token.Spelled (.integer 0) ['0'] :=
    .integer (List.cons_ne_nil _ _) (List.forall_mem_singleton.2 rfl) rfl (by decide)
  have half : Token.Spelled (.real 0.5) ([] ++ '.' :: ['5']) :=
    .real (List.cons_ne_nil _ _) nofun (List.forall_mem_singleton.2 rfl) (by decide +kernel)
  have spelled : Token.Written product.tokens "( 2+!0 )*.5".toList :=
    .token (.ofSymbol .opening) <| .gap rfl <| .token two <| .token (.ofSymbol (.binary .add)) <|
      .token (.ofSymbol .negation) <| .token zero <| .gap rfl <| .token (.ofSymbol .closing) <|
      .token (.ofSymbol (.binary .multiply)) <| .token half .nil
  have value : product.expression.value = .ok 1.5 := by decide +kernel
  rw [evaluate_written rfl admissible spelled, value]
  rfl

/-- A line without tokens fails with the error of reading. -/
lemma evaluate_of_unread {e : LexicalError} (unread : Token.ofText line = .error e) :
    evaluate line = .error (.lexical e) := by
  rw [evaluate, tokens, unread]
  rfl

/-- A line with tokens has the value of their postfix order. -/
lemma evaluate_of_read {ts : List Token} (read : Token.ofText line = .ok ts) :
    evaluate line = convert ts >>= value := by
  rw [evaluate, tokens, read]
  rfl

/-- The later stages have other errors than the first. -/
lemma unread_of_evaluate {e : LexicalError} (failed : evaluate line = .error (.lexical e)) :
    Token.ofText line = .error e := by
  rcases Except.bind_eq_error_iff.1 failed with unread | ⟨ts, _, failed⟩
  · obtain ⟨_, unread, same⟩ := Except.mapError_eq_error_iff.1 unread
    cases same
    exact unread
  rcases Except.bind_eq_error_iff.1 failed with unconverted | ⟨p, _, failed⟩
  · obtain ⟨_, _, clash⟩ := Except.mapError_eq_error_iff.1 unconverted
    cases clash
  · obtain ⟨_, _, clash⟩ := Except.mapError_eq_error_iff.1 failed
    cases clash

/-- A line with a value has tokens with a postfix order that has this value. -/
lemma exists_of_evaluate_eq_ok {v : Float} (done : evaluate line = .ok v) :
    ∃ ts p, Token.ofText line = .ok ts ∧ Postfix.ofTokens ts = .ok p ∧ Postfix.evaluate p = .ok v := by
  obtain ⟨ts, read, done⟩ := Except.bind_eq_ok_iff.1 done
  obtain ⟨p, converted, done⟩ := Except.bind_eq_ok_iff.1 done
  exact ⟨ts, p, Except.mapError_eq_ok_iff.1 read, Except.mapError_eq_ok_iff.1 converted,
    Except.mapError_eq_ok_iff.1 done⟩

/-- A line that fails in the evaluation fails by its numbers. -/
lemma numerical_of_evaluate {err : EvaluationError} (failed : evaluate line = .error (.evaluation err)) :
    err.Numerical := by
  rcases Except.bind_eq_error_iff.1 failed with unread | ⟨ts, _, failed⟩
  · obtain ⟨_, _, clash⟩ := Except.mapError_eq_error_iff.1 unread
    cases clash
  rcases Except.bind_eq_error_iff.1 failed with unconverted | ⟨p, converted, failed⟩
  · obtain ⟨_, _, clash⟩ := Except.mapError_eq_error_iff.1 unconverted
    cases clash
  obtain ⟨_, failed, same⟩ := Except.mapError_eq_error_iff.1 failed
  cases same
  exact Postfix.numerical_of_ofTokens (Except.mapError_eq_ok_iff.1 converted) failed

/-- A line has a finite value if it has one. -/
lemma isFinite_of_evaluate {v : Float} (done : evaluate line = .ok v) : Binary64.IsFinite v := by
  obtain ⟨ts, p, read, converted, done⟩ := exists_of_evaluate_eq_ok done
  exact Postfix.isFinite_of_ofTokens converted (fun x => Token.isFinite_of_ofLexemes read) done

end Line

end LineCalc
