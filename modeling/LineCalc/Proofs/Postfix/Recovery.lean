import LineCalc.Proofs.Expression.Listing
import LineCalc.Proofs.Postfix.Conversion
import LineCalc.Proofs.Postfix.Refusal

/-!
# What a conversion keeps

Without its parentheses, what is written is the inorder of its expression, and what is converted from it is
the postorder of the same expression. So a conversion loses nothing but the parentheses, and since a
postorder belongs to one expression only, the order in which the tokens were written can be found again.
-/

namespace LineCalc.Postfix

variable {ts p : List Token}

/-- What was written is found again in what it was converted to, except for the parentheses. -/
lemma map_inorder_of_ofTokens (converted : ofTokens ts = .ok p) :
    (Expression.ofPostorder? p).map Expression.inorder = some (Token.ungrouped ts) := by
  obtain ⟨w, _, rfl, rfl⟩ := ofTokens_eq_ok_iff_writing.1 converted
  rw [Expression.ofPostorder?_eq_some_iff.2 rfl, w.ungrouped_tokens]
  rfl

/-- A conversion loses, duplicates and reorders nothing but the parentheses: the order of the other tokens
is the inorder of the tree that the result lists in postorder. -/
theorem ofTokens_recoverable (converted : ofTokens ts = .ok p) :
    (∃ e : Expression, e.postorder = p ∧ e.inorder = Token.ungrouped ts) ∧
    p.filter Token.isOperand = ts.filter Token.isOperand ∧
    (p.filter Token.isOperator).Perm (ts.filter Token.isOperator) ∧
    p.length + ts.countP Token.isParenthesis = ts.length ∧
    ∀ ts', ofTokens ts' = .ok p → Token.ungrouped ts' = Token.ungrouped ts := by
  have recovered := map_inorder_of_ofTokens converted
  obtain ⟨e, found, kept⟩ := Option.map_eq_some_iff.1 recovered
  obtain rfl := Expression.ofPostorder?_eq_some_iff.1 found
  have same := e.inorder_perm_postorder
  refine ⟨⟨e, rfl, kept⟩, ?_, ?_, ?_, ?_⟩
  · rw [← Token.filter_ungrouped Token.isOperand_of_isParenthesis ts, ← kept,
      e.filter_isOperand_postorder, e.filter_isOperand_inorder]
  · rw [← Token.filter_ungrouped Token.isOperator_of_isParenthesis ts, ← kept]
    exact (same.filter _).symm
  · rw [← same.length_eq, kept, Token.length_ungrouped]
  · intro ts' converted'
    exact Option.some.inj ((map_inorder_of_ofTokens converted').symm.trans recovered)

/-- A negated product of a sum in parentheses is found again but for its parentheses. -/
theorem ofTokens_recoverable_product :
    let written : List Token :=
      [.symbol '!', .symbol '(', .integer 2, .symbol '+', .integer 3, .symbol ')', .symbol '*', .integer 4]
    let listed : List Token := [.integer 2, .integer 3, .symbol '+', .integer 4, .symbol '*', .symbol '!']
    ofTokens written = .ok listed ∧
    (∃ e : Expression, e.postorder = listed ∧ e.inorder = Token.ungrouped written) ∧
    listed.filter Token.isOperand = written.filter Token.isOperand ∧
    (listed.filter Token.isOperator).Perm (written.filter Token.isOperator) ∧
    listed.length + written.countP Token.isParenthesis = written.length ∧
    ∀ ts', ofTokens ts' = .ok listed → Token.ungrouped ts' = Token.ungrouped written := by
  intro written listed
  have converted : ofTokens written = .ok listed := rfl
  exact ⟨converted, ofTokens_recoverable converted⟩

end LineCalc.Postfix

/-!
## Conversions are not converted again

A postorder starts with the leftmost operand of its expression. If there is more, the next token is another
operand, or a negation that is applied to the first one. Neither may follow an operand where tokens are
converted, so nothing but a single operand is both a result and an expression.
-/

namespace LineCalc

/-- A postorder is one operand, or it has an operand or a negation behind its first operand. -/
lemma Expression.postorder_cases (e : Expression) :
    (∃ a : Operand, e.postorder = [a.token]) ∨
    ∃ (a : Operand) (t : Token) (rest : List Token), e.postorder = a.token :: t :: rest ∧
      (t.isOperand ∨ t = .ofSymbol .negation) := by
  induction e with
  | operand a => exact .inl ⟨a, rfl⟩
  | negation e ih =>
    right
    rw [postorder]
    rcases ih with ⟨a, alone⟩ | ⟨a, t, rest, starts, behind⟩
    · rw [alone]
      exact ⟨a, .ofSymbol .negation, [], rfl, .inr rfl⟩
    · rw [starts]
      exact ⟨a, t, rest ++ [.ofSymbol .negation], rfl, behind⟩
  | binary op left right ihl ihr =>
    right
    rw [postorder]
    rcases ihl with ⟨a, alone⟩ | ⟨a, t, rest, starts, behind⟩
    · -- The right side starts with an operand too.
      have next : ∃ (b : Operand) (rest : List Token), right.postorder = b.token :: rest := by
        rcases ihr with ⟨b, alone⟩ | ⟨b, t, rest, starts, _⟩
        · exact ⟨b, [], alone⟩
        · exact ⟨b, t :: rest, starts⟩
      obtain ⟨b, rest, starts⟩ := next
      rw [alone, starts]
      exact ⟨a, b.token, rest ++ [.ofSymbol (.binary op)], rfl, .inl (Token.isOperand_token b)⟩
    · rw [starts]
      exact ⟨a, t, rest ++ right.postorder ++ [.ofSymbol (.binary op)], by simp, behind⟩

namespace Postfix

variable {s : Conversion} {ts p : List Token} {ctx : Context} {t : Token} {w : Writing}

/-- Neither an operand nor a negation follows an operand. -/
lemma Conversion.Tracks.exists_step_eq_error (tracks : s.Tracks ts ctx (some w))
    (misplaced : t.isOperand ∨ t = .ofSymbol .negation) :
    ∃ reason, s.step ts.length t = .error (.invalidExpression reason ts.length) := by
  rcases misplaced with operand | rfl
  · obtain ⟨a, rfl⟩ := Token.exists_token_of_isOperand operand
    rw [step_operand, takeOperand, tracks.expectsOperand]
    exact ⟨.operandAfterOperand, rfl⟩
  · rw [step_ofSymbol, takeSymbol, tracks.expectsOperand]
    exact ⟨.negationAfterOperand, rfl⟩

/-- The result of a conversion is converted to itself if it is a single operand, and otherwise refused at its
second token. So a second conversion never makes another expression of it. -/
theorem ofTokens_ofTokens (converted : ofTokens ts = .ok p) :
    (p.length = 1 → ofTokens p = .ok p) ∧
    (p.length ≠ 1 → ∃ reason, ofTokens p = .error (.invalidExpression reason 1)) ∧
    ∀ p', ofTokens p = .ok p' → p' = p := by
  obtain ⟨w, _, _, rfl⟩ := ofTokens_eq_ok_iff_writing.1 converted
  rcases w.expression.postorder_cases with ⟨a, alone⟩ | ⟨a, t, rest, starts, behind⟩
  · have again : ofTokens [a.token] = .ok [a.token] :=
      ofTokens_eq_ok_iff_writing.2 ⟨.operand a, .operand, rfl, rfl⟩
    rw [alone]
    refine ⟨fun _ => again, fun longer => absurd rfl longer, fun p' converted' => ?_⟩
    exact (Except.ok.inj (again.symm.trans converted')).symm
  · obtain ⟨s, one, tracks⟩ := Conversion.Tracks.start.operand a
    obtain ⟨reason, refused⟩ := tracks.exists_step_eq_error behind
    have run : Conversion.start.steps 0 [a.token] = .ok s := Conversion.steps_cons one
    have failed := ofTokens_append_of_refused run refused rest
    rw [starts]
    refine ⟨fun short => ?_, fun _ => ⟨reason, failed⟩, fun p' converted' => ?_⟩
    · cases short
    · cases failed.symm.trans converted'

/-- The same product is not converted again, and a number in parentheses is. -/
theorem ofTokens_ofTokens_product :
    let written : List Token :=
      [.symbol '!', .symbol '(', .integer 2, .symbol '+', .integer 3, .symbol ')', .symbol '*', .integer 4]
    let listed : List Token := [.integer 2, .integer 3, .symbol '+', .integer 4, .symbol '*', .symbol '!']
    ofTokens written = .ok listed ∧
    (∃ reason, ofTokens listed = .error (.invalidExpression reason 1)) ∧
    ofTokens [.symbol '(', .integer 7, .symbol ')'] = .ok [.integer 7] ∧
    ofTokens [.integer 7] = .ok [.integer 7] := by
  intro written listed
  have converted : ofTokens written = .ok listed := rfl
  have single : ofTokens [.symbol '(', .integer 7, .symbol ')'] = .ok [.integer 7] := rfl
  exact ⟨converted, (ofTokens_ofTokens converted).2.1 (by decide), single, (ofTokens_ofTokens single).1 rfl⟩

end Postfix

end LineCalc
