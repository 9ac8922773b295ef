import LineCalc.Proofs.Expression.Listing
import LineCalc.Proofs.Postfix.Evaluation

/-!
# Only postorders have a value

The values on the stack of an evaluation are those of trees, and every token that is taken joins trees just
as it joins their values. So where a list of tokens has a value, the tokens are the postorder of one tree,
and the value is the value of that tree.
-/

namespace LineCalc.Postfix

/-- The values are those of the trees, the top of the stack being the value of the first tree. -/
def Holds (values : Stack Float) (trees : List Expression) : Prop :=
  List.Forall₂ (fun x e => e.value = .ok x) values.items trees

variable {values values' : Stack Float} {trees : List Expression} {t : Token} {ts p : List Token} {v : Float}

/-- What takes the values of trees takes these trees. -/
lemma Holds.of_token (holds : Holds values trees) (taken : evaluateToken values t = .ok values') :
    ∃ trees', Expression.join? trees t = some trees' ∧ Holds values' trees' := by
  obtain ⟨items⟩ := values
  cases t.view with
  | operand a =>
    rw [evaluateToken_token] at taken
    obtain ⟨x, value, rfl⟩ := Except.map_eq_ok_iff.1 taken
    exact ⟨_, Expression.join?_token a trees, List.Forall₂.cons value holds⟩
  | unknown meaningless => simp [evaluateToken, meaningless] at taken
  | symbol symbol =>
    cases symbol with
    | opening => cases taken
    | closing => cases taken
    | negation =>
      rw [evaluateToken_ofSymbol_negation] at taken
      cases holds with
      | nil => cases taken
      | @cons x e rest trees value holds =>
        cases taken
        refine ⟨_, Expression.join?_negation e trees, List.Forall₂.cons ?_ holds⟩
        rw [Expression.value, value]
        rfl
    | binary op =>
      rw [evaluateToken_ofSymbol_binary] at taken
      cases holds with
      | nil => cases taken
      | @cons y right rest trees valuer holds =>
        cases holds with
        | nil => cases taken
        | @cons x left rest trees valuel holds =>
          -- The right operand is on top of the stack.
          obtain ⟨z, value, rfl⟩ := Except.map_eq_ok_iff.1 taken
          refine ⟨_, Expression.join?_binary op left right trees, List.Forall₂.cons ?_ holds⟩
          rw [Expression.value, valuel, valuer]
          exact value

/-- While tokens are taken there is a tree for every value. -/
lemma Holds.of_tokens (holds : Holds values trees) (taken : ts.foldlM evaluateToken values = .ok values') :
    ∃ trees', ts.foldlM Expression.join? trees = some trees' ∧ Holds values' trees' := by
  induction ts generalizing values trees with
  | nil =>
    cases taken
    exact ⟨trees, rfl, holds⟩
  | cons t ts ih =>
    obtain ⟨values₁, one, taken⟩ := Except.bind_eq_ok_iff.1 taken
    obtain ⟨trees₁, joined, holds₁⟩ := holds.of_token one
    obtain ⟨trees', run, holds'⟩ := ih holds₁ taken
    exact ⟨trees', Option.bind_eq_some_iff.2 ⟨trees₁, joined, run⟩, holds'⟩

/-- There is a result if it is the only value left. -/
lemma onlyValue_eq_ok_iff : onlyValue values = .ok v ↔ values.items = [v] := by
  obtain ⟨items⟩ := values
  match items with
  | [] => exact ⟨nofun, nofun⟩
  | [x] => simp [onlyValue, Stack.pop?, Stack.isEmpty]
  | x :: y :: rest => simp [onlyValue, Stack.pop?, Stack.isEmpty]

/-- A list with a value is read as a tree with that value. -/
lemma exists_of_evaluate_eq_ok (done : evaluate p = .ok v) :
    ∃ e, Expression.ofPostorder? p = some e ∧ e.value = .ok v := by
  obtain ⟨values, taken, done⟩ := Except.bind_eq_ok_iff.1 done
  have start : Holds .empty [] := List.Forall₂.nil
  obtain ⟨trees, run, holds⟩ := start.of_tokens taken
  rw [Holds, onlyValue_eq_ok_iff.1 done] at holds
  cases holds with
  | cons value rest =>
    cases rest
    refine ⟨_, ?_, value⟩
    rw [Expression.ofPostorder?, run]

/-- The evaluation of a postorder is the value of its tree, be it a number or an error; and a list of
tokens has a value if and only if it is the postorder of one tree, and that tree has the value. -/
theorem evaluate_refines_value :
    (∀ e : Expression, evaluate e.postorder = e.value) ∧
    ∀ p v, evaluate p = .ok v ↔
      ∃ e : Expression, (∀ e' : Expression, e'.postorder = p ↔ e' = e) ∧ e.value = .ok v := by
  refine ⟨evaluate_postorder, fun p v => ⟨fun done => ?_, ?_⟩⟩
  · obtain ⟨e, found, value⟩ := exists_of_evaluate_eq_ok done
    have listed := Expression.ofPostorder?_eq_some_iff.1 found
    refine ⟨e, fun e' => ⟨fun listed' => ?_, ?_⟩, value⟩
    · exact Expression.postorder_injective (listed'.trans listed.symm)
    · rintro rfl
      exact listed
  · rintro ⟨e, only, value⟩
    rw [← (only e).2 rfl, evaluate_postorder, value]

end LineCalc.Postfix
